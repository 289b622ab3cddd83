import Lowering.Proofs.Cache.Mirrors

/-
  This file proves, operation by operation and then for every
  history, that the elements of host bindings are the mirrors
  of those bindings.

  Only wrapping a host binding makes an element of one. All
  other elements are generated, and what is changed of a live
  element is not what the binding says of it.

  Main results:
    * `Cache.mirroring_perform`
    * `Cache.Reached.mirrored`
    * `Cache.elements_say_what_the_table_says`
-/

namespace Lowering

namespace Cache

variable {table : BindingTable}

------------------------------------------------------------
-- Bindings Of Any Sort
------------------------------------------------------------

/- A generated element mirrors nothing. -/
private theorem mirroring_addGenerated
    {data : ElementData}
    (hOrigin : data.origin = .generated)
    (cache : Cache) :
    Follows (Mirroring table) (addElement data) cache := by
  apply mirroring_addElement
  intro id hHost
  rw [hOrigin] at hHost
  cases hHost

private theorem mirroring_modifyElement
    {id : ElementId}
    {edit : ElementEdit}
    {cache : Cache}
    (hKept : ∀ data : ElementData,
      cache.elements.get? id.raw = some data →
        data.Kept (edit.apply data)) :
    Follows (Mirroring table) (modifyElement id edit)
      cache := by
  refine ⟨grown_editElement hKept, ?_⟩
  intro handle data other hElement _
  exact Or.inl (exists_kept_of_modify hKept hElement)

private theorem mirroring_forgetExecutable
    (method : ElementId)
    (cache : Cache) :
    Follows (Mirroring table) (forgetExecutable method) cache :=
  ⟨grown_executables cache _, fun _ data _ hElement _ =>
    Or.inl ⟨data, hElement, ElementData.Kept.refl data⟩⟩

private theorem mirroring_packageElement
    (name : Name)
    (cache : Cache) :
    Follows (Mirroring table) (packageElement name) cache := by
  have hHistory := Mirroring.isHistory table
  unfold packageElement
  apply Follows.get hHistory
  split
  · exact Follows.pure hHistory _ _
  · exact mirroring_addGenerated rfl cache

private theorem mirroring_wrapElement
    (hAcyclic : table.Acyclic)
    (binding : Binding)
    (cache : Cache) :
    Follows (Mirroring table) (wrapElement table binding)
      cache := by
  have hHistory := Mirroring.isHistory table
  unfold wrapElement
  cases binding with
  | host id =>
      exact (mirroring_wrapHostElement hAcyclic id cache).follows
  | generated binding =>
      apply (Follows.inspect hHistory _ cache).bind hHistory
      intro _ state _
      exact Follows.pure hHistory _ _
  | generatedPackage name =>
      exact mirroring_packageElement name cache
  | nativeType name => exact Follows.throw hHistory _ _
  | pointer pointee => exact Follows.throw hHistory _ _
  | pointerToUnbound => exact Follows.throw hHistory _ _

private theorem mirroring_wrapElementOf
    (hAcyclic : table.Acyclic)
    (family : ElementFamily)
    (binding : Binding)
    (cache : Cache) :
    Follows (Mirroring table)
      (wrapElementOf table family binding) cache := by
  have hHistory := Mirroring.isHistory table
  unfold wrapElementOf
  apply (mirroring_wrapElement hAcyclic binding cache).bind
    hHistory
  intro element state _
  apply (Follows.inspect hHistory _ state).bind hHistory
  intro _ state' _
  exact Follows.pure hHistory _ _

/- The annotations of a package are not said by the table. -/
private theorem mirroring_wrapPackageDeclaration
    (hAcyclic : table.Acyclic)
    (id : BindingId)
    (annotations : List BindingId)
    (cache : Cache) :
    Follows (Mirroring table)
      (wrapPackageDeclaration table id annotations) cache := by
  have hHistory := Mirroring.isHistory table
  unfold wrapPackageDeclaration
  apply (mirroring_wrapElementOf hAcyclic _ _ cache).bind
    hHistory
  intro element cache₁ hWrap
  rcases accepts_of_wrapElementOf hWrap with
    ⟨package, hPackage, hAccepts⟩
  apply (Follows.inspect hHistory _ cache₁).bind hHistory
  intro data cache₂ hInspect
  rcases run_inspectCache_eq_ok hInspect with ⟨hElement, rfl⟩
  rcases element_eq_ok_iff.mp hElement ▸ hPackage with ⟨rfl⟩
  simp only []
  split
  · next hNone =>
    have hUses : Follows (TypesOnly True)
        (wrapUses table annotations) cache₂ :=
      follows_wrapUses (fun _ => hAcyclic) annotations cache₂
    apply (hUses.mono fun _ _ hOnly => hOnly.mirroring).bind
      hHistory
    intro found cache₃ hRun
    have hSame : cache₃.elements = cache₂.elements :=
      (hUses.run_ok hRun).elements
    have hModify : Follows (Mirroring table)
        (modifyElement element (.annotations found)) cache₃ := by
      apply mirroring_modifyElement
      intro old hOld
      rw [hSame, element_eq_ok_iff.mp hElement] at hOld
      cases hOld
      simp only [Bool.and_eq_true, List.isEmpty_iff] at hNone
      exact kept_annotated hAccepts hNone.1 found
    apply hModify.bind hHistory
    intro _ cache₄ _
    exact Follows.pure hHistory _ _
  · exact Follows.pure hHistory _ _

------------------------------------------------------------
-- Generated Elements
------------------------------------------------------------

/- A generated type is made first, and knows its element. -/
private theorem mirroring_newTypeElement
    (text : String)
    (enclosing : Option ElementId)
    (modifiers : Modifiers)
    (cache : Cache) :
    Follows (Mirroring table)
      (newTypeElement text enclosing modifiers) cache := by
  have hHistory := Mirroring.isHistory table
  unfold newTypeElement
  apply (mirroring_intern text).follows.bind hHistory
  intro name cache₁ _
  apply Follows.get hHistory
  have hType : Follows (Mirroring table)
      (addType (.declared name)
        (.generated ⟨cache₁.elements.next⟩)) cache₁ := by
    refine ⟨⟨Interner.Grown.refl _,
      Generation.Grown.push (fun _ => rfl) _ _,
      Generation.Grown.refl ElementData.Kept.refl _⟩, ?_⟩
    intro handle data _ hElement _
    exact Or.inl ⟨data, hElement, ElementData.Kept.refl data⟩
  apply hType.bind hHistory
  intro ty cache₂ _
  exact mirroring_addGenerated rfl cache₂

private theorem mirroring_newField
    (text : String)
    (ty : TypeId)
    (declaring : ElementId)
    (modifiers : Modifiers)
    (cache : Cache) :
    Follows (Mirroring table)
      (newField text ty declaring modifiers) cache := by
  unfold newField
  apply (mirroring_intern text).follows.bind
    (Mirroring.isHistory table)
  intro name cache₁ _
  exact mirroring_addGenerated rfl cache₁

private theorem mirroring_newMethod
    (selector : String)
    (declaring : ElementId)
    (returnType : TypeId)
    (modifiers : Modifiers)
    (cache : Cache) :
    Follows (Mirroring table)
      (newMethod selector declaring returnType modifiers)
      cache := by
  have hHistory := Mirroring.isHistory table
  unfold newMethod
  apply (mirroring_intern _).follows.bind hHistory
  intro name cache₁ _
  apply (mirroring_intern selector).follows.bind hHistory
  intro full cache₂ _
  exact mirroring_addGenerated rfl cache₂

private theorem mirroring_newParameter
    (method : ElementId)
    (text : String)
    (ty : TypeId)
    (cache : Cache) :
    Follows (Mirroring table) (newParameter method text ty)
      cache := by
  have hHistory := Mirroring.isHistory table
  unfold newParameter
  apply (Follows.inspect hHistory _ cache).bind hHistory
  intro _ cache₁ _
  apply (mirroring_intern text).follows.bind hHistory
  intro name cache₂ _
  apply (mirroring_addGenerated rfl cache₂).bind hHistory
  intro param cache₃ _
  have hModify : Follows (Mirroring table)
      (modifyElement method (.parameter param)) cache₃ :=
    mirroring_modifyElement fun data _ =>
      kept_addParameter param data
  apply hModify.bind hHistory
  intro _ cache₄ _
  apply (mirroring_forgetExecutable method cache₄).bind hHistory
  intro _ cache₅ _
  exact Follows.pure hHistory _ _

------------------------------------------------------------
-- Operations
------------------------------------------------------------

/- Every operation makes mirrors only, however it ends. -/
theorem mirroring_perform
    (hAcyclic : table.Acyclic)
    (operation : Operation)
    (cache : Cache) :
    Follows (Mirroring table) (operation.perform table)
      cache := by
  have hHistory := Mirroring.isHistory table
  have hDiscard : ∀ {α : Type} {run : CacheM α},
      Follows (Mirroring table) run cache →
        Follows (Mirroring table) (discard run) cache :=
    fun hRun => hRun.map hHistory _
  have hTypes : ∀ {α : Type} {run : CacheM α},
      Follows (TypesOnly True) run cache →
        Follows (Mirroring table) (discard run) cache :=
    fun hRun =>
      hDiscard (hRun.mono fun _ _ hOnly => hOnly.mirroring)
  cases operation with
  | intern text =>
      cases text with
      | some text => exact hTypes (typesOnly_intern text cache)
      | none => exact hDiscard (Follows.throw hHistory _ _)
  | wrapType binding =>
      exact hTypes
        (typesOnly_wrapType (fun _ => hAcyclic) binding cache)
  | wrapExecutable id =>
      exact hTypes
        (follows_wrapExecutable (fun _ => hAcyclic) id cache)
  | wrapElement binding =>
      exact hDiscard
        (mirroring_wrapElement hAcyclic binding cache)
  | wrapElementOf family binding =>
      exact hDiscard
        (mirroring_wrapElementOf hAcyclic family binding cache)
  | wrapPackageDeclaration id annotations =>
      exact hDiscard (mirroring_wrapPackageDeclaration
        hAcyclic id annotations cache)
  | packageElement name =>
      exact hDiscard (mirroring_packageElement name cache)
  | nativeType text =>
      exact hTypes (follows_nativeType text cache)
  | pointerType pointee =>
      exact hTypes (follows_pointerType pointee cache)
  | syntheticArrayType component =>
      exact hTypes (follows_syntheticArrayType component cache)
  | primitiveType kind =>
      exact hTypes
        (follows_primitiveType (fun _ => hAcyclic) kind cache)
  | newTypeElement text enclosing modifiers =>
      exact hDiscard
        (mirroring_newTypeElement text enclosing modifiers cache)
  | newField text ty declaring modifiers =>
      exact hDiscard
        (mirroring_newField text ty declaring modifiers cache)
  | newMethod selector declaring returnType modifiers =>
      exact hDiscard (mirroring_newMethod
        selector declaring returnType modifiers cache)
  | newParameter method text ty =>
      exact hDiscard (mirroring_newParameter method text ty cache)
  | executableTypeOf method =>
      exact hTypes (typesOnly_executableTypeOf method cache)

------------------------------------------------------------
-- Histories
------------------------------------------------------------

private theorem mirrored_of_empty
    {cache : Cache}
    (hElements : cache.elements.items = #[]) :
    cache.Mirrored table := by
  intro handle data id hElement
  exact (Generation.get?_ne_of_empty hElements hElement).elim

/- After any history the elements of the host are mirrors. -/
theorem Reached.mirrored
    {state : BindingTable × Cache}
    (hReached : Reached state)
    (hAcyclic : state.1.Acyclic) :
    state.2.Mirrored state.1 := by
  have hKeeps := hReached.keeps_of_acyclic
    fun table cache => cache.Mirrored table
  apply hKeeps ?_ ?_ ?_ ?_ hAcyclic
  · exact fun _ => mirrored_of_empty rfl
  · exact fun _ _ operation hAcyclic hMirrored =>
      (mirroring_perform hAcyclic operation _).mirrored
        hMirrored
  · intro table cache binding hMirrored handle data id hElement
      hOrigin
    rcases hMirrored handle data id hElement hOrigin with
      ⟨host, hMirrors⟩
    exact ⟨host, hMirrors.overTable fun _ _ => get?_add⟩
  · exact fun _ _ _ => mirrored_of_empty rfl

/-
  The return type of a method is known from its binding and
  from its executable type, which agree.
-/
theorem Mirrors.returnType
    {cache : Cache}
    (hCoherent : cache.Coherent table)
    (hBase : 2 ≤ cache.types.base)
    {id : BindingId}
    {host : HostBinding}
    {data : ElementData}
    (hMirrors : cache.Mirrors table id host data)
    {selector : Option Name}
    {params : List ElementId}
    {returnType : TypeId}
    (hKind : data.kind =
      .executable selector params returnType) :
    ∃ ty types,
      data.ty = some ty ∧
        cache.typeData ty =
          .ok ⟨.executable types returnType, .host id⟩ := by
  have hClassed := hMirrors.classed
  have hBound := hMirrors.bound
  rw [hKind] at hClassed
  generalize data.ty = found at hClassed ⊢
  cases hClassed with
  | @method binding ty _ params hWrapped hReturned =>
      rcases hCoherent.executableOf? hBase hWrapped with
        ⟨binding', types, other, hGet, hData, _, hOther⟩
      cases hBound.symm.trans hGet
      cases hReturned.symm.trans hOther
      exact ⟨ty, types, rfl, hData⟩

/-
  Over a table without circular bindings, after any history:
  the element that wraps a binding says of itself what the
  table says of the binding, and if it is a method, its
  executable type returns what it returns.
-/
theorem elements_say_what_the_table_says
    {cache : Cache}
    (hReached : Reached (table, cache))
    (hAcyclic : table.Acyclic)
    {id : BindingId}
    {element : ElementId}
    (hElement : cache.hostElement? id = some element) :
    ∃ host data,
      cache.element element = .ok data ∧
        cache.Mirrors table id host data ∧
        ∀ selector params returnType,
          data.kind = .executable selector params returnType →
            ∃ ty types,
              data.ty = some ty ∧
                cache.typeData ty =
                  .ok ⟨.executable types returnType,
                    .host id⟩ := by
  rcases get?_of_hostElement? hElement with
    ⟨data, hData, hOrigin⟩
  rcases hReached.mirrored hAcyclic _ _ id hData hOrigin with
    ⟨host, hMirrors⟩
  refine ⟨host, data, element_eq_ok_iff.mpr hData, hMirrors, ?_⟩
  intro selector params returnType hKind
  exact hMirrors.returnType (hReached.coherent hAcyclic)
    hReached.sound.base hKind

/- A class in a package, with an annotated method. -/
def shapeTable : BindingTable :=
  ⟨#[
    .package "geo",
    .type { TypeBinding.declared "geo.Shape" with
      declaring := some ⟨9⟩ },
    .method {
      name := "area"
      declaring := some ⟨10⟩
      returnType := some (BindingTable.primitive .double)
      parameterTypes := [BindingTable.primitive .int]
      annotations := [⟨12⟩] },
    .annotationUse ⟨10⟩]⟩

/-
  The method was wrapped, which wrapped the class and the
  package; its annotation was refused as an element; then the
  method got a parameter.
-/
def shapeCache : Cache :=
  Cache.performAll shapeTable [
    .wrapElement (.host ⟨11⟩),
    .wrapElement (.host ⟨12⟩),
    .newParameter ⟨2⟩ "scale" ⟨2⟩] {}

/- The method belongs to the class and returns a `double`. -/
theorem elements_say_what_the_table_says_method :
    Reached (shapeTable, shapeCache) ∧
      shapeTable.Acyclic ∧
      shapeCache.hostElement? ⟨11⟩ = some ⟨2⟩ ∧
      ∃ data,
        shapeCache.element ⟨2⟩ = .ok data ∧
          data.enclosing = some ⟨1⟩ ∧
          data.annotations = [⟨⟨12⟩, ⟨2⟩⟩] ∧
          ∃ params returnType ty types,
            data.kind = .executable none params returnType ∧
              shapeCache.typeOf? (BindingTable.primitive .double)
                = some returnType ∧
              data.ty = some ty ∧
              shapeCache.typeData ty = .ok
                ⟨.executable types returnType, .host ⟨11⟩⟩ := by
  have hReached : Reached (shapeTable, shapeCache) :=
    (Reached.new shapeTable).later (Later.performAll _ (.same _ _))
  have hAcyclic : shapeTable.Acyclic :=
    BindingTable.acyclic_of_older (by decide +kernel)
  have hElement : shapeCache.hostElement? ⟨11⟩ = some ⟨2⟩ := by
    decide +kernel
  rcases elements_say_what_the_table_says hReached hAcyclic
      hElement with ⟨host, data, hData, hMirrors, hReturns⟩
  refine ⟨hReached, hAcyclic, hElement, data, hData, ?_⟩
  cases hMirrors.bound
  have hEnclosing : some data.enclosing = some (some ⟨1⟩) := by
    rw [← hMirrors.enclosing]
    decide +kernel
  have hClassed := hMirrors.classed
  generalize hKind : data.kind = kind at hClassed
  generalize data.ty = ty at hClassed hReturns
  cases hClassed with
  | method params hWrapped hReturned =>
      have hUse : shapeCache.use? shapeTable ⟨12⟩ =
          some ⟨⟨12⟩, ⟨2⟩⟩ := by
        decide +kernel
      have hUses : [(⟨12⟩ : BindingId)].mapM
          (shapeCache.use? shapeTable) = some data.annotations :=
        hMirrors.annotated (by simp [hKind])
      rw [List.mapM_cons, hUse] at hUses
      rcases hReturns _ _ _ hKind with ⟨found, types, hTy, hType⟩
      exact ⟨Option.some.inj hEnclosing,
        (Option.some.inj hUses).symm, params, _, found, types,
        rfl, hReturned, hTy, hType⟩

end Cache

end Lowering
