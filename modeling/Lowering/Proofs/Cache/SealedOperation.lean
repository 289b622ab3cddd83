import Lowering.Proofs.Cache.Request
import Lowering.Proofs.Cache.Sealed

/-
  This file proves that every operation of the cache seals it,
  if the handles that it is given are live.

  Most operations need their handles only to store them. Those
  that read an element find live handles in it, since the
  cache was closed before.

  Main results:
    * `Cache.sealed_wrapType`
    * `Cache.sealed_wrapElement`
    * `Cache.sealed_executableTypeOf`
    * `Cache.sealed_answer`
-/

namespace Lowering

namespace Cache

variable {table : BindingTable}
variable {careful : Prop}
variable {cache : Cache}

------------------------------------------------------------
-- Bindings Of Any Sort
------------------------------------------------------------

private theorem sealed_packageElement
    (name : Name)
    (cache : Cache) :
    Sealed careful (packageElement name) cache
      fun element after => after.HasElement element := by
  have hHistory := Seals.isHistory careful
  unfold packageElement
  apply Behaves.get hHistory
  split
  · next element hFound =>
    rcases get?_of_package? hFound with ⟨data, hData, _⟩
    exact .pure hHistory ⟨data, hData⟩
  · apply sealed_addElement
    · simp [ElementData.types, ElementKind.types]
    · simp [ElementData.elements, ElementKind.elements]
    · exact fun _ => rfl

/- The type of a class is stored in its element. -/
theorem sealed_wrapType
    (hAcyclic : table.Acyclic)
    {binding : Binding}
    (hClosed : cache.Closed careful)
    (hElements : careful → ∀ id ∈ binding.elements,
      cache.HasElement id) :
    Sealed careful (wrapType table binding) cache
      fun ty after => careful → after.HasType ty := by
  have hHistory := Seals.isHistory careful
  have hAlways : ∀ {operation : CacheM TypeId} {state : Cache},
      Sealed careful operation state
          (fun ty after => after.HasType ty) →
        Sealed careful operation state
          fun ty after => careful → after.HasType ty :=
    fun hRun => hRun.promise fun _ _ _ hType _ => hType
  induction binding with
  | host id =>
      unfold wrapType
      exact hAlways (sealed_wrapHostType hAcyclic id cache)
  | generated binding =>
      rcases binding with ⟨element, family, name⟩
      have hLive : careful → cache.HasElement element :=
        fun hCareful => hElements hCareful element
          List.mem_cons_self
      cases family with
      | type =>
          unfold wrapType
          apply (sealed_element hLive).bind hHistory
          rintro data _ _ _ ⟨rfl, hElement⟩
          cases hTy : data.ty with
          | none => exact sealed_refuse not_false
          | some ty =>
              apply Behaves.pure hHistory
              intro hCareful
              have hFits := hClosed.elements hCareful _ _
                (element_eq_ok_iff.mp hElement)
              apply (ElementData.forall_mem_types.mp
                hFits.types).1
              exact hTy
      | method =>
          unfold wrapType
          exact sealed_refuse not_false
      | «variable» =>
          unfold wrapType
          exact sealed_refuse not_false
  | generatedPackage name =>
      unfold wrapType
      exact sealed_refuse not_false
  | nativeType name =>
      unfold wrapType
      apply hAlways
      apply sealed_synthesize
      intro _ part hPart
      cases hPart
  | pointer pointee ih =>
      unfold wrapType
      apply (ih hElements).bind hHistory
      intro ty after _ _ hType
      exact hAlways (sealed_pointerType hType)
  | pointerToUnbound =>
      unfold wrapType
      exact hAlways (sealed_pointerType
        fun _ => hasType_nullType cache)

theorem sealed_wrapElement
    (hAcyclic : table.Acyclic)
    {binding : Binding}
    (hElements : careful → ∀ id ∈ binding.elements,
      cache.HasElement id) :
    Sealed careful (wrapElement table binding) cache
      fun element after =>
        careful → after.HasElement element := by
  have hHistory := Seals.isHistory careful
  unfold wrapElement
  cases binding with
  | host id =>
      apply (sealed_wrapHostElement hAcyclic id cache).promise
      exact fun _ _ _ hElement _ => hElement
  | generated binding =>
      have hLive : careful → cache.HasElement binding.element :=
        fun hCareful => hElements hCareful binding.element
          List.mem_cons_self
      apply (sealed_element hLive).bind hHistory
      rintro data _ _ _ ⟨rfl, _⟩
      exact .pure hHistory hLive
  | generatedPackage name =>
      apply (sealed_packageElement name cache).promise
      exact fun _ _ _ hElement _ => hElement
  | nativeType name => exact sealed_refuse not_false
  | pointer pointee => exact sealed_refuse not_false
  | pointerToUnbound => exact sealed_refuse not_false

theorem sealed_wrapElementOf
    (hAcyclic : table.Acyclic)
    {binding : Binding}
    (hElements : careful → ∀ id ∈ binding.elements,
      cache.HasElement id)
    (family : ElementFamily) :
    Sealed careful (wrapElementOf table family binding) cache
      fun element after =>
        careful → after.HasElement element := by
  have hHistory := Seals.isHistory careful
  unfold wrapElementOf
  apply (sealed_wrapElement hAcyclic hElements).bind hHistory
  intro element middle _ _ hLive
  apply (sealed_elementOf hLive).bind hHistory
  rintro data _ _ _ ⟨rfl, _⟩
  exact .pure hHistory hLive

------------------------------------------------------------
-- Package Declarations
------------------------------------------------------------

/- The annotations that a package gets have live types. -/
theorem sealed_wrapPackageDeclaration
    (hAcyclic : table.Acyclic)
    (id : BindingId)
    (annotations : List BindingId)
    (cache : Cache) :
    Sealed careful
      (wrapPackageDeclaration table id annotations) cache
      fun _ _ => True := by
  have hHistory := Seals.isHistory careful
  unfold wrapPackageDeclaration
  apply (sealed_wrapElementOf hAcyclic
    (by simp [Binding.elements]) .package).bind hHistory
  intro element middle hWrap _ hLive
  rcases accepts_of_wrapElementOf hWrap with
    ⟨package, hPackage, hAccepts⟩
  apply (sealed_element hLive).bind hHistory
  rintro data read _ _ ⟨hRead, hElement⟩
  subst hRead
  rcases element_eq_ok_iff.mp hElement ▸ hPackage with ⟨rfl⟩
  simp only []
  split
  · next hNone =>
    simp only [Bool.and_eq_true, List.isEmpty_iff] at hNone
    apply (sealed_wrapUses hAcyclic annotations read).bind
      hHistory
    intro found after hRun _ hFound
    have hUses : Follows (TypesOnly False)
        (wrapUses table annotations) read :=
      follows_wrapUses False.elim annotations read
    replace hUses := hUses.run_ok hRun
    have hSame : ∀ old,
        after.elements.get? element.raw = some old →
          old = package := by
      intro old hOld
      rw [hUses.elements, element_eq_ok_iff.mp hElement] at hOld
      exact (Option.some.inj hOld).symm
    have hModify : Sealed careful
        (modifyElement element (.annotations found)) after
        fun _ later => Grown after later := by
      apply sealed_modifyElement
      apply seals_modified
      · intro old hOld
        rw [hSame old hOld]
        exact kept_annotated hAccepts hNone.1 found
      · intro _ old _ ty hTy
        simp only [ElementEdit.annotations, ElementData.types,
          List.mem_append, List.mem_map] at hTy ⊢
        rcases hTy with hOld | ⟨use, hUse, rfl⟩
        · exact Or.inl (Or.inl hOld)
        · exact Or.inr (hFound use hUse)
      · intro _ old _ other hOther
        exact Or.inl hOther
    apply hModify.bind hHistory
    intro _ _ _ _ _
    exact .pure hHistory trivial
  · exact .pure hHistory trivial

------------------------------------------------------------
-- Generated Elements
------------------------------------------------------------

/- A class is sealed in together with its type. -/
theorem sealed_newTypeElement
    (text : String)
    {enclosing : Option ElementId}
    (hEnclosing : careful → ∀ owner, enclosing = some owner →
      cache.HasElement owner)
    (modifiers : Modifiers) :
    Sealed careful (newTypeElement text enclosing modifiers)
      cache fun _ _ => True := by
  unfold newTypeElement
  apply (sealed_intern text cache).bind (Seals.isHistory careful)
  intro name middle _ hSeals _
  have hStep := @seals_class careful middle name modifiers
    enclosing fun hCareful owner hOwner =>
      (hEnclosing hCareful owner hOwner).mono hSeals.grown
  refine ⟨hStep, fun _ _ _ => trivial, ?_⟩
  intro error after hRun
  cases hRun

theorem sealed_newField
    (text : String)
    {ty : TypeId}
    {declaring : ElementId}
    (hType : careful → cache.HasType ty)
    (hDeclaring : careful → cache.HasElement declaring)
    (modifiers : Modifiers) :
    Sealed careful (newField text ty declaring modifiers) cache
      fun _ _ => True := by
  unfold newField
  apply (sealed_intern text cache).bind (Seals.isHistory careful)
  intro name middle _ hSeals _
  refine (sealed_addElement ?_ ?_ fun _ => rfl).promise
    fun _ _ _ _ => trivial
  · intro hCareful
    simpa [ElementData.types, ElementKind.types] using
      (hType hCareful).mono hSeals.grown
  · intro hCareful
    simpa [ElementData.elements, ElementKind.elements] using
      (hDeclaring hCareful).mono hSeals.grown

theorem sealed_newMethod
    (selector : String)
    {declaring : ElementId}
    {returnType : TypeId}
    (hDeclaring : careful → cache.HasElement declaring)
    (hReturn : careful → cache.HasType returnType)
    (modifiers : Modifiers) :
    Sealed careful
      (newMethod selector declaring returnType modifiers) cache
      fun _ _ => True := by
  have hHistory := Seals.isHistory careful
  unfold newMethod
  apply (sealed_intern _ cache).bind hHistory
  intro name first _ hFirst _
  apply (sealed_intern selector first).bind hHistory
  intro full second _ hSecond _
  have hGrown := hFirst.grown.trans hSecond.grown
  refine (sealed_addElement ?_ ?_ fun _ => rfl).promise
    fun _ _ _ _ => trivial
  · intro hCareful
    simpa [ElementData.types, ElementKind.types] using
      (hReturn hCareful).mono hGrown
  · intro hCareful
    simpa [ElementData.elements, ElementKind.elements] using
      (hDeclaring hCareful).mono hGrown

/- A parameter is made before it is appended. -/
theorem sealed_newParameter
    {method : ElementId}
    {ty : TypeId}
    (hMethod : careful → cache.HasElement method)
    (text : String)
    (hType : careful → cache.HasType ty) :
    Sealed careful (newParameter method text ty) cache
      fun _ _ => True := by
  have hHistory := Seals.isHistory careful
  unfold newParameter
  apply (sealed_elementOf hMethod).bind hHistory
  rintro data first _ _ ⟨rfl, _⟩
  apply (sealed_intern text _).bind hHistory
  intro name second _ hSecond _
  have hAdd : Sealed careful
      (addElement {
        name
        kind := .variable false
        origin := .generated
        enclosing := some method
        ty := some ty }) second
      fun param after => after.HasElement param := by
    apply sealed_addElement ?_ ?_ fun _ => rfl
    · intro hCareful
      simpa [ElementData.types, ElementKind.types] using
        (hType hCareful).mono hSecond.grown
    · intro hCareful
      simpa [ElementData.elements, ElementKind.elements] using
        (hMethod hCareful).mono hSecond.grown
  apply hAdd.bind hHistory
  intro param third _ _ hParam
  have hModify : Sealed careful
      (modifyElement method (.parameter param)) third
      fun _ after => Grown third after := by
    apply sealed_modifyElement
    apply seals_modified
    · exact fun old _ => kept_addParameter param old
    · intro _ old _ other hOther
      have hSame : (old.kind.addParameter param).types =
          old.kind.types := by
        cases old.kind <;> rfl
      simp only [ElementEdit.parameter, ElementData.types,
        hSame] at hOther
      exact Or.inl hOther
    · intro _ old _ other hOther
      have hKind : other ∈ (old.kind.addParameter param).elements →
          other ∈ old.kind.elements ∨ other = param := by
        cases old.kind <;>
          simp [ElementKind.addParameter, ElementKind.elements]
      simp only [ElementEdit.parameter, ElementData.elements,
        List.mem_append] at hOther ⊢
      rcases hOther with hEnclosing | hElements
      · exact Or.inl (Or.inl hEnclosing)
      · rcases hKind hElements with hOld | rfl
        · exact Or.inl (Or.inr hOld)
        · exact Or.inr hParam
  apply hModify.bind hHistory
  intro _ fourth _ _ _
  apply (sealed_forgetExecutable method fourth).bind hHistory
  intro _ _ _ _ _
  exact .pure hHistory trivial

/- The parameters of a method have live types, if any. -/
private theorem sealed_parameterTypes
    (params : List ElementId)
    (hClosed : cache.Closed careful)
    (hParams : careful → ∀ param ∈ params,
      cache.HasElement param) :
    Sealed careful (params.mapM parameterType) cache
      fun types after =>
        careful → ∀ ty ∈ types, after.HasType ty := by
  have hHistory := Seals.isHistory careful
  have hBefore : ∀ {first second : Cache},
      Seals careful first second →
        (first.Closed careful ∧ (careful →
          ∀ param ∈ params, first.HasElement param)) →
        (second.Closed careful ∧ (careful →
          ∀ param ∈ params, second.HasElement param)) :=
    fun hSeals hFirst => ⟨hSeals.closed hFirst.1,
      fun hCareful param hMem =>
        (hFirst.2 hCareful param hMem).mono hSeals.grown⟩
  have hKept : ∀ {first second : Cache},
      Seals careful first second → ∀ {ty : TypeId},
        (careful → first.HasType ty) →
          (careful → second.HasType ty) :=
    fun hSeals _ hType hCareful =>
      (hType hCareful).mono hSeals.grown
  apply (Behaves.mapM_forall hHistory hBefore hKept params ?_
    ⟨hClosed, hParams⟩).promise
  · exact fun _ _ _ hAll hCareful ty hTy => hAll ty hTy hCareful
  · rintro param hMem state ⟨hState, hLive⟩
    unfold parameterType
    apply (sealed_element fun hCareful =>
      hLive hCareful param hMem).bind hHistory
    rintro data _ _ _ ⟨rfl, hElement⟩
    apply Behaves.pure hHistory
    intro hCareful
    cases hTy : data.ty with
    | none => exact hasType_noType _
    | some ty =>
        have hFits := hState.elements hCareful _ _
          (element_eq_ok_iff.mp hElement)
        exact (ElementData.forall_mem_types.mp
          hFits.types).1 ty hTy

/- The type of a method is made of what the method stores. -/
theorem sealed_executableTypeOf
    {method : ElementId}
    (hClosed : cache.Closed careful)
    (hMethod : careful → cache.HasElement method) :
    Sealed careful (executableTypeOf method) cache
      fun _ _ => True := by
  have hHistory := Seals.isHistory careful
  unfold executableTypeOf
  apply (sealed_elementOf hMethod).bind hHistory
  rintro data _ _ _ ⟨rfl, hElement⟩
  rcases elementOf_eq_ok hElement with ⟨hLive, _⟩
  split
  · exact .pure hHistory trivial
  · next selector params returnType hKind _ =>
    apply Behaves.get hHistory
    split
    · exact .pure hHistory trivial
    · have hFits := fun hCareful =>
        hClosed.elements hCareful _ _ hLive
      apply (sealed_parameterTypes params hClosed ?_).bind
        hHistory
      · intro types after _ hSeals hTypes
        refine (sealed_addType ?_ ?_).bind hHistory ?_
        · intro hCareful part hPart
          rcases List.mem_append.mp hPart with hParam | hLast
          · exact hTypes hCareful part hParam
          · rw [List.mem_singleton.mp hLast]
            apply HasType.mono hSeals.grown
            apply (ElementData.forall_mem_types.mp
              (hFits hCareful).types).2.1
            rw [hKind]
            exact List.mem_cons_self
        · intro hCareful element hOrigin
          cases hOrigin
          exact (hMethod hCareful).mono hSeals.grown
        · intro ty last _ _ _
          apply (sealed_rememberExecutable method ty last).bind
            hHistory
          intro _ _ _ _ _
          exact .pure hHistory trivial
      · intro hCareful param hParam
        apply (ElementData.forall_mem_elements.mp
          (hFits hCareful).elements).2
        rw [hKind]
        exact hParam
  · apply Behaves.get hHistory
    apply Behaves.throw hHistory
    intro hCareful
    unfold wrongElementKind nameText
    cases (_ : Cache).names.lookup data.name <;> exact not_false

------------------------------------------------------------
-- Operations
------------------------------------------------------------

/- Every operation that is given live handles seals the cache. -/
theorem sealed_answer
    (hAcyclic : table.Acyclic)
    (hClosed : cache.Closed careful)
    (operation : Operation)
    (hTypes : careful → ∀ ty ∈ operation.types,
      cache.HasType ty)
    (hElements : careful → ∀ id ∈ operation.elements,
      cache.HasElement id) :
    Sealed careful (operation.answer table) cache
      fun _ _ => True := by
  have hAnswer : ∀ {α : Type} {run : CacheM α}
      {build : α → Answer} {Promise : α → Cache → Prop},
      Sealed careful run cache Promise →
        Sealed careful (build <$> run) cache fun _ _ => True :=
    fun hRun => .map (Seals.isHistory careful)
      (hRun.promise fun _ _ _ _ => trivial)
  have hType : ∀ {ty : TypeId}, ty ∈ operation.types →
      careful → cache.HasType ty :=
    fun hMem hCareful => hTypes hCareful _ hMem
  have hElement : ∀ {id : ElementId}, id ∈ operation.elements →
      careful → cache.HasElement id :=
    fun hMem hCareful => hElements hCareful _ hMem
  cases operation with
  | intern text =>
      apply Behaves.map (Seals.isHistory careful)
      cases text with
      | none => exact sealed_refuse not_false
      | some text => exact sealed_intern text cache
  | wrapType binding =>
      exact hAnswer (sealed_wrapType hAcyclic hClosed hElements)
  | wrapExecutable id =>
      exact hAnswer (sealed_wrapExecutable hAcyclic id cache)
  | wrapElement binding =>
      exact hAnswer (sealed_wrapElement hAcyclic hElements)
  | wrapElementOf family binding =>
      exact hAnswer
        (sealed_wrapElementOf hAcyclic hElements family)
  | wrapPackageDeclaration id annotations =>
      exact hAnswer (sealed_wrapPackageDeclaration
        hAcyclic id annotations cache)
  | packageElement name =>
      exact hAnswer (sealed_packageElement name cache)
  | nativeType text => exact hAnswer (sealed_nativeType text cache)
  | pointerType pointee =>
      exact hAnswer (sealed_pointerType
        (hType List.mem_cons_self))
  | syntheticArrayType component =>
      exact hAnswer (sealed_syntheticArrayType
        (hType List.mem_cons_self))
  | primitiveType kind =>
      exact hAnswer (sealed_primitiveType hAcyclic kind cache)
  | newTypeElement text enclosing modifiers =>
      refine hAnswer (sealed_newTypeElement text ?_ modifiers)
      intro hCareful owner hOwner
      exact hElements hCareful owner (Option.mem_toList.mpr hOwner)
  | newField text ty declaring modifiers =>
      exact hAnswer (sealed_newField text
        (hType List.mem_cons_self)
        (hElement List.mem_cons_self) modifiers)
  | newMethod selector declaring returnType modifiers =>
      exact hAnswer (sealed_newMethod selector
        (hElement List.mem_cons_self)
        (hType List.mem_cons_self) modifiers)
  | newParameter method text ty =>
      exact hAnswer (sealed_newParameter
        (hElement List.mem_cons_self) text
        (hType List.mem_cons_self))
  | executableTypeOf method =>
      exact hAnswer (sealed_executableTypeOf hClosed
        (hElement List.mem_cons_self))

/- What is sealed in by an operation that is performed. -/
theorem Closed.perform
    (hAcyclic : table.Acyclic)
    (hClosed : cache.Closed careful)
    (operation : Operation)
    (hTypes : careful → ∀ ty ∈ operation.types,
      cache.HasType ty)
    (hElements : careful → ∀ id ∈ operation.elements,
      cache.HasElement id) :
    (finalState (operation.perform table cache)).Closed
      careful := by
  have hSeals : Seals careful cache
      (finalState (operation.answer table cache)) :=
    (sealed_answer hAcyclic hClosed operation hTypes
      hElements).follows
  rw [finalState_answer] at hSeals
  exact hSeals.closed hClosed

/-
  Whatever the callers do, a generated class has the declared
  type that was made with it.
-/
theorem Reached.closed
    {state : BindingTable × Cache}
    (hReached : Reached state)
    (hAcyclic : state.1.Acyclic) :
    state.2.Closed False := by
  have hKeeps := hReached.keeps_of_acyclic
    fun _ cache => cache.Closed False
  apply hKeeps ?_ ?_ ?_ ?_ hAcyclic
  · exact fun _ => Closed.new
  · exact fun _ _ operation hAcyclic hClosed =>
      hClosed.perform hAcyclic operation False.elim False.elim
  · exact fun _ _ _ hClosed => hClosed
  · exact fun _ _ hClosed => hClosed.reset

end Cache

end Lowering
