import Lowering.Proofs.Cache.Request
import Lowering.Proofs.Cache.Wrappable

/-
  This file states once what an operation does to the cache,
  whatever the bindings of the table are, and whether it fails
  or not.

  Nearly every operation only makes wrappers, and it makes
  them plain: a method without parameters, a package without
  annotations, a generated method without a type. The other
  three do one thing more: a method gets a parameter, a
  package gets its annotations, a generated method gets a
  type for the parameters that it has.

  Key definitions include:
    * `ElementData.Plain`
    * `Cache.Adds`
    * `Cache.Makes`
    * `Cache.Effect`

  Main results:
    * `Cache.makes_wrapHostType`
    * `Cache.makes_wrapElementOf`
    * `Cache.effect_perform`
-/

namespace Lowering

/-
  An element as it is made: a method gets its parameters, and
  a package its annotations, only later. A generated method
  has no type of its own. The element of a binding is made of
  one in the table, and if that is a package, it is one.
-/
structure ElementData.Plain
    (table : BindingTable)
    (data : ElementData) : Prop where
  methods : ∀ selector params returnType,
    data.kind = .executable selector params returnType →
      params = [] ∧ (data.origin = .generated → data.ty = none)
  packages : data.kind = .package → data.annotations = []
  hosts : ∀ id, data.origin = .host id →
    ∃ host, table.get? id = some host ∧
      ∀ name, host = .package name → data.kind = .package

namespace Cache

------------------------------------------------------------
-- Added Elements
------------------------------------------------------------

/- The cache changed, but no element that was there did. -/
structure Adds (before after : Cache) : Prop where
  changes : Changes False before after
  elements : Generation.Grown Eq before.elements after.elements

theorem Adds.isHistory : IsHistory Adds where
  refl := fun _ => ⟨Relation.ReflTransGen.refl,
    Generation.Grown.refl (fun _ => rfl) _⟩
  trans := fun hFirst hSecond =>
    ⟨hFirst.changes.trans hSecond.changes,
      Generation.Grown.trans (fun _ _ _ => Eq.trans)
        hFirst.elements hSecond.elements⟩

theorem TypesOnly.adds
    {before after : Cache}
    (hTypes : TypesOnly False before after) :
    Adds before after := by
  refine ⟨hTypes.changes, ?_⟩
  rw [hTypes.elements]
  exact Generation.Grown.refl (fun _ => rfl) _

theorem Adds.get?
    {before after : Cache}
    (hAdds : Adds before after)
    {handle : Nat}
    {data : ElementData}
    (hData : before.elements.get? handle = some data) :
    after.elements.get? handle = some data := by
  rcases hAdds.elements.kept handle data hData with
    ⟨data', hData', hSame⟩
  rw [hSame]
  exact hData'

------------------------------------------------------------
-- Plain Wrappers
------------------------------------------------------------

/-
  Wrappers were made, the elements plain, no type of a
  generated method, and no type of a binding that prescribes
  none.
-/
structure Makes
    (table : BindingTable)
    (before after : Cache) : Prop
    extends Adds before after where
  plain : ∀ handle data,
    after.elements.get? handle = some data →
      before.elements.get? handle = some data ∨
        data.Plain table
  types : ∀ handle data,
    after.types.get? handle = some data →
      before.types.get? handle = some data ∨
        ∀ method, data.origin = .generated method →
          data.kind.isExecutable = false
  wraps : KeepsWraps table before after

theorem Makes.isHistory (table : BindingTable) :
    IsHistory (Makes table) where
  refl cache := {
    Adds.isHistory.refl cache with
    plain := fun _ _ hElement => Or.inl hElement
    types := fun _ _ hType => Or.inl hType
    wraps := (KeepsWraps.isHistory table).refl cache }
  trans hFirst hSecond := {
    Adds.isHistory.trans hFirst.toAdds hSecond.toAdds with
    plain := by
      intro handle data hElement
      rcases hSecond.plain handle data hElement with
        hOld | hNew
      · exact hFirst.plain handle data hOld
      · exact Or.inr hNew
    types := by
      intro handle data hType
      rcases hSecond.types handle data hType with hOld | hNew
      · exact hFirst.types handle data hOld
      · exact Or.inr hNew
    wraps := (KeepsWraps.isHistory table).trans hFirst.wraps
      hSecond.wraps }

variable {table : BindingTable}

/- Wrappers of type bindings are none of generated methods. -/
private theorem TypesMade.makes
    {ids : BindingId → Prop}
    {before after : Cache}
    (hMade : TypesMade False ids before after)
    (hWraps : KeepsWraps table before after) :
    Makes table before after where
  toAdds := hMade.typesOnly.adds
  plain := by
    intro handle data hElement
    rw [hMade.elements] at hElement
    exact Or.inl hElement
  types := by
    intro handle data hType
    rcases hMade.made handle data hType with
      hOld | ⟨id, _, hOrigin, _⟩
    · exact Or.inl hOld
    · right
      intro method hMethod
      cases hOrigin.symm.trans hMethod
  wraps := hWraps

theorem adds_intern
    (text : String)
    (cache : Cache) :
    Follows Adds (intern text) cache :=
  ((@typesOnly_intern False text cache).run_ok rfl).adds

theorem makes_intern
    (text : String)
    (cache : Cache) :
    Follows (Makes table) (intern text) cache where
  toAdds := adds_intern text cache
  plain := fun _ _ hElement => Or.inl hElement
  types := fun _ _ hType => Or.inl hType
  wraps := id

/- A type that is pushed is the one new type. -/
private theorem makes_addType
    {kind : TypeKind}
    {origin : TypeOrigin}
    (hChange : ∀ cache, Change False cache
      (cache.pushType ⟨kind, origin⟩))
    (hMethod : ∀ method, origin = .generated method →
      kind.isExecutable = false)
    (hHost : ∀ id, origin = .host id →
      kind.isExecutable = true)
    (cache : Cache) :
    Follows (Makes table) (addType kind origin) cache where
  changes := (hChange cache).changes
  elements := Generation.Grown.refl (fun _ => rfl) _
  plain := fun _ _ hElement => Or.inl hElement
  types := by
    intro handle data hType
    change (cache.types.push _).get? handle = _ at hType
    rw [Generation.get?_push] at hType
    split at hType
    · cases hType
      exact Or.inr hMethod
    · exact Or.inl hType
  wraps := by
    apply keepsWraps_addType
    intro id hOrigin hKind
    rw [hHost id hOrigin] at hKind
    cases hKind

/- An element that is pushed is the one new element. -/
theorem makes_addElement
    {data : ElementData}
    (hPlain : data.Plain table)
    (cache : Cache) :
    Follows (Makes table) (addElement data) cache where
  changes := by
    have hChange : Change False cache
        (cache.pushElement data) :=
      .element cache data False.elim
    exact hChange.changes
  elements := Generation.Grown.push (fun _ => rfl) _ _
  plain := by
    intro handle found hElement
    change (cache.elements.push _).get? handle = _ at hElement
    rw [Generation.get?_push] at hElement
    split at hElement
    · cases hElement
      exact Or.inr hPlain
    · exact Or.inl hElement
  types := fun _ _ hType => Or.inl hType
  wraps := id

------------------------------------------------------------
-- Types
------------------------------------------------------------

theorem makes_synthesize
    (kind : TypeKind)
    (cache : Cache) :
    Follows (Makes table) (synthesize kind) cache := by
  have hHistory := Makes.isHistory table
  unfold synthesize
  apply Follows.get hHistory
  cases cache.shapes.get? kind with
  | some ty => exact Follows.pure hHistory _ _
  | none =>
      apply makes_addType
      · intro state
        apply Change.type _ _ False.elim
        · intro element hOrigin
          cases hOrigin
        · intro primitive hOrigin
          cases hOrigin
      · intro method hOrigin
        cases hOrigin
      · intro id hOrigin
        cases hOrigin

section Types

variable (table : BindingTable)

theorem makes_wrapHostType
    (id : BindingId)
    (cache : Cache) :
    Follows (Makes table) (wrapHostType table id) cache :=
  TypesMade.makes
    (follows_wrapHostType False.elim id cache)
    (keepsWraps_wrapHostType table id cache)

theorem makes_wrapExecutable
    (id : BindingId)
    (cache : Cache) :
    Follows (Makes table) (wrapExecutable table id) cache := by
  have hHistory := Makes.isHistory table
  unfold wrapExecutable
  apply Follows.get hHistory
  cases hFound : cache.executableOf? id with
  | some ty => exact Follows.pure hHistory _ _
  | none =>
      apply (Follows.consult hHistory _ cache).bind hHistory
      intro binding cache₁ hConsult
      rcases run_consult_eq_ok hConsult with ⟨hBinding, rfl⟩
      have hGet := methodBinding_eq_ok hBinding
      apply (Follows.mapM hHistory _ (fun param _ =>
        makes_wrapHostType table param) cache₁).bind hHistory
      intro params cache₂ _
      have hReturn := wrapReturnType_of_type
        (Follows.composes hHistory) (makes_wrapHostType table)
        binding cache₂
      apply hReturn.bind hHistory
      intro returnType cache₃ _
      apply makes_addType
      · intro state
        apply Change.type _ _ False.elim
        · intro element hOrigin
          cases hOrigin
        · intro primitive hOrigin
          cases hOrigin
          rw [table.get?_primitive primitive] at hGet
          cases hGet
      · intro method hOrigin
        cases hOrigin
      · exact fun _ _ => rfl

/- What an element is described of makes plain wrappers. -/
theorem wrapping_makes :
    Wrapping (fun _ => Follows (Makes table)) table where
  composes := Follows.composes (Makes.isHistory table)
  intern := makes_intern
  type := makes_wrapHostType table
  executable := makes_wrapExecutable table

theorem makes_wrapUses
    (annotations : List BindingId)
    (cache : Cache) :
    Follows (Makes table) (wrapUses table annotations) cache :=
  wrapUses_of_type (Follows.composes (Makes.isHistory table))
    (makes_wrapHostType table) annotations cache

end Types

------------------------------------------------------------
-- Host Elements
------------------------------------------------------------

/- An element is described as it is made. -/
private theorem Described.plain
    {table : BindingTable}
    {id : BindingId}
    {data : ElementData}
    (hData : Described table id data) :
    data.Plain table where
  methods := by
    intro selector params returnType hKind
    refine ⟨hData.methods _ _ _ hKind, ?_⟩
    intro hGenerated
    cases hData.origin.symm.trans hGenerated
  packages := hData.packages
  hosts := by
    intro other hOther
    cases hData.origin.symm.trans hOther
    exact hData.bound

theorem makes_packageElement
    (name : Name)
    (cache : Cache) :
    Follows (Makes table) (packageElement name) cache := by
  have hHistory := Makes.isHistory table
  unfold packageElement
  apply Follows.get hHistory
  split
  · exact Follows.pure hHistory _ _
  · apply makes_addElement
    exact ⟨by simp, fun _ => rfl, by simp⟩

section Elements

variable (table : BindingTable)

theorem makes_wrapHostElementWithin
    (depth : Nat)
    (id : BindingId)
    (cache : Cache) :
    Follows (Makes table) (wrapHostElementWithin table depth id)
      cache := by
  have hHistory := Makes.isHistory table
  induction depth generalizing id cache with
  | zero => exact Follows.throw hHistory _ _
  | succ depth ih =>
      unfold wrapHostElementWithin
      apply Follows.get hHistory
      cases cache.hostElement? id with
      | some element => exact Follows.pure hHistory _ _
      | none =>
          have hData := (wrapping_makes table).describeHost id
            (fun owner _ => ih owner) cache
          apply hData.bind hHistory
          intro data state hRun
          exact makes_addElement
            (described_of_describeHost hRun).plain state

theorem makes_wrapType
    (binding : Binding)
    (cache : Cache) :
    Follows (Makes table) (wrapType table binding) cache :=
  Follows.wrapType (Makes.isHistory table)
    (makes_wrapHostType table) (fun _ => makes_synthesize _)
    (fun _ => makes_synthesize _) binding cache

theorem makes_wrapElement
    (binding : Binding)
    (cache : Cache) :
    Follows (Makes table) (wrapElement table binding) cache :=
  Follows.wrapElement (Makes.isHistory table)
    (makes_wrapHostElementWithin table _) makes_packageElement
    binding cache

theorem makes_wrapElementOf
    (family : ElementFamily)
    (binding : Binding)
    (cache : Cache) :
    Follows (Makes table) (wrapElementOf table family binding)
      cache :=
  Follows.wrapElementOf (Makes.isHistory table)
    (makes_wrapElement table binding cache) family

end Elements

------------------------------------------------------------
-- Generated Elements
------------------------------------------------------------

/- A class is made with its type, which is none of a method. -/
theorem makes_newTypeElement
    (text : String)
    (enclosing : Option ElementId)
    (modifiers : Modifiers)
    (cache : Cache) :
    Follows (Makes table) (newTypeElement text enclosing modifiers)
      cache where
  changes :=
    follows_newTypeElement text enclosing modifiers cache
  elements := Generation.Grown.push (fun _ => rfl) _ _
  plain := by
    intro handle data hElement
    change (cache.elements.push _).get? handle = _ at hElement
    rw [Generation.get?_push] at hElement
    split at hElement
    · cases hElement
      exact Or.inr ⟨by simp, by simp, by simp⟩
    · exact Or.inl hElement
  types := by
    intro handle data hType
    change (cache.types.push _).get? handle = _ at hType
    rw [Generation.get?_push] at hType
    split at hType
    · cases hType
      exact Or.inr fun _ _ => rfl
    · exact Or.inl hType
  wraps := by
    intro hCache handle data id hType hOrigin
    change (cache.types.push _).get? handle = _ at hType
    rw [Generation.get?_push] at hType
    split at hType
    · cases hType
      cases hOrigin
    · exact hCache handle data id hType hOrigin

theorem makes_newField
    (text : String)
    (ty : TypeId)
    (declaring : ElementId)
    (modifiers : Modifiers)
    (cache : Cache) :
    Follows (Makes table) (newField text ty declaring modifiers)
      cache := by
  unfold newField
  apply (makes_intern text cache).bind (Makes.isHistory table)
  intro name state _
  apply makes_addElement
  exact ⟨by simp, by simp, by simp⟩

theorem makes_newMethod
    (selector : String)
    (declaring : ElementId)
    (returnType : TypeId)
    (modifiers : Modifiers)
    (cache : Cache) :
    Follows (Makes table)
      (newMethod selector declaring returnType modifiers)
      cache := by
  have hHistory := Makes.isHistory table
  unfold newMethod
  apply (makes_intern _ cache).bind hHistory
  intro name cache₁ _
  apply (makes_intern selector cache₁).bind hHistory
  intro full cache₂ _
  apply makes_addElement
  exact ⟨by simp, by simp, by simp⟩

------------------------------------------------------------
-- Effects
------------------------------------------------------------

/- A cache in which an element gets annotations. -/
def withAnnotations
    (cache : Cache)
    (element : ElementId)
    (annotations : List AnnotationUse) : Cache :=
  cache.editElement element (.annotations annotations)

/-
  What an operation does to the cache: it makes plain wrappers
  and no more; or it appends a parameter to a method; or it
  gives its annotations to a package that has none; or it
  makes a type for the parameters of a generated method.
-/
inductive Effect (table : BindingTable) :
    Operation → Cache → Cache → Prop
  | makes
      {operation : Operation}
      {before after : Cache}
      (makes : Makes table before after) :
      Effect table operation before after
  | parameter
      {method : ElementId}
      {text : String}
      {ty : TypeId}
      {before named : Cache}
      {name : Name}
      {data : ElementData}
      (read : before.elementOf .executable method = .ok data)
      (spelled : intern text before = .ok name named) :
      Effect table (.newParameter method text ty) before
        (named.withParameter method name ty)
  | annotations
      {id : BindingId}
      {annotations : List BindingId}
      {before middle after : Cache}
      {element : ElementId}
      {data : ElementData}
      {found : List AnnotationUse}
      (wrapped :
        wrapElementOf table .package (.host id) before =
          .ok element middle)
      (read : middle.elements.get? element.raw = some data)
      (package : ElementFamily.package.accepts data.kind)
      (bare : data.annotations = [])
      (given : annotations ≠ [])
      (resolved :
        wrapUses table annotations middle = .ok found after) :
      Effect table (.wrapPackageDeclaration id annotations)
        before (after.withAnnotations element found)
  | executable
      {method : ElementId}
      {cache : Cache}
      {data : ElementData}
      {selector : Option Name}
      {params : List ElementId}
      {types : List TypeId}
      {returnType : TypeId}
      (live : cache.elements.get? method.raw = some data)
      (kind : data.kind = .executable selector params returnType)
      (untyped : data.ty = none)
      (missing : cache.executables.lookup method = none)
      (read : params.mapM parameterType cache =
        .ok types cache) :
      Effect table (.executableTypeOf method) cache
        (cache.withExecutable method types returnType)

/- The elements that are there when one has got annotations. -/
theorem get?_withAnnotations
    (cache : Cache)
    (element : ElementId)
    (annotations : List AnnotationUse)
    (handle : Nat) :
    (cache.withAnnotations element annotations).elements.get?
        handle =
      if handle = element.raw then
        (cache.elements.get? handle).map
          ({ · with annotations })
      else
        cache.elements.get? handle :=
  Generation.get?_modify _ _ _ _

/- A package that has none may get annotations. -/
theorem grown_withAnnotations
    {cache : Cache}
    {element : ElementId}
    {data : ElementData}
    (hData : cache.elements.get? element.raw = some data)
    (hPackage : ElementFamily.package.accepts data.kind)
    (hBare : data.annotations = [])
    (annotations : List AnnotationUse) :
    Grown cache (cache.withAnnotations element annotations) := by
  apply grown_editElement
  intro old hOld
  cases hData.symm.trans hOld
  exact kept_annotated hPackage hBare annotations

/- What is made before a package gets its annotations. -/
theorem makes_resolved
    {before middle after : Cache}
    {id : BindingId}
    {annotations : List BindingId}
    {element : ElementId}
    {data : ElementData}
    {found : List AnnotationUse}
    (hWrapped :
      wrapElementOf table .package (.host id) before =
        .ok element middle)
    (hData : middle.elements.get? element.raw = some data)
    (hResolved :
      wrapUses table annotations middle = .ok found after) :
    Makes table before after ∧
      after.elements.get? element.raw = some data := by
  have hFirst := (makes_wrapElementOf table _ _
    before).run_ok hWrapped
  have hSecond := (makes_wrapUses table _ middle).run_ok
    hResolved
  exact ⟨(Makes.isHistory table).trans hFirst hSecond,
    hSecond.get? hData⟩

section Effects

variable (table : BindingTable)

/- What is made before a method gets its parameter. -/
theorem makes_named
    {before named : Cache}
    {method : ElementId}
    {data : ElementData}
    {text : String}
    {name : Name}
    (hRead : before.elementOf .executable method = .ok data)
    (hSpelled : intern text before = .ok name named) :
    Makes table before named ∧
      named.elements.get? method.raw = some data := by
  have hMakes : Makes table before named :=
    (makes_intern text before).run_ok hSpelled
  exact ⟨hMakes, hMakes.get? (elementOf_eq_ok hRead).1⟩

/- A parameter is appended to a method that is there. -/
theorem run_newParameter_ok
    {cache : Cache}
    {method : ElementId}
    {data : ElementData}
    (hMethod : cache.elementOf .executable method = .ok data)
    (text : String)
    (ty : TypeId) :
    ∃ name named,
      intern text cache = .ok name named ∧
        newParameter method text ty cache =
          .ok ⟨named.elements.next⟩
            (named.withParameter method name ty) := by
  unfold newParameter
  rw [run_bind_ok (run_inspectCache_ok hMethod)]
  exact ⟨_, _, rfl, rfl⟩

private theorem effect_newParameter
    (method : ElementId)
    (text : String)
    (ty : TypeId)
    (cache : Cache) :
    Follows (Effect table (.newParameter method text ty))
      (newParameter method text ty) cache := by
  cases hMethod : cache.elementOf .executable method with
  | ok data =>
      rcases run_newParameter_ok hMethod text ty with
        ⟨name, named, hName, hRun⟩
      exact Follows.of_ok hRun (.parameter hMethod hName)
  | error error =>
      have hRun : newParameter method text ty cache =
          .error error cache := by
        unfold newParameter
        rw [run_bind_error (run_inspectCache_error hMethod)]
      exact Follows.of_error hRun
        (.makes ((Makes.isHistory table).refl cache))

/-
  A declaration that is answered leaves its package alone, if
  that has annotations or the declaration has none, or gives
  it those of the declaration.
-/
theorem run_wrapPackageDeclaration_eq_ok
    {id : BindingId}
    {annotations : List BindingId}
    {cache after : Cache}
    {element : ElementId}
    (hRun : wrapPackageDeclaration table id annotations cache =
      .ok element after) :
    ∃ middle data,
      wrapElementOf table .package (.host id) cache =
          .ok element middle ∧
        middle.elements.get? element.raw = some data ∧
        ElementFamily.package.accepts data.kind ∧
        (((data.annotations ≠ [] ∨ annotations = []) ∧
            after = middle) ∨
          (data.annotations = [] ∧ annotations ≠ [] ∧
            ∃ found last,
              wrapUses table annotations middle =
                  .ok found last ∧
                after = last.withAnnotations element found)) := by
  unfold wrapPackageDeclaration at hRun
  rcases run_bind_eq_ok hRun with
    ⟨wrapped, middle, hElement, hRest⟩
  rcases run_bind_eq_ok hRest with ⟨data, _, hInspect, hLast⟩
  rcases run_inspectCache_eq_ok hInspect with ⟨hRead, rfl⟩
  replace hRead := element_eq_ok_iff.mp hRead
  rcases accepts_of_wrapElementOf hElement with
    ⟨found, hFound, hPackage⟩
  cases hRead.symm.trans hFound
  split at hLast
  · next hGiven =>
    simp only [Bool.and_eq_true, List.isEmpty_iff,
      Bool.not_eq_true', List.isEmpty_eq_false_iff] at hGiven
    rcases run_bind_eq_ok hLast with ⟨found, last, hUses, hSet⟩
    cases hSet
    exact ⟨_, data, hElement, hRead, hPackage,
      Or.inr ⟨hGiven.1, hGiven.2, found, last, hUses, rfl⟩⟩
  · next hGiven =>
    cases hLast
    refine ⟨_, data, hElement, hRead, hPackage,
      Or.inl ⟨?_, rfl⟩⟩
    by_cases hBare : data.annotations = []
    · right
      simpa [hBare] using hGiven
    · exact Or.inl hBare

/-
  A package with annotations, or a declaration without any:
  the package is answered as it is.
-/
theorem run_wrapPackageDeclaration_settled
    {id : BindingId}
    {annotations : List BindingId}
    {cache : Cache}
    {element : ElementId}
    {data : ElementData}
    (hElement : wrapElementOf table .package (.host id) cache =
      .ok element cache)
    (hData : cache.elements.get? element.raw = some data)
    (hSettled : data.annotations ≠ [] ∨ annotations = []) :
    wrapPackageDeclaration table id annotations cache =
      .ok element cache := by
  unfold wrapPackageDeclaration
  rw [run_bind_ok hElement, run_bind_ok
    (run_inspectCache_ok (element_eq_ok_iff.mpr hData))]
  rw [if_neg (by rcases hSettled with hSome | hNone <;> simp [*])]
  rfl

private theorem effect_wrapPackageDeclaration
    (id : BindingId)
    (annotations : List BindingId)
    (cache : Cache) :
    Follows
      (Effect table (.wrapPackageDeclaration id annotations))
      (wrapPackageDeclaration table id annotations) cache := by
  have hWrap := makes_wrapElementOf table .package (.host id)
    cache
  cases hElement :
      wrapElementOf table .package (.host id) cache with
  | error error middle =>
      have hRun : wrapPackageDeclaration table id annotations
          cache = .error error middle := by
        unfold wrapPackageDeclaration
        rw [run_bind_error hElement]
      exact Follows.of_error hRun
        (.makes (hWrap.run_error hElement))
  | ok element middle =>
      have hMiddle := hWrap.run_ok hElement
      rcases accepts_of_wrapElementOf hElement with
        ⟨data, hData, hPackage⟩
      have hRead := element_eq_ok_iff.mpr hData
      unfold Follows wrapPackageDeclaration
      rw [run_bind_ok hElement,
        run_bind_ok (run_inspectCache_ok hRead)]
      split
      · next hGiven =>
        simp only [Bool.and_eq_true, List.isEmpty_iff,
          Bool.not_eq_true', List.isEmpty_eq_false_iff]
          at hGiven
        have hUses := makes_wrapUses table annotations middle
        cases hFound : wrapUses table annotations middle with
        | error error after =>
            rw [run_bind_error hFound]
            exact .makes ((Makes.isHistory table).trans hMiddle
              (hUses.run_error hFound))
        | ok found after =>
            rw [run_bind_ok hFound]
            exact .annotations hElement hData hPackage
              hGiven.1 hGiven.2 hFound
      · exact .makes hMiddle

/- Reading the types of parameters changes nothing. -/
theorem finalState_parameterTypes
    (params : List ElementId)
    (cache : Cache) :
    finalState (params.mapM parameterType cache) = cache := by
  have hHistory : IsHistory
      fun before after : Cache => after = before :=
    ⟨fun _ => rfl, fun hFirst hSecond => hSecond.trans hFirst⟩
  apply Follows.mapM hHistory
  intro param _ state
  unfold parameterType
  apply (Follows.inspect hHistory _ state).bind hHistory
  intro _ _ _
  exact Follows.pure hHistory _ _

private theorem effect_executableTypeOf
    (method : ElementId)
    (cache : Cache) :
    Follows (Effect table (.executableTypeOf method))
      (executableTypeOf method) cache := by
  have hSame : Effect table (.executableTypeOf method) cache
      cache := .makes ((Makes.isHistory table).refl cache)
  unfold Follows executableTypeOf
  cases hMethod : cache.elementOf .executable method with
  | error error =>
      rw [run_bind_error (run_inspectCache_error hMethod)]
      exact hSame
  | ok data =>
      rw [run_bind_ok (run_inspectCache_ok hMethod)]
      have hLive := (elementOf_eq_ok hMethod).1
      cases hTy : data.ty with
      | some ty => exact hSame
      | none =>
          cases hKind : data.kind with
          | executable selector params returnType =>
              simp only []
              rw [run_bind_ok (run_get cache)]
              cases hFound : cache.executables.lookup method with
              | some ty => exact hSame
              | none =>
                  have hState :=
                    finalState_parameterTypes params cache
                  simp only []
                  cases hRead :
                      params.mapM parameterType cache with
                  | error error after =>
                      rw [run_bind_error hRead]
                      rw [hRead] at hState
                      exact hState ▸ hSame
                  | ok types after =>
                      rw [run_bind_ok hRead]
                      rw [hRead] at hState
                      cases hState
                      exact .executable hLive hKind hTy hFound
                        hRead
          | _ => exact hSame

/- An operation has one of the effects, however it ends. -/
theorem effect_perform
    (operation : Operation)
    (cache : Cache) :
    Effect table operation cache
      (finalState (operation.perform table cache)) := by
  have hDiscard : ∀ {α : Type} {run : CacheM α},
      Follows (Effect table operation) run cache →
        Effect table operation cache
          (finalState ((discard run) cache)) := by
    intro α run hRun
    unfold Follows at hRun
    rw [← finalState_map] at hRun
    exact hRun
  have hMakes : ∀ {α : Type} {run : CacheM α},
      Follows (Makes table) run cache →
        Effect table operation cache
          (finalState ((discard run) cache)) :=
    fun hRun => hDiscard (hRun.mono fun _ _ hMade => .makes hMade)
  have hHistory := Makes.isHistory table
  cases operation with
  | intern text =>
      apply hMakes
      cases text with
      | some text => exact makes_intern text cache
      | none => exact Follows.throw hHistory _ _
  | wrapType binding =>
      exact hMakes (makes_wrapType table binding cache)
  | wrapExecutable id =>
      exact hMakes (makes_wrapExecutable table id cache)
  | wrapElement binding =>
      exact hMakes (makes_wrapElement table binding cache)
  | wrapElementOf family binding =>
      exact hMakes
        (makes_wrapElementOf table family binding cache)
  | wrapPackageDeclaration id annotations =>
      exact hDiscard (effect_wrapPackageDeclaration
        table id annotations cache)
  | packageElement name =>
      exact hMakes (makes_packageElement name cache)
  | nativeType text =>
      apply hMakes
      apply (makes_intern text cache).bind hHistory
      intro name state _
      exact makes_synthesize _ state
  | pointerType pointee =>
      exact hMakes (makes_synthesize _ cache)
  | syntheticArrayType component =>
      exact hMakes (makes_synthesize _ cache)
  | primitiveType kind =>
      exact hMakes (makes_wrapHostType table _ cache).fatal
  | newTypeElement text enclosing modifiers =>
      exact hMakes
        (makes_newTypeElement text enclosing modifiers cache)
  | newField text ty declaring modifiers =>
      exact hMakes
        (makes_newField text ty declaring modifiers cache)
  | newMethod selector declaring returnType modifiers =>
      exact hMakes (makes_newMethod
        selector declaring returnType modifiers cache)
  | newParameter method text ty =>
      exact hDiscard
        (effect_newParameter table method text ty cache)
  | executableTypeOf method =>
      exact hDiscard (effect_executableTypeOf table method cache)

end Effects

end Cache

end Lowering
