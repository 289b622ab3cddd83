import Lowering.Proofs.Cache.Wrapping

/-
  This file proves that wrapping bindings as elements, and
  wrapping bindings of any sort, only changes the cache in the
  ways that are allowed.

  An element is made after that of the binding which declares
  it. Declarers that are not circular do not lead back, so the
  element is still not there when it is made.

  Key definitions include:
    * `Cache.ElementsMade`

  Main results:
    * `Cache.follows_wrapHostElement`
    * `Cache.follows_wrapType`
    * `Cache.follows_wrapElement`
    * `Cache.follows_wrapPackageDeclaration`
    * `Cache.hostElement?_of_wrapHostElement`
-/

namespace Lowering

namespace Cache

variable {strict : Prop}

------------------------------------------------------------
-- Making Elements
------------------------------------------------------------

/-
  The cache changed, and the elements that were made are those
  of bindings from a set.
-/
structure ElementsMade
    (strict : Prop)
    (ids : BindingId → Prop)
    (before after : Cache) : Prop where
  changes : Changes strict before after
  made : ∀ handle data,
    after.elements.get? handle = some data →
      before.elements.get? handle = some data ∨
        ∃ id, ids id ∧ data.origin = .host id

theorem ElementsMade.isHistory
    (strict : Prop)
    (ids : BindingId → Prop) :
    IsHistory (ElementsMade strict ids) where
  refl cache := {
    changes := Relation.ReflTransGen.refl
    made := fun _ _ hElement => Or.inl hElement }
  trans hFirst hSecond := {
    changes := hFirst.changes.trans hSecond.changes
    made := by
      intro handle data hElement
      rcases hSecond.made handle data hElement with hOld | hNew
      · exact hFirst.made handle data hOld
      · exact Or.inr hNew }

theorem ElementsMade.mono
    {ids ids' : BindingId → Prop}
    (hIds : ∀ id, ids id → ids' id)
    {before after : Cache}
    (hMade : ElementsMade strict ids before after) :
    ElementsMade strict ids' before after := by
  refine ⟨hMade.changes, ?_⟩
  intro handle data hElement
  rcases hMade.made handle data hElement with
    hOld | ⟨id, hId, hOrigin⟩
  · exact Or.inl hOld
  · exact Or.inr ⟨id, hIds id hId, hOrigin⟩

theorem TypesOnly.elementsMade
    (ids : BindingId → Prop)
    {before after : Cache}
    (hTypes : TypesOnly strict before after) :
    ElementsMade strict ids before after := by
  refine ⟨hTypes.changes, ?_⟩
  intro handle data hElement
  rw [hTypes.elements] at hElement
  exact Or.inl hElement

/- What makes no element makes only those of any set. -/
private theorem elementsMade_of_typesOnly
    {α : Type}
    (ids : BindingId → Prop)
    {operation : CacheM α}
    {cache : Cache}
    (hRun : Follows (TypesOnly strict) operation cache) :
    Follows (ElementsMade strict ids) operation cache :=
  hRun.mono fun _ _ hTypes => hTypes.elementsMade ids

------------------------------------------------------------
-- Host Elements
------------------------------------------------------------

/- What an element is described of makes no elements. -/
private theorem wrapping_elementsMade
    {table : BindingTable}
    (hAcyclic : strict → table.Acyclic)
    (ids : BindingId → Prop) :
    Wrapping (fun _ => Follows (ElementsMade strict ids))
      table where
  composes := Follows.composes (ElementsMade.isHistory strict ids)
  intern text cache := elementsMade_of_typesOnly ids
    (typesOnly_intern text cache)
  type id cache := elementsMade_of_typesOnly ids
    (typesOnly_wrapHostType hAcyclic id cache)
  executable id cache := elementsMade_of_typesOnly ids
    (follows_wrapExecutable hAcyclic id cache)

theorem follows_wrapUses
    {table : BindingTable}
    (hAcyclic : strict → table.Acyclic)
    (annotations : List BindingId)
    (cache : Cache) :
    Follows (TypesOnly strict) (wrapUses table annotations)
      cache :=
  wrapUses_of_type (Follows.composes (TypesOnly.isHistory strict))
    (typesOnly_wrapHostType hAcyclic) annotations cache

/-
  Wrapping a binding as an element makes elements of what
  declares it, and at last that of the binding itself. What
  declares it is reached by one reference or more.
-/
theorem follows_declarers
    {table : BindingTable}
    (hAcyclic : strict → table.Acyclic)
    {depth : Nat}
    (hWithin : ∀ id cache, Follows
      (ElementsMade strict
        (Relation.ReflTransGen table.Declares id))
      (wrapHostElementWithin table depth id) cache)
    (id : BindingId)
    (cache : Cache) :
    Follows
      (ElementsMade strict
        (Relation.TransGen table.Declares id))
      (describeHost table (wrapHostElementWithin table depth)
        id) cache := by
  apply (wrapping_elementsMade hAcyclic _).describeHost
  intro owner hOwner state
  apply (hWithin owner state).mono
  intro first second hMade
  apply hMade.mono
  intro other hReach
  exact Relation.TransGen.head' hOwner hReach

theorem ElementsMade.hostElement?_eq_none
    {ids : BindingId → Prop}
    {before after : Cache}
    {id : BindingId}
    (hMade : ElementsMade strict ids before after)
    (hOutside : ¬ ids id)
    (hNone : before.hostElement? id = none) :
    after.hostElement? id = none := by
  rw [hostElement?_eq, findElement?_eq_none_iff] at hNone ⊢
  intro handle data hElement
  rcases hMade.made handle data hElement with
    hOld | ⟨other, hOther, hOrigin⟩
  · exact hNone handle data hOld
  · have hNe : other ≠ id := by
      intro hEq
      exact hOutside (hEq ▸ hOther)
    simp [hOrigin, hNe]

theorem follows_wrapHostElementWithin
    {table : BindingTable}
    (hAcyclic : strict → table.Acyclic)
    (depth : Nat)
    (id : BindingId)
    (cache : Cache) :
    Follows
      (ElementsMade strict
        (Relation.ReflTransGen table.Declares id))
      (wrapHostElementWithin table depth id) cache := by
  induction depth generalizing id cache with
  | zero => exact Follows.throw (ElementsMade.isHistory _ _) _ _
  | succ depth ih =>
      have hHistory := ElementsMade.isHistory strict
        (Relation.ReflTransGen table.Declares id)
      unfold wrapHostElementWithin
      apply Follows.get hHistory
      cases hFound : cache.hostElement? id with
      | some element => exact Follows.pure hHistory _ _
      | none =>
          simp only []
          have hParts := follows_declarers hAcyclic ih id cache
          have hParts' := hParts.mono fun first second hMade =>
            hMade.mono fun other hReach => hReach.to_reflTransGen
          apply Follows.bind hHistory hParts'
          intro data cache₁ hData
          replace hParts := hParts.run_ok hData
          have hOrigin := (described_of_describeHost hData).origin
          refine ⟨?_, ?_⟩
          · apply Change.changes
            apply Change.element
            intro hStrict other found hOther hSame
            rw [hOrigin] at hSame
            have hNone := hParts.hostElement?_eq_none
              ((hAcyclic hStrict).declares id) hFound
            rw [hostElement?_eq, findElement?_eq_none_iff]
              at hNone
            have hNot := hNone _ _ hOther
            simp [hSame] at hNot
          · intro handle found hElement
            change (cache₁.elements.push _).get? handle = _
              at hElement
            rw [Generation.get?_push] at hElement
            split at hElement
            · right
              rw [← Option.some.inj hElement]
              exact ⟨id, Relation.ReflTransGen.refl, hOrigin⟩
            · exact Or.inl hElement

/- An element made because it was not there is found. -/
theorem findElement?_addElement
    {cache cache' : Cache}
    {property : ElementData → Bool}
    {data : ElementData}
    {id : ElementId}
    (hNone : cache.findElement? property = none)
    (hHas : property data = true)
    (hRun : addElement data cache = .ok id cache') :
    cache'.findElement? property = some id := by
  unfold findElement? at hNone ⊢
  rw [Option.map_eq_none_iff] at hNone
  cases hRun
  rw [elements_pushElement, Generation.find?_push hNone hHas,
    Option.map_some]

/- To any depth at which the wrapping ends with an element. -/
theorem hostElement?_of_wrapHostElementWithin
    {table : BindingTable}
    (hAcyclic : table.Acyclic)
    {depth : Nat}
    {id : BindingId}
    {cache cache' : Cache}
    {element : ElementId}
    (hRun : wrapHostElementWithin table depth id cache =
      .ok element cache') :
    cache'.hostElement? id = some element := by
  rcases depth with _ | depth
  · cases hRun
  unfold wrapHostElementWithin at hRun
  rcases run_bind_eq_ok hRun with ⟨_, _, hRead, hRun⟩
  cases hRead
  cases hFound : cache.hostElement? id with
  | some found =>
      simp only [hFound] at hRun
      cases hRun
      exact hFound
  | none =>
      simp only [hFound] at hRun
      rcases run_bind_eq_ok hRun with
        ⟨data, cache₁, hData, hAdd⟩
      have hStrict : True → table.Acyclic := fun _ => hAcyclic
      have hParts := follows_declarers hStrict
        (follows_wrapHostElementWithin hStrict depth) id cache
      replace hParts := hParts.run_ok hData
      have hNone := hParts.hostElement?_eq_none
        (hAcyclic.declares id) hFound
      rw [hostElement?_eq] at hNone ⊢
      apply findElement?_addElement hNone ?_ hAdd
      simp [(described_of_describeHost hData).origin]

/- The element that wraps a binding is found by the binding. -/
theorem hostElement?_of_wrapHostElement
    {table : BindingTable}
    (hAcyclic : table.Acyclic)
    {id : BindingId}
    {cache cache' : Cache}
    {element : ElementId}
    (hRun : wrapHostElement table id cache =
      .ok element cache') :
    cache'.hostElement? id = some element :=
  hostElement?_of_wrapHostElementWithin hAcyclic hRun

theorem follows_wrapHostElement
    {table : BindingTable}
    (hAcyclic : strict → table.Acyclic)
    (id : BindingId)
    (cache : Cache) :
    Follows (Changes strict) (wrapHostElement table id) cache :=
  (follows_wrapHostElementWithin hAcyclic _ id cache).mono
    fun _ _ hMade => hMade.changes

------------------------------------------------------------
-- Bindings Of Any Sort
------------------------------------------------------------

/- The generated package with a name is made only once. -/
theorem follows_packageElement
    (name : Name)
    (cache : Cache) :
    Follows (Changes strict) (packageElement name) cache := by
  have hHistory := Changes.isHistory strict
  unfold packageElement
  apply Follows.get hHistory
  split
  · exact Follows.pure hHistory _ _
  · next hFound =>
    apply Change.changes
    apply Change.element
    intro _ id other hOther hOrigin
    refine ⟨rfl, ?_⟩
    intro _ hKind hName
    rw [package?_eq, findElement?_eq_none_iff] at hFound
    have hNot := hFound _ _ hOther
    simp [hName, hKind, hOrigin] at hNot

/- The generated package with a name is found by its name. -/
theorem package?_of_packageElement
    {name : Name}
    {cache cache' : Cache}
    {element : ElementId}
    (hRun : packageElement name cache = .ok element cache') :
    cache'.packages.get? name = some element := by
  unfold packageElement at hRun
  rcases run_bind_eq_ok hRun with ⟨_, _, hRead, hRun⟩
  cases hRead
  cases hFound : cache.packages.get? name with
  | some found =>
      simp only [hFound] at hRun
      cases hRun
      exact hFound
  | none =>
      simp only [hFound] at hRun
      rw [package?_eq] at hFound ⊢
      apply findElement?_addElement hFound ?_ hRun
      simp

theorem typesOnly_wrapType
    {table : BindingTable}
    (hAcyclic : strict → table.Acyclic)
    (binding : Binding)
    (cache : Cache) :
    Follows (TypesOnly strict) (wrapType table binding)
      cache :=
  Follows.wrapType (TypesOnly.isHistory strict)
    (typesOnly_wrapHostType hAcyclic)
    (fun _ => follows_synthesize (by simp) (by simp))
    follows_pointerType binding cache

theorem follows_wrapType
    {table : BindingTable}
    (hAcyclic : strict → table.Acyclic)
    (binding : Binding)
    (cache : Cache) :
    Follows (Changes strict) (wrapType table binding) cache :=
  (typesOnly_wrapType hAcyclic binding cache).mono
    fun _ _ hOnly => hOnly.changes

theorem follows_wrapElement
    {table : BindingTable}
    (hAcyclic : strict → table.Acyclic)
    (binding : Binding)
    (cache : Cache) :
    Follows (Changes strict) (wrapElement table binding)
      cache :=
  Follows.wrapElement (Changes.isHistory strict)
    (follows_wrapHostElement hAcyclic) follows_packageElement
    binding cache

theorem follows_wrapElementOf
    {table : BindingTable}
    (hAcyclic : strict → table.Acyclic)
    (family : ElementFamily)
    (binding : Binding)
    (cache : Cache) :
    Follows (Changes strict)
      (wrapElementOf table family binding) cache :=
  Follows.wrapElementOf (Changes.isHistory strict)
    (follows_wrapElement hAcyclic binding cache) family

/- An element of a family is live and belongs to it. -/
theorem elementOf_eq_ok
    {cache : Cache}
    {family : ElementFamily}
    {id : ElementId}
    {data : ElementData}
    (hElement : cache.elementOf family id = .ok data) :
    cache.elements.get? id.raw = some data ∧
      family.accepts data.kind := by
  unfold elementOf Cache.element at hElement
  cases hGet : cache.elements.get? id.raw with
  | none =>
      simp only [hGet] at hElement
      cases hElement
  | some found =>
      simp only [hGet] at hElement
      change (if family.accepts found.kind = true then _
        else _) = _ at hElement
      split at hElement
      · next hAccepts =>
        cases hElement
        exact ⟨rfl, hAccepts⟩
      · cases hElement

/- What was wrapped as an element of a family belongs to it. -/
theorem accepts_of_wrapElementOf
    {table : BindingTable}
    {family : ElementFamily}
    {binding : Binding}
    {cache cache' : Cache}
    {element : ElementId}
    (hRun : wrapElementOf table family binding cache =
      .ok element cache') :
    ∃ data, cache'.elements.get? element.raw = some data ∧
      family.accepts data.kind := by
  unfold wrapElementOf at hRun
  rcases run_bind_eq_ok hRun with ⟨found, _, _, hRest⟩
  rcases run_bind_eq_ok hRest with
    ⟨data, _, hInspect, hPure⟩
  rcases run_inspectCache_eq_ok hInspect with ⟨hElement, rfl⟩
  cases hPure
  exact ⟨data, elementOf_eq_ok hElement⟩

/- A package without annotations may get some. -/
theorem kept_annotated
    {data : ElementData}
    (hPackage : ElementFamily.package.accepts data.kind)
    (hNone : data.annotations = [])
    (found : List AnnotationUse) :
    data.Kept { data with annotations := found } := by
  refine ⟨rfl, rfl, rfl, rfl, rfl, .same _, Or.inr ⟨?_, hNone⟩⟩
  cases hKind : data.kind with
  | package => rfl
  | _ =>
      rw [hKind] at hPackage
      cases hPackage

/- Only a package that has no annotations gets some. -/
theorem follows_wrapPackageDeclaration
    {table : BindingTable}
    (hAcyclic : strict → table.Acyclic)
    (id : BindingId)
    (annotations : List BindingId)
    (cache : Cache) :
    Follows (Changes strict)
      (wrapPackageDeclaration table id annotations) cache := by
  have hHistory := Changes.isHistory strict
  unfold wrapPackageDeclaration
  apply (follows_wrapElementOf hAcyclic _ _ cache).bind hHistory
  intro element cache₁ hWrap
  rcases accepts_of_wrapElementOf hWrap with
    ⟨package, hPackage, hAccepts⟩
  apply (Follows.inspect hHistory _ cache₁).bind hHistory
  intro data cache₂ hInspect
  rcases run_inspectCache_eq_ok hInspect with ⟨hElement, rfl⟩
  rcases element_eq_ok_iff.mp hElement ▸ hPackage with ⟨rfl⟩
  simp only []
  split
  · next hNone =>
    have hUses := follows_wrapUses hAcyclic annotations cache₂
    apply (hUses.mono fun _ _ hOnly => hOnly.changes).bind
      hHistory
    intro found cache₃ hRun
    replace hUses := hUses.run_ok hRun
    have hModify : Follows (Changes strict)
        (modifyElement element (.annotations found)) cache₃ := by
      apply Change.changes
      apply Change.modified
      · intro old hOld
        have hSame : cache₃.elements = cache₂.elements :=
          hUses.elements
        rw [hSame, element_eq_ok_iff.mp hElement] at hOld
        cases hOld
        simp only [Bool.and_eq_true, List.isEmpty_iff] at hNone
        exact kept_annotated hAccepts hNone.1 found
      · exact fun _ => rfl
    apply hModify.bind hHistory
    intro _ cache₄ _
    exact Follows.pure hHistory _ _
  · exact Follows.pure hHistory _ _

end Cache

end Lowering
