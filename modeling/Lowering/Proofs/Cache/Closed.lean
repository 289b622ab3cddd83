import Lowering.Proofs.Behaves
import Lowering.Proofs.Cache.Live

/-
  This file defines when a cache is closed: the handles that
  are stored in a wrapper are live, and those of the types
  that a type is made of, and of the element that encloses an
  element, are older than the wrapper itself.

  That much needs callers who only hand over live handles. One
  thing is true whatever they do: a generated class has the
  declared type that was made with it.

  A step seals the cache if it loses nothing and leaves a
  closed cache closed. The steps that a cache can take are
  listed here, with what they need.

  Key definitions include:
    * `ElementData.types`
    * `ElementData.elements`
    * `Cache.TypeFits`
    * `Cache.ElementFits`
    * `Cache.ClassTyped`
    * `Cache.Closed`
    * `Cache.Seals`

  Main results:
    * `Cache.Closed.lt_next`
    * `Cache.seals_type`
    * `Cache.seals_element`
    * `Cache.seals_class`
    * `Cache.seals_modified`
-/

namespace Lowering

------------------------------------------------------------
-- Stored Handles
------------------------------------------------------------

namespace ElementKind

/- The types that a kind of element is made of. -/
def types : ElementKind → List TypeId
  | executable _ _ returnType => [returnType]
  | _ => []

/- The elements that a kind of element is made of. -/
def elements : ElementKind → List ElementId
  | executable _ parameters _ => parameters
  | _ => []

end ElementKind

namespace ElementData

/- The types that are stored in an element. -/
def types (data : ElementData) : List TypeId :=
  data.ty.toList ++ data.kind.types ++
    data.annotations.map (·.annotationType)

/- The elements that are stored in an element. -/
def elements (data : ElementData) : List ElementId :=
  data.enclosing.toList ++ data.kind.elements

end ElementData

namespace Cache

/- A handle is that of a live type, or of a fixed one. -/
def HasType (cache : Cache) (ty : TypeId) : Prop :=
  ∃ data, cache.type? ty = some data

instance
    (cache : Cache)
    (ty : TypeId) :
    Decidable (cache.HasType ty) :=
  decidable_of_iff (cache.type? ty).isSome
    Option.isSome_iff_exists

/- A handle is that of a live element. -/
def HasElement (cache : Cache) (id : ElementId) : Prop :=
  ∃ data, cache.elements.get? id.raw = some data

instance
    (cache : Cache)
    (id : ElementId) :
    Decidable (cache.HasElement id) :=
  decidable_of_iff (cache.elements.get? id.raw).isSome
    Option.isSome_iff_exists

section Handles

variable {before after : Cache}
variable {cache : Cache}

theorem HasType.mono
    (hGrown : Grown before after)
    {ty : TypeId}
    (hType : before.HasType ty) :
    after.HasType ty := by
  rcases hType with ⟨data, hData⟩
  exact ⟨data, hGrown.type? hData⟩

theorem HasElement.mono
    (hGrown : Grown before after)
    {id : ElementId}
    (hElement : before.HasElement id) :
    after.HasElement id := by
  rcases hElement with ⟨data, hData⟩
  rcases hGrown.element? hData with ⟨data', hData', _⟩
  exact ⟨data', hData'⟩

theorem hasType_noType (cache : Cache) :
    cache.HasType noType :=
  ⟨⟨.noType, .synthetic⟩, rfl⟩

theorem hasType_nullType (cache : Cache) :
    cache.HasType nullType :=
  ⟨⟨.nullType, .synthetic⟩, rfl⟩

theorem hasType_of_get?
    {ty : TypeId}
    {data : TypeData}
    (hType : cache.types.get? ty.raw = some data) :
    cache.HasType ty := by
  unfold HasType Cache.type?
  split
  · exact ⟨_, rfl⟩
  · split
    · exact ⟨_, rfl⟩
    · exact ⟨data, hType⟩

end Handles

------------------------------------------------------------
-- Closed Caches
------------------------------------------------------------

/-
  A type is made of older types, and what it is the type of is
  live.
-/
structure TypeFits
    (cache : Cache)
    (handle : Nat)
    (data : TypeData) : Prop where
  parts : ∀ part ∈ data.kind.parts,
    cache.HasType part ∧ part.raw < handle
  owner : ∀ element, data.origin = .generated element →
    cache.HasElement element

/-
  What an element stores is live, and what encloses it is
  older.
-/
structure ElementFits
    (cache : Cache)
    (handle : Nat)
    (data : ElementData) : Prop where
  types : ∀ ty ∈ data.types, cache.HasType ty
  elements : ∀ id ∈ data.elements, cache.HasElement id
  enclosing : ∀ owner, data.enclosing = some owner →
    owner.raw < handle

/- A generated class has a declared type of its own. -/
def ClassTyped
    (cache : Cache)
    (handle : Nat)
    (data : ElementData) : Prop :=
  data.origin = .generated →
    ElementFamily.type.accepts data.kind = true →
      ∃ ty, data.ty = some ty ∧
        cache.type? ty =
          some ⟨.declared data.name, .generated ⟨handle⟩⟩

/-
  All that is stored fits, if the callers are careful to hand
  over live handles only.
-/
structure Closed (careful : Prop) (cache : Cache) : Prop where
  base : 2 ≤ cache.types.base
  types : careful → ∀ handle data,
    cache.types.get? handle = some data →
      cache.TypeFits handle data
  elements : careful → ∀ handle data,
    cache.elements.get? handle = some data →
      cache.ElementFits handle data
  classes : ∀ handle data,
    cache.elements.get? handle = some data →
      cache.ClassTyped handle data

section Growing

variable {careful : Prop}
variable {before after : Cache}
variable {handle : Nat}

theorem TypeFits.mono
    (hGrown : Grown before after)
    {data : TypeData}
    (hFits : before.TypeFits handle data) :
    after.TypeFits handle data where
  parts := by
    intro part hPart
    rcases hFits.parts part hPart with ⟨hType, hOlder⟩
    exact ⟨hType.mono hGrown, hOlder⟩
  owner := fun element hOrigin =>
    (hFits.owner element hOrigin).mono hGrown

theorem ElementFits.mono
    (hGrown : Grown before after)
    {data : ElementData}
    (hFits : before.ElementFits handle data) :
    after.ElementFits handle data where
  types := fun ty hTy => (hFits.types ty hTy).mono hGrown
  elements := fun id hId => (hFits.elements id hId).mono hGrown
  enclosing := hFits.enclosing

theorem ClassTyped.mono
    (hGrown : Grown before after)
    {data : ElementData}
    (hTyped : before.ClassTyped handle data) :
    after.ClassTyped handle data := by
  intro hOrigin hKind
  rcases hTyped hOrigin hKind with ⟨ty, hTy, hType⟩
  exact ⟨ty, hTy, hGrown.type? hType⟩

/- A cache stays closed if everything new in it fits. -/
private theorem Closed.of_grown
    (hGrown : Grown before after)
    (hTypes : ∀ handle data,
      after.types.get? handle = some data →
        before.types.get? handle = some data ∨
          (careful → after.TypeFits handle data))
    (hElements : ∀ handle data,
      after.elements.get? handle = some data →
        before.elements.get? handle = some data ∨
          ((careful → after.ElementFits handle data) ∧
            after.ClassTyped handle data))
    (hClosed : before.Closed careful) :
    after.Closed careful where
  base := by
    rw [hGrown.types.base]
    exact hClosed.base
  types := by
    intro hCareful handle data hType
    rcases hTypes handle data hType with hOld | hNew
    · exact (hClosed.types hCareful handle data hOld).mono
        hGrown
    · exact hNew hCareful
  elements := by
    intro hCareful handle data hElement
    rcases hElements handle data hElement with hOld | hNew
    · exact (hClosed.elements hCareful handle data hOld).mono
        hGrown
    · exact hNew.1 hCareful
  classes := by
    intro handle data hElement
    rcases hElements handle data hElement with hOld | hNew
    · exact (hClosed.classes handle data hOld).mono hGrown
    · exact hNew.2

/- Live types are older than the next one. -/
theorem Closed.lt_next
    {cache : Cache}
    (hClosed : cache.Closed careful)
    {ty : TypeId}
    (hType : cache.HasType ty) :
    ty.raw < cache.types.next := by
  rcases hType with ⟨data, hData⟩
  have hBase := hClosed.base
  have hNext : cache.types.base ≤ cache.types.next :=
    Nat.le_add_right _ _
  rcases (type?_eq_some_iff hBase).mp hData with
    ⟨rfl, _⟩ | ⟨rfl, _⟩ | hLive
  · exact Nat.lt_of_lt_of_le (by decide)
      (Nat.le_trans hBase hNext)
  · exact Nat.lt_of_lt_of_le (by decide)
      (Nat.le_trans hBase hNext)
  · exact (Generation.bounds_of_get? hLive).2

/- A cache without live wrappers is closed. -/
private theorem closed_of_empty
    {cache : Cache}
    (hBase : 2 ≤ cache.types.base)
    (hTypes : cache.types.items = #[])
    (hElements : cache.elements.items = #[]) :
    cache.Closed careful := by
  refine ⟨hBase, ?_, ?_, ?_⟩
  · intro _ handle data hType
    exact (Generation.get?_ne_of_empty hTypes hType).elim
  · intro _ handle data hFound
    exact (Generation.get?_ne_of_empty hElements hFound).elim
  · intro handle data hFound
    exact (Generation.get?_ne_of_empty hElements hFound).elim

theorem Closed.new : Closed careful {} :=
  closed_of_empty (Nat.le_refl 2) rfl rfl

/- A reset drops all that is stored. -/
theorem Closed.reset
    {cache : Cache}
    (hClosed : cache.Closed careful) :
    cache.reset.Closed careful := by
  apply closed_of_empty ?_ rfl rfl
  have hBase := hClosed.base
  simp only [Cache.reset, Generation.restart, Generation.next]
  omega

end Growing

------------------------------------------------------------
-- Steps
------------------------------------------------------------

/- A step loses nothing and leaves a closed cache closed. -/
structure Seals
    (careful : Prop)
    (before after : Cache) : Prop where
  grown : Grown before after
  closed : before.Closed careful → after.Closed careful

theorem Seals.isHistory (careful : Prop) :
    IsHistory (Seals careful) where
  refl := fun cache => ⟨Grown.refl cache, id⟩
  trans := fun hFirst hSecond =>
    ⟨hFirst.grown.trans hSecond.grown,
      hSecond.closed ∘ hFirst.closed⟩

section Steps

variable {careful : Prop}
variable {cache : Cache}

theorem seals_text (text : String) :
    Seals careful cache
      { cache with names := (cache.names.intern text).2 } where
  grown := (@Change.text False cache text).grown
  closed := by
    apply Closed.of_grown (@Change.text False cache text).grown
    · exact fun _ _ hType => Or.inl hType
    · exact fun _ _ hElement => Or.inl hElement

/- A type is made of live types, for something live. -/
theorem seals_type
    {data : TypeData}
    (hParts : careful → ∀ part ∈ data.kind.parts,
      cache.HasType part)
    (hOwner : careful → ∀ element,
      data.origin = .generated element →
        cache.HasElement element) :
    Seals careful cache (cache.pushType data) := by
  have hGrown : Grown cache (cache.pushType data) :=
    ⟨Interner.Grown.refl _,
      Generation.Grown.push (fun _ => rfl) _ _,
      Generation.Grown.refl ElementData.Kept.refl _⟩
  refine ⟨hGrown, fun hClosed => ?_⟩
  apply Closed.of_grown hGrown ?_ ?_ hClosed
  · intro handle found hType
    change (cache.types.push data).get? handle = _ at hType
    rw [Generation.get?_push] at hType
    split at hType
    · next hHandle =>
      cases hType
      refine Or.inr fun hCareful => ⟨?_, ?_⟩
      · intro part hPart
        have hLive := hParts hCareful part hPart
        rw [hHandle]
        exact ⟨hLive.mono hGrown, hClosed.lt_next hLive⟩
      · intro element hOrigin
        exact (hOwner hCareful element hOrigin).mono hGrown
    · exact Or.inl hType
  · exact fun _ _ hElement => Or.inl hElement

/- An element other than a class stores what is live. -/
theorem seals_element
    {data : ElementData}
    (hTypes : careful → ∀ ty ∈ data.types, cache.HasType ty)
    (hElements : careful → ∀ id ∈ data.elements,
      cache.HasElement id)
    (hClass : data.origin = .generated →
      ElementFamily.type.accepts data.kind = false) :
    Seals careful cache (cache.pushElement data) := by
  have hGrown : Grown cache (cache.pushElement data) :=
    (@Change.element False cache data False.elim).grown
  refine ⟨hGrown, Closed.of_grown hGrown ?_ ?_⟩
  · exact fun _ _ hType => Or.inl hType
  · intro handle found hElement
    change (cache.elements.push data).get? handle = _ at hElement
    rw [Generation.get?_push] at hElement
    split at hElement
    · next hHandle =>
      cases hElement
      refine Or.inr ⟨fun hCareful => ⟨?_, ?_, ?_⟩, ?_⟩
      · intro ty hTy
        exact (hTypes hCareful ty hTy).mono hGrown
      · intro id hId
        exact (hElements hCareful id hId).mono hGrown
      · intro owner hOwner
        have hMem : owner ∈ data.elements := by
          simp [ElementData.elements, hOwner]
        rcases hElements hCareful owner hMem with
          ⟨found, hFound⟩
        rw [hHandle]
        exact (Generation.bounds_of_get? hFound).2
      · intro hOrigin hKind
        rw [hClass hOrigin] at hKind
        cases hKind
    · exact Or.inl hElement

/- A class is made together with its declared type. -/
theorem seals_class
    (name : Name)
    (modifiers : Modifiers)
    {enclosing : Option ElementId}
    (hEnclosing : careful → ∀ owner, enclosing = some owner →
      cache.HasElement owner) :
    Seals careful cache
      ((cache.pushType ⟨.declared name,
        .generated ⟨cache.elements.next⟩⟩).pushElement {
          name
          kind := .type
          origin := .generated
          modifiers
          enclosing
          ty := some ⟨cache.types.next⟩ }) := by
  have hGrown := (@Change.declared False cache name {
      name
      kind := .type
      origin := .generated
      modifiers
      enclosing
      ty := some ⟨cache.types.next⟩ } rfl rfl).grown
  refine ⟨hGrown, fun hClosed => ?_⟩
  have hMade := Generation.get?_push_next cache.types
    ⟨.declared name, .generated ⟨cache.elements.next⟩⟩
  apply Closed.of_grown hGrown ?_ ?_ hClosed
  · intro handle found hType
    change (cache.types.push _).get? handle = _ at hType
    rw [Generation.get?_push] at hType
    split at hType
    · cases hType
      refine Or.inr fun _ => ⟨?_, ?_⟩
      · intro part hPart
        cases hPart
      · intro element hOrigin
        cases hOrigin
        exact ⟨_, Generation.get?_push_next cache.elements _⟩
    · exact Or.inl hType
  · intro handle found hElement
    change (cache.elements.push _).get? handle = _ at hElement
    rw [Generation.get?_push] at hElement
    split at hElement
    · next hHandle =>
      cases hElement
      refine Or.inr ⟨fun hCareful => ⟨?_, ?_, ?_⟩, ?_⟩
      · intro ty hTy
        simp only [ElementData.types, ElementKind.types,
          Option.toList_some, List.map_nil, List.append_nil,
          List.mem_singleton] at hTy
        rw [hTy]
        exact hasType_of_get? hMade
      · intro id hId
        simp only [ElementData.elements, ElementKind.elements,
          List.append_nil, Option.mem_toList] at hId
        exact (hEnclosing hCareful id hId).mono hGrown
      · intro owner hOwner
        rcases hEnclosing hCareful owner hOwner with
          ⟨found, hFound⟩
        rw [hHandle]
        exact (Generation.bounds_of_get? hFound).2
      · intro _ _
        refine ⟨_, rfl, ?_⟩
        rw [hHandle]
        apply (type?_eq_some_iff ?_).mpr
        · exact Or.inr (Or.inr hMade)
        · exact hClosed.base
    · exact Or.inl hElement

/-
  An element that is modified keeps its owner and its type,
  and what else it stores then is live.
-/
theorem seals_modified
    (id : ElementId)
    {edit : ElementEdit}
    (hKept : ∀ data,
      cache.elements.get? id.raw = some data →
        data.Kept (edit.apply data))
    (hTypes : careful → ∀ data,
      cache.elements.get? id.raw = some data →
        ∀ ty ∈ (edit.apply data).types,
          ty ∈ data.types ∨ cache.HasType ty)
    (hElements : careful → ∀ data,
      cache.elements.get? id.raw = some data →
        ∀ other ∈ (edit.apply data).elements,
          other ∈ data.elements ∨ cache.HasElement other) :
    Seals careful cache (cache.editElement id edit) := by
  have hGrown := grown_editElement hKept
  refine ⟨hGrown, fun hClosed => ?_⟩
  apply Closed.of_grown hGrown ?_ ?_ hClosed
  · exact fun _ _ hType => Or.inl hType
  · intro handle found hElement
    rw [elements_editElement, Generation.get?_modify] at hElement
    split at hElement
    · next hHandle =>
      subst hHandle
      rcases Option.map_eq_some_iff.mp hElement with
        ⟨data, hData, rfl⟩
      have hSame := hKept data hData
      refine Or.inr ⟨fun hCareful => ?_, ?_⟩
      · have hFits := hClosed.elements hCareful _ _ hData
        refine ⟨?_, ?_, ?_⟩
        · intro ty hTy
          rcases hTypes hCareful data hData ty hTy with
            hOld | hLive
          · exact (hFits.types ty hOld).mono hGrown
          · exact hLive.mono hGrown
        · intro other hOther
          rcases hElements hCareful data hData other hOther with
            hOld | hLive
          · exact (hFits.elements other hOld).mono hGrown
          · exact hLive.mono hGrown
        · intro owner hOwner
          rw [hSame.enclosing] at hOwner
          exact hFits.enclosing owner hOwner
      · intro hOrigin hKind
        rw [hSame.origin] at hOrigin
        rw [hSame.kind.accepts] at hKind
        rcases hClosed.classes _ _ hData hOrigin hKind with
          ⟨ty, hTy, hType⟩
        refine ⟨ty, hSame.ty.trans hTy, ?_⟩
        rw [hSame.name]
        exact hGrown.type? hType
    · exact Or.inl hElement

/- What is remembered of methods is no part of wrappers. -/
theorem seals_executables
    (executables : List (ElementId × TypeId)) :
    Seals careful cache { cache with executables } := by
  have hGrown := grown_executables cache executables
  refine ⟨hGrown, Closed.of_grown hGrown ?_ ?_⟩
  · exact fun _ _ hType => Or.inl hType
  · exact fun _ _ hElement => Or.inl hElement

end Steps

end Cache

end Lowering
