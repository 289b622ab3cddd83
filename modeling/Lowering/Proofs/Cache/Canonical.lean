import Lowering.Proofs.Cache.Sound

/-
  This file proves that a cache that changes strictly stays
  canonical: no two of its wrappers stand for the same thing.

  Key definitions include:
    * `Cache.Canonical`

  Main results:
    * `Cache.Change.canonical`
    * `Cache.Changes.canonical`
-/

namespace Lowering

namespace Cache

------------------------------------------------------------
-- Canonical Caches
------------------------------------------------------------

/-
  No two live wrappers stand for the same thing: types are
  told apart by kind and origin, the elements of the host by
  their binding, and generated packages by their name.
-/
structure Canonical (cache : Cache) : Prop where
  types : ∀ ty ty' data,
    cache.type? ty = some data →
      cache.type? ty' = some data → ty = ty'
  hosts : ∀ id id' data data' binding,
    cache.elements.get? id = some data →
      cache.elements.get? id' = some data' →
        data.origin = .host binding →
          data'.origin = .host binding → id = id'
  packages : ∀ id id' data data',
    cache.elements.get? id = some data →
      cache.elements.get? id' = some data' →
        data.origin = .generated →
          data'.origin = .generated →
            data.kind = .package →
              data'.kind = .package →
                data.name = data'.name → id = id'

/- A cache without live items of its own is canonical. -/
private theorem canonical_of_empty
    {cache : Cache}
    (hTypes : ∀ handle, cache.types.get? handle = none)
    (hElements : ∀ handle, cache.elements.get? handle = none) :
    cache.Canonical := by
  refine ⟨?_, ?_, ?_⟩
  · intro ty ty' data hType hType'
    unfold Cache.type? at hType hType'
    simp only [hTypes] at hType hType'
    split at hType
    · next hEq =>
      split at hType'
      · next hEq' => rw [hEq, hEq']
      · split at hType'
        · rw [← hType] at hType'
          simp at hType'
        · simp at hType'
    · split at hType
      · next hEq =>
        split at hType'
        · rw [← hType] at hType'
          simp at hType'
        · split at hType'
          · next hEq' => rw [hEq, hEq']
          · simp at hType'
      · simp at hType
  · intro id id' data data' binding hData
    rw [hElements] at hData
    simp at hData
  · intro id id' data data' hData
    rw [hElements] at hData
    simp at hData

/- The empty cache is canonical. -/
theorem Canonical.new : Canonical {} := by
  apply canonical_of_empty <;> intro handle <;>
    unfold Generation.get? <;> split <;> simp

/- A reset leaves a canonical cache. -/
theorem Canonical.reset (cache : Cache) :
    cache.reset.Canonical := by
  apply canonical_of_empty <;> intro handle <;>
    exact get?_restart _ _

private theorem type?_push_cases
    {cache : Cache}
    {data found : TypeData}
    {ty : TypeId}
    (hType : (cache.pushType data).type? ty = some found) :
    (ty = ⟨cache.types.next⟩ ∧ found = data) ∨
      cache.type? ty = some found := by
  unfold Cache.type? at hType ⊢
  split at hType
  · next hNone =>
    rw [if_pos hNone]
    exact Or.inr hType
  · next hNone =>
    rw [if_neg hNone]
    split at hType
    · next hNull =>
      rw [if_pos hNull]
      exact Or.inr hType
    · next hNull =>
      rw [if_neg hNull]
      rcases get?_push_cases hType with ⟨hEq, hSame⟩ | hOld
      · exact Or.inl ⟨congrArg TypeId.mk hEq, hSame⟩
      · exact Or.inr hOld

/- A type that is not there can be made. -/
private theorem types_push
    {cache : Cache}
    {data : TypeData}
    (hCanonical : cache.Canonical)
    (hFresh : ∀ ty, cache.type? ty ≠ some data)
    {ty ty' : TypeId}
    {found : TypeData}
    (hType : (cache.pushType data).type? ty = some found)
    (hType' : (cache.pushType data).type? ty' = some found) :
    ty = ty' := by
  rcases type?_push_cases hType with ⟨hTy, hSame⟩ | hOld <;>
    rcases type?_push_cases hType' with ⟨hTy', hSame'⟩ | hOld'
  · rw [hTy, hTy']
  · rw [hSame] at hOld'
    exact absurd hOld' (hFresh ty')
  · rw [hSame'] at hOld
    exact absurd hOld (hFresh ty)
  · exact hCanonical.types ty ty' found hOld hOld'

/-
  Elements that stand for the same thing: both for one binding,
  or both for the package of one name.
-/
private inductive Doubles (first second : ElementData) : Prop
  | host
      {binding : BindingId}
      (origin : first.origin = .host binding)
      (origin' : second.origin = .host binding)
  | package
      (origin : first.origin = .generated)
      (origin' : second.origin = .generated)
      (package : first.kind = .package)
      (package' : second.kind = .package)
      (named : first.name = second.name)

private theorem Doubles.symm
    {first second : ElementData}
    (hDoubles : Doubles first second) :
    Doubles second first := by
  cases hDoubles with
  | host hOrigin hOrigin' => exact .host hOrigin' hOrigin
  | package hOrigin hOrigin' hKind hKind' hNamed =>
      exact .package hOrigin' hOrigin hKind' hKind hNamed.symm

/- What two elements stand for is kept of them. -/
private theorem Doubles.of_kept
    {first first' second second' : ElementData}
    (hFirst : first.Kept first')
    (hSecond : second.Kept second')
    (hDoubles : Doubles first' second') :
    Doubles first second := by
  cases hDoubles with
  | host hOrigin hOrigin' =>
      exact .host (hFirst.origin.symm.trans hOrigin)
        (hSecond.origin.symm.trans hOrigin')
  | package hOrigin hOrigin' hKind hKind' hNamed =>
      exact .package (hFirst.origin.symm.trans hOrigin)
        (hSecond.origin.symm.trans hOrigin')
        (hFirst.isPackage.mp hKind) (hSecond.isPackage.mp hKind')
        (hFirst.name.symm.trans (hNamed.trans hSecond.name))

/- In a cache, what stands for the same thing is the same. -/
private def Undoubled (elements : Generation ElementData) :
    Prop :=
  ∀ id id' data data',
    elements.get? id = some data →
      elements.get? id' = some data' →
        Doubles data data' → id = id'

private theorem canonical_iff
    {cache : Cache} :
    cache.Canonical ↔
      (∀ ty ty' data,
        cache.type? ty = some data →
          cache.type? ty' = some data → ty = ty') ∧
        Undoubled cache.elements := by
  constructor
  · intro hCanonical
    refine ⟨hCanonical.types, ?_⟩
    intro id id' data data' hData hData' hDoubles
    cases hDoubles with
    | host hOrigin hOrigin' =>
        exact hCanonical.hosts id id' data data' _ hData hData'
          hOrigin hOrigin'
    | package hOrigin hOrigin' hKind hKind' hNamed =>
        exact hCanonical.packages id id' data data' hData hData'
          hOrigin hOrigin' hKind hKind' hNamed
  · rintro ⟨hTypes, hUndoubled⟩
    refine ⟨hTypes, ?_, ?_⟩
    · intro id id' data data' _ hData hData' hOrigin hOrigin'
      exact hUndoubled id id' data data' hData hData'
        (.host hOrigin hOrigin')
    · intro id id' data data' hData hData' hOrigin hOrigin'
        hKind hKind' hNamed
      exact hUndoubled id id' data data' hData hData'
        (.package hOrigin hOrigin' hKind hKind' hNamed)

/- An element that doubles none can be made. -/
private theorem Undoubled.push
    {elements : Generation ElementData}
    {data : ElementData}
    (hUndoubled : Undoubled elements)
    (hFresh : ∀ id old, elements.get? id = some old →
      ¬ Doubles old data) :
    Undoubled (elements.push data) := by
  intro id id' first second hFirst hSecond hDoubles
  rcases get?_push_cases hFirst with ⟨hId, rfl⟩ | hOld <;>
    rcases get?_push_cases hSecond with ⟨hId', rfl⟩ | hOld'
  · rw [hId, hId']
  · exact absurd hDoubles.symm (hFresh id' second hOld')
  · exact absurd hDoubles (hFresh id first hOld)
  · exact hUndoubled id id' first second hOld hOld' hDoubles

/- A change that keeps what it changes doubles nothing. -/
private theorem Undoubled.modify
    {elements : Generation ElementData}
    {id : Nat}
    {change : ElementData → ElementData}
    (hUndoubled : Undoubled elements)
    (hKept : ∀ data : ElementData,
      elements.get? id = some data → data.Kept (change data)) :
    Undoubled (elements.modify id change) := by
  intro first second data data' hData hData' hDoubles
  rcases exists_kept_of_modify hKept hData with
    ⟨old, hOld, hSame⟩
  rcases exists_kept_of_modify hKept hData' with
    ⟨old', hOld', hSame'⟩
  exact hUndoubled first second old old' hOld hOld'
    (hDoubles.of_kept hSame hSame')

/- A method without a remembered type has none of its arity. -/
private theorem Current.ne_of_missing
    {cache : Cache}
    {method : ElementId}
    {types : List TypeId}
    {returnType : TypeId}
    (hCurrent : cache.Current)
    (hArity : cache.HasArity method types.length)
    (hMissing : cache.executables.lookup method = none)
    {ty : TypeId} :
    cache.type? ty ≠
      some ⟨.executable types returnType, .generated method⟩ := by
  intro hType
  rcases hCurrent.types _ _ _ _ (get?_of_generated hType rfl)
    with ⟨arity, hOther, _, hFound⟩
  cases hMissing.symm.trans (hFound (hArity.unique hOther))

/- A strict change leaves a canonical cache. -/
theorem Change.canonical
    {before after : Cache}
    (hChange : Change True before after)
    (hSound : before.Sound)
    (hCanonical : before.Canonical) :
    after.Canonical := by
  rcases canonical_iff.mp hCanonical with ⟨hTypes, hUndoubled⟩
  cases hChange with
  | text text => exact canonical_iff.mpr ⟨hTypes, hUndoubled⟩
  | type data hFresh _ _ =>
      refine canonical_iff.mpr ⟨?_, hUndoubled⟩
      intro ty ty' found hType hType'
      exact types_push hCanonical (hFresh trivial) hType hType'
  | element data hFresh =>
      refine canonical_iff.mpr ⟨hTypes, hUndoubled.push ?_⟩
      intro id old hOld hDoubles
      cases hDoubles with
      | host hOrigin hOrigin' =>
          have hMade := (hFresh trivial id old hOld
            (hOrigin.trans hOrigin'.symm)).1
          cases hOrigin'.symm.trans hMade
      | package hOrigin hOrigin' hKind hKind' hNamed =>
          exact (hFresh trivial id old hOld
            (hOrigin.trans hOrigin'.symm)).2 hKind' hKind hNamed
  | declared name data hGenerated hClass =>
      refine canonical_iff.mpr ⟨?_, hUndoubled.push ?_⟩
      · intro ty ty' found hType hType'
        apply types_push hCanonical ?_ hType hType'
        intro other hOther
        have hOwned := hSound.owned _ _ _
          (get?_of_generated hOther rfl) rfl
        exact Nat.lt_irrefl _ hOwned
      · intro id old _ hDoubles
        cases hDoubles with
        | host _ hOrigin' => cases hGenerated.symm.trans hOrigin'
        | package _ _ _ hKind' _ => cases hClass.symm.trans hKind'
  | executable method types returnType hArity hMissing =>
      refine canonical_iff.mpr ⟨?_, hUndoubled⟩
      intro ty ty' found hType hType'
      apply types_push hCanonical ?_ hType hType'
      exact fun _ => hSound.current.ne_of_missing hArity hMissing
  | parameter method name ty _ =>
      refine canonical_iff.mpr ⟨hTypes, ?_⟩
      apply Undoubled.modify
      · apply hUndoubled.push
        intro id old _ hDoubles
        cases hDoubles with
        | host _ hOrigin' => cases hOrigin'
        | package _ _ _ hKind' _ => cases hKind'
      · exact fun data _ => kept_addParameter _ data
  | modified id edit hKept _ =>
      exact canonical_iff.mpr ⟨hTypes, hUndoubled.modify hKept⟩

/- A cache that changes strictly stays canonical. -/
theorem Changes.canonical
    {before after : Cache}
    (hChanges : Changes True before after)
    (hSound : before.Sound)
    (hCanonical : before.Canonical) :
    after.Canonical := by
  induction hChanges with
  | refl => exact hCanonical
  | tail hFront hChange ih =>
      exact hChange.canonical (Changes.sound hFront hSound) ih

end Cache

end Lowering
