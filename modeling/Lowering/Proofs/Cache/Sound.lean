import Lowering.Proofs.Cache.Change

/-
  This file proves what is true of every cache, whatever the
  bindings: its handles are set apart from the fixed ones, its
  generated types belong to elements that were made, and what
  it remembers of generated methods is current.

  A method that gets a parameter outgrows its executable
  types. They stay where they are, but none of them has as
  many parameters as the method, and none is remembered.

  Key definitions include:
    * `Cache.Current`
    * `Cache.Sound`

  Main results:
    * `Cache.Current.change`
    * `Cache.Changes.sound`
-/

namespace Lowering

namespace Cache

variable {strict : Prop}
variable {before after : Cache}

------------------------------------------------------------
-- Pushed Items
------------------------------------------------------------

/- What is live after a push was pushed or was live. -/
theorem get?_push_cases
    {α : Type}
    {generation : Generation α}
    {item found : α}
    {handle : Nat}
    (hFound : (generation.push item).get? handle = some found) :
    (handle = generation.next ∧ found = item) ∨
      generation.get? handle = some found := by
  rw [Generation.get?_push] at hFound
  split at hFound
  · next hEq =>
    exact Or.inl ⟨hEq, (Option.some.inj hFound).symm⟩
  · exact Or.inr hFound

theorem get?_restart
    {α : Type}
    (generation : Generation α)
    (handle : Nat) :
    generation.restart.get? handle = none := by
  unfold Generation.get? Generation.restart
  split <;> simp

/- A live type of a generated element is in the store. -/
theorem get?_of_generated
    {cache : Cache}
    {ty : TypeId}
    {data : TypeData}
    {element : ElementId}
    (hType : cache.type? ty = some data)
    (hOrigin : data.origin = .generated element) :
    cache.types.get? ty.raw = some data := by
  unfold Cache.type? at hType
  split at hType
  · cases hType
    cases hOrigin
  · split at hType
    · cases hType
      cases hOrigin
    · exact hType

------------------------------------------------------------
-- Arities
------------------------------------------------------------

theorem eq_of_raw
    {first second : ElementId}
    (hRaw : first.raw = second.raw) :
    first = second := by
  cases first
  cases second
  exact congrArg ElementId.mk hRaw

theorem HasArity.unique
    {method : ElementId}
    {arity arity' : Nat}
    (hArity : before.HasArity method arity)
    (hArity' : before.HasArity method arity') :
    arity = arity' := by
  rcases hArity with ⟨data, _, params, _, hData, hKind, rfl⟩
  rcases hArity' with ⟨data', _, params', _, hData', hKind', rfl⟩
  cases hData.symm.trans hData'
  cases hKind.symm.trans hKind'
  rfl

theorem HasArity.lt_next
    {method : ElementId}
    {arity : Nat}
    (hArity : before.HasArity method arity) :
    method.raw < before.elements.next := by
  rcases hArity with ⟨data, _, _, _, hData, _⟩
  exact (Generation.bounds_of_get? hData).2

/- An element that is left in its kind has its arity. -/
private theorem HasArity.keep
    {method : ElementId}
    {arity : Nat}
    (hArity : before.HasArity method arity)
    (hKinds : ∀ data,
      before.elements.get? method.raw = some data →
        ∃ data', after.elements.get? method.raw = some data' ∧
          data'.kind = data.kind) :
    after.HasArity method arity := by
  rcases hArity with
    ⟨data, selector, params, returnType, hData, hKind, hLength⟩
  rcases hKinds data hData with ⟨data', hData', hSame⟩
  exact ⟨data', selector, params, returnType, hData',
    hSame.trans hKind, hLength⟩

/- A method that gets a parameter has one more. -/
private theorem HasArity.withParameter
    {method other : ElementId}
    {arity : Nat}
    (hMethod : ∃ arity, before.HasArity method arity)
    (hOther : before.HasArity other arity)
    (name : Name)
    (ty : TypeId) :
    (before.withParameter method name ty).HasArity other
      (if other = method then arity + 1 else arity) := by
  rcases hMethod with ⟨_, data, _, _, _, hData, _⟩
  split
  · next hSame =>
    subst hSame
    rcases hOther with
      ⟨found, selector, params, returnType, hFound, hKind, rfl⟩
    cases hData.symm.trans hFound
    refine ⟨{ data with
        kind := data.kind.addParameter ⟨before.elements.next⟩ },
      selector, params ++ [⟨before.elements.next⟩],
      returnType, ?_, ?_, List.length_append⟩
    · rw [get?_withParameter hData, if_pos rfl]
    · rw [hKind]
      rfl
  · next hDistinct =>
    have hNext := hOther.lt_next
    apply hOther.keep
    intro found hFound
    refine ⟨found, ?_, rfl⟩
    rw [get?_withParameter hData, if_neg, if_neg]
    · exact hFound
    · exact Nat.ne_of_lt hNext
    · exact fun hRaw => hDistinct (eq_of_raw hRaw)

------------------------------------------------------------
-- Current Caches
------------------------------------------------------------

/-
  What is remembered of generated methods is current: a type
  of a method has no more parameters than the method, and if
  it has as many, it is the one that is remembered; and what
  is remembered is a type with as many as the method has.
-/
structure Current (cache : Cache) : Prop where
  types : ∀ handle types returnType method,
    cache.types.get? handle =
        some ⟨.executable types returnType,
          .generated method⟩ →
      ∃ arity,
        cache.HasArity method arity ∧
          types.length ≤ arity ∧
          (types.length = arity →
            cache.executables.lookup method = some ⟨handle⟩)
  executables : ∀ method ty,
    cache.executables.lookup method = some ty →
      ∃ types returnType,
        cache.types.get? ty.raw =
            some ⟨.executable types returnType,
              .generated method⟩ ∧
          cache.HasArity method types.length

/- A cache without types remembers none. -/
private theorem current_of_empty
    {cache : Cache}
    (hTypes : ∀ handle, cache.types.get? handle = none)
    (hNone : cache.executables = []) :
    cache.Current := by
  refine ⟨?_, ?_⟩
  · intro handle types returnType method hType
    rw [hTypes] at hType
    cases hType
  · intro method ty hFound
    rw [hNone] at hFound
    cases hFound

/- It stays current if no method and no type of one is new. -/
private theorem Current.keep
    (hCurrent : before.Current)
    (hGrown : Grown before after)
    (hTypes : ∀ handle data method,
      after.types.get? handle = some data →
        data.origin = .generated method →
          data.kind.isExecutable = true →
            before.types.get? handle = some data)
    (hKinds : ∀ (id : ElementId) data,
      before.elements.get? id.raw = some data →
        ∃ data', after.elements.get? id.raw = some data' ∧
          data'.kind = data.kind)
    (hSame : after.executables = before.executables) :
    after.Current where
  types := by
    intro handle types returnType method hType
    rcases hCurrent.types handle types returnType method
      (hTypes handle _ method hType rfl rfl) with
      ⟨arity, hArity, hLength, hFound⟩
    rw [hSame]
    exact ⟨arity, hArity.keep (hKinds method), hLength, hFound⟩
  executables := by
    intro method ty hFound
    rw [hSame] at hFound
    rcases hCurrent.executables method ty hFound with
      ⟨types, returnType, hType, hArity⟩
    rcases hGrown.types.kept _ _ hType with ⟨_, hType', rfl⟩
    exact ⟨types, returnType, hType', hArity.keep (hKinds method)⟩

/- A type is made for a method of which none is remembered. -/
private theorem Current.withExecutable
    {method : ElementId}
    {types : List TypeId}
    (hCurrent : before.Current)
    (hArity : before.HasArity method types.length)
    (hMissing : before.executables.lookup method = none)
    (returnType : TypeId) :
    (before.withExecutable method types returnType).Current where
  types := by
    intro handle types' returnType' other hType
    rw [lookup_withExecutable]
    rcases get?_push_cases hType with ⟨rfl, hNew⟩ | hOld
    · cases hNew
      exact ⟨_, hArity, Nat.le_refl _, fun _ => if_pos rfl⟩
    · rcases hCurrent.types handle types' returnType' other
        hOld with ⟨arity, hOther, hLength, hFound⟩
      refine ⟨arity, hOther, hLength, ?_⟩
      intro hEqual
      rw [if_neg]
      · exact hFound hEqual
      · rintro rfl
        cases hMissing.symm.trans (hFound hEqual)
  executables := by
    intro other ty hFound
    rw [lookup_withExecutable] at hFound
    split at hFound
    · next hSame =>
      cases hSame
      cases hFound
      exact ⟨types, returnType, Generation.get?_push_next _ _,
        hArity⟩
    · rcases hCurrent.executables other ty hFound with
        ⟨types', returnType', hType, hOther⟩
      refine ⟨types', returnType', ?_, hOther⟩
      exact Generation.get?_push_of_get? hType _

/- A method gets a parameter, and its type is forgotten. -/
private theorem Current.withParameter
    {method : ElementId}
    (hCurrent : before.Current)
    (hMethod : ∃ arity, before.HasArity method arity)
    (name : Name)
    (ty : TypeId) :
    (before.withParameter method name ty).Current where
  types := by
    intro handle types returnType other hType
    rcases hCurrent.types handle types returnType other hType
      with ⟨arity, hOther, hLength, hFound⟩
    refine ⟨_, hOther.withParameter hMethod name ty, ?_, ?_⟩
    · split <;> omega
    · rw [lookup_withParameter]
      split
      · omega
      · exact hFound
  executables := by
    intro other found hFound
    rw [lookup_withParameter] at hFound
    split at hFound
    · cases hFound
    · next hDistinct =>
      rcases hCurrent.executables other found hFound with
        ⟨types, returnType, hType, hOther⟩
      have hStill := hOther.withParameter hMethod name ty
      rw [if_neg hDistinct] at hStill
      exact ⟨types, returnType, hType, hStill⟩

/- A change leaves a current cache. -/
theorem Current.change
    (hCurrent : before.Current)
    (hChange : Change strict before after) :
    after.Current := by
  have hGrown := hChange.grown
  cases hChange with
  | text text =>
      exact hCurrent.keep hGrown (fun _ _ _ hType _ _ => hType)
        (fun _ data hData => ⟨data, hData, rfl⟩) rfl
  | type data _ hUnowned _ =>
      apply hCurrent.keep hGrown ?_
        (fun _ data hData => ⟨data, hData, rfl⟩) rfl
      intro handle found method hType hOrigin _
      rcases get?_push_cases hType with ⟨_, rfl⟩ | hOld
      · exact absurd hOrigin (hUnowned method)
      · exact hOld
  | element data _ =>
      exact hCurrent.keep hGrown (fun _ _ _ hType _ _ => hType)
        (fun _ data hData =>
          ⟨data, Generation.get?_push_of_get? hData _, rfl⟩) rfl
  | declared name data _ _ =>
      apply hCurrent.keep hGrown ?_ (fun _ data hData =>
        ⟨data, Generation.get?_push_of_get? hData _, rfl⟩) rfl
      intro handle found method hType _ hKind
      rcases get?_push_cases hType with ⟨_, rfl⟩ | hOld
      · cases hKind
      · exact hOld
  | executable method types returnType hArity hMissing =>
      exact hCurrent.withExecutable hArity hMissing returnType
  | parameter method name ty hMethod =>
      exact hCurrent.withParameter hMethod name ty
  | modified id edit _ hKinds =>
      apply hCurrent.keep hGrown (fun _ _ _ hType _ _ => hType)
        ?_ rfl
      intro other data hData
      rw [elements_editElement, Generation.get?_modify, hData]
      split
      · exact ⟨_, rfl, hKinds data⟩
      · exact ⟨data, rfl, rfl⟩

------------------------------------------------------------
-- Sound Caches
------------------------------------------------------------

/-
  What is true of every cache, whatever the bindings: handles
  do not overlap with those of the fixed types, a generated
  type belongs to an element that was made, the bindings of
  the value primitives are wrapped as those, and what is
  remembered of generated methods is current.
-/
structure Sound (cache : Cache) : Prop where
  base : 2 ≤ cache.types.base
  owned : ∀ handle data element,
    cache.types.get? handle = some data →
      data.origin = .generated element →
        element.raw < cache.elements.next
  spelled : ∀ handle data kind,
    cache.types.get? handle = some data →
      data.origin = .host (BindingTable.primitive kind) →
        data.kind = .primitive kind
  current : cache.Current

/- The empty cache is sound. -/
theorem Sound.new : Sound {} where
  base := Nat.le_refl 2
  owned := by
    intro handle data element hType
    have hBounds := Generation.bounds_of_get? hType
    exact absurd hBounds.1 (Nat.not_le.mpr hBounds.2)
  spelled := by
    intro handle data kind hType
    have hBounds := Generation.bounds_of_get? hType
    exact absurd hBounds.1 (Nat.not_le.mpr hBounds.2)
  current := by
    refine current_of_empty ?_ rfl
    exact fun handle => get?_restart { base := 2 } handle

/- A reset leaves a sound cache. -/
theorem Sound.reset
    {cache : Cache}
    (hSound : cache.Sound) :
    cache.reset.Sound := by
  refine ⟨?_, ?_, ?_,
    current_of_empty (get?_restart cache.types) rfl⟩
  · have hBase := hSound.base
    simp only [Cache.reset, Generation.restart,
      Generation.next]
    omega
  · intro handle data element hType
    simp [Cache.reset, get?_restart] at hType
  · intro handle data kind hType
    simp [Cache.reset, get?_restart] at hType

/- In a sound cache the handles of types are not fixed ones. -/
theorem Sound.type?_of_get?
    {cache : Cache}
    (hSound : cache.Sound)
    {handle : Nat}
    {data : TypeData}
    (hType : cache.types.get? handle = some data) :
    cache.type? ⟨handle⟩ = some data := by
  have hBounds := Generation.bounds_of_get? hType
  have hBase := hSound.base
  unfold Cache.type? noType nullType
  have hNotNone : (⟨handle⟩ : TypeId) ≠ ⟨0⟩ := by
    intro hEq
    have := congrArg TypeId.raw hEq
    simp only at this
    omega
  have hNotNull : (⟨handle⟩ : TypeId) ≠ ⟨1⟩ := by
    intro hEq
    have := congrArg TypeId.raw hEq
    simp only at this
    omega
  rw [if_neg hNotNone, if_neg hNotNull]
  exact hType

/- A change leaves a sound cache. -/
theorem Change.sound
    (hChange : Change strict before after)
    (hSound : before.Sound) :
    after.Sound := by
  have hNext := hChange.grown.elements.next_le
  have hCurrent := hSound.current.change hChange
  have hOwned : ∀ handle data element,
      before.types.get? handle = some data →
        data.origin = .generated element →
          element.raw < after.elements.next :=
    fun handle data element hType hOrigin =>
      Nat.lt_of_lt_of_le
        (hSound.owned handle data element hType hOrigin) hNext
  cases hChange with
  | text text =>
      exact ⟨hSound.base, hOwned, hSound.spelled, hCurrent⟩
  | type data _ hUnowned hSpelled =>
      refine ⟨hSound.base, ?_, ?_, hCurrent⟩
      · intro handle found element hFound hOrigin
        rcases get?_push_cases hFound with ⟨_, rfl⟩ | hOld
        · exact absurd hOrigin (hUnowned element)
        · exact hOwned handle found element hOld hOrigin
      · intro handle found kind hFound hOrigin
        rcases get?_push_cases hFound with ⟨_, rfl⟩ | hOld
        · exact hSpelled kind hOrigin
        · exact hSound.spelled handle found kind hOld hOrigin
  | element data _ =>
      exact ⟨hSound.base, hOwned, hSound.spelled, hCurrent⟩
  | declared name data hGenerated _ =>
      refine ⟨hSound.base, ?_, ?_, hCurrent⟩
      · intro handle found element hFound hOrigin
        rcases get?_push_cases hFound with ⟨_, rfl⟩ | hOld
        · cases hOrigin
          rw [elements_pushElement, Generation.next_push]
          exact Nat.lt_succ_self _
        · exact hOwned handle found element hOld hOrigin
      · intro handle found kind hFound hOrigin
        rcases get?_push_cases hFound with ⟨_, rfl⟩ | hOld
        · cases hOrigin
        · exact hSound.spelled handle found kind hOld hOrigin
  | executable method types returnType hArity _ =>
      refine ⟨hSound.base, ?_, ?_, hCurrent⟩
      · intro handle found element hFound hOrigin
        rcases get?_push_cases hFound with ⟨_, rfl⟩ | hOld
        · cases hOrigin
          exact hArity.lt_next
        · exact hOwned handle found element hOld hOrigin
      · intro handle found kind hFound hOrigin
        rcases get?_push_cases hFound with ⟨_, rfl⟩ | hOld
        · cases hOrigin
        · exact hSound.spelled handle found kind hOld hOrigin
  | parameter method name ty _ =>
      exact ⟨hSound.base, hOwned, hSound.spelled, hCurrent⟩
  | modified id edit _ _ =>
      exact ⟨hSound.base, hOwned, hSound.spelled, hCurrent⟩

/- A cache stays sound. -/
theorem Changes.sound
    (hChanges : Changes strict before after)
    (hSound : before.Sound) :
    after.Sound := by
  induction hChanges with
  | refl => exact hSound
  | tail _ hChange ih => exact hChange.sound ih

end Cache

end Lowering
