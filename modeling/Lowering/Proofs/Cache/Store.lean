import Lowering.Interner
import Lowering.Cache.Generation

/-
  This file proves how the two stores of the cache answer
  questions, and that they go on answering them in the same
  way as they grow.

  A grown store has every item of the smaller one at its old
  handle. An item is found by the least handle that has the
  property, so what was found is found again.

  Key definitions include:
    * `Generation.Grown`
    * `Interner.Grown`

  Main results:
    * `Generation.find?_push`
    * `Generation.Grown.find?`
    * `Interner.find?_intern`
    * `Interner.Grown.find?`
-/

namespace Lowering

namespace Generation

variable {α : Type}

------------------------------------------------------------
-- Handles
------------------------------------------------------------

/- The live handles lie between the base and the next one. -/
theorem bounds_of_get?
    {generation : Generation α}
    {handle : Nat}
    {item : α}
    (hItem : generation.get? handle = some item) :
    generation.base ≤ handle ∧ handle < generation.next := by
  unfold get? at hItem
  split at hItem
  · simp at hItem
  · rcases Array.getElem?_eq_some_iff.mp hItem with ⟨hBound, _⟩
    unfold next
    omega

/- A generation without items has none at any handle. -/
theorem get?_ne_of_empty
    {generation : Generation α}
    (hItems : generation.items = #[])
    {handle : Nat}
    {item : α} :
    generation.get? handle ≠ some item := by
  intro hFound
  have hBounds := bounds_of_get? hFound
  simp only [next, hItems] at hBounds
  exact absurd hBounds.1 (Nat.not_le.mpr hBounds.2)

theorem exists_get?
    {generation : Generation α}
    {handle : Nat}
    (hBase : generation.base ≤ handle)
    (hNext : handle < generation.next) :
    ∃ item, generation.get? handle = some item := by
  unfold next at hNext
  have hBound : handle - generation.base <
      generation.items.size := by
    omega
  refine ⟨generation.items[handle - generation.base], ?_⟩
  unfold get?
  rw [if_neg (Nat.not_lt.mpr hBase)]
  exact Array.getElem?_eq_getElem hBound

------------------------------------------------------------
-- Pushing And Modifying
------------------------------------------------------------

theorem next_push
    (generation : Generation α) (item : α) :
    (generation.push item).next = generation.next + 1 := by
  unfold next push
  simp only [Array.size_push]
  omega

theorem get?_push
    (generation : Generation α)
    (item : α)
    (handle : Nat) :
    (generation.push item).get? handle =
      if handle = generation.next then
        some item
      else
        generation.get? handle := by
  unfold get? push next
  simp only [Array.getElem?_push]
  by_cases hLow : handle < generation.base
  · have hNe : handle ≠
        generation.base + generation.items.size := by
      omega
    simp only [if_pos hLow, if_neg hNe]
  · simp only [if_neg hLow]
    by_cases hEq : handle =
        generation.base + generation.items.size
    · have hIndex : handle - generation.base =
          generation.items.size := by
        omega
      simp only [if_pos hEq, if_pos hIndex]
    · have hIndex : handle - generation.base ≠
          generation.items.size := by
        omega
      simp only [if_neg hEq, if_neg hIndex]

theorem get?_push_next
    (generation : Generation α) (item : α) :
    (generation.push item).get? generation.next =
      some item := by
  rw [get?_push, if_pos rfl]

/- What is live stays where it is. -/
theorem get?_push_of_get?
    {generation : Generation α}
    {handle : Nat}
    {found : α}
    (hFound : generation.get? handle = some found)
    (item : α) :
    (generation.push item).get? handle = some found := by
  have hLow := (bounds_of_get? hFound).2
  rw [get?_push, if_neg (Nat.ne_of_lt hLow)]
  exact hFound

@[simp] theorem base_modify
    (generation : Generation α)
    (handle : Nat)
    (change : α → α) :
    (generation.modify handle change).base =
      generation.base := by
  unfold modify
  split <;> rfl

theorem get?_modify
    (generation : Generation α)
    (handle other : Nat)
    (change : α → α) :
    (generation.modify handle change).get? other =
      if other = handle then
        (generation.get? other).map change
      else
        generation.get? other := by
  unfold modify get?
  by_cases hLow : handle < generation.base
  · simp only [if_pos hLow]
    by_cases hEq : other = handle
    · simp only [hEq, if_pos hLow, if_true, Option.map_none]
    · simp only [hEq, if_false]
  · simp only [if_neg hLow, Array.getElem?_modify]
    by_cases hEq : other = handle
    · simp only [hEq, if_neg hLow, if_true]
    · by_cases hOther : other < generation.base
      · simp only [hEq, if_pos hOther, if_false]
      · have hIndex : handle - generation.base ≠
            other - generation.base := by
          omega
        simp only [hEq, if_neg hOther, hIndex, if_false]

------------------------------------------------------------
-- Searching
------------------------------------------------------------

/- An item is found by the least handle with the property. -/
theorem find?_eq_some_iff
    {generation : Generation α}
    {property : α → Bool}
    {handle : Nat} :
    generation.find? property = some handle ↔
      (∃ item,
        generation.get? handle = some item ∧
          property item = true) ∧
        ∀ other item, other < handle →
          generation.get? other = some item →
            property item = false := by
  unfold find? get?
  constructor
  · intro hFind
    rcases Option.map_eq_some_iff.mp hFind with
      ⟨index, hIndex, hHandle⟩
    rcases Array.findIdx?_eq_some_iff_getElem.mp hIndex with
      ⟨hBound, hHas, hLess⟩
    subst hHandle
    constructor
    · refine ⟨generation.items[index], ?_, hHas⟩
      rw [if_neg (by omega), Nat.add_sub_cancel_left]
      exact Array.getElem?_eq_getElem hBound
    · intro other item hOther hItem
      split at hItem
      · simp at hItem
      · rcases Array.getElem?_eq_some_iff.mp hItem with
          ⟨hBound', hEq⟩
        rw [← hEq]
        have hNot := hLess (other - generation.base) (by omega)
        simpa using hNot
  · rintro ⟨⟨item, hItem, hHas⟩, hLess⟩
    split at hItem
    · simp at hItem
    · next hBase =>
      rcases Array.getElem?_eq_some_iff.mp hItem with
        ⟨hBound, hEq⟩
      apply Option.map_eq_some_iff.mpr
      refine ⟨handle - generation.base, ?_, by omega⟩
      apply Array.findIdx?_eq_some_iff_getElem.mpr
      refine ⟨hBound, ?_, ?_⟩
      · rw [hEq]
        exact hHas
      · intro index hIndex
        have hNot := hLess (generation.base + index)
          generation.items[index] (by omega) (by
            rw [if_neg (by omega), Nat.add_sub_cancel_left]
            exact Array.getElem?_eq_getElem (by omega))
        simp [hNot]

theorem find?_eq_none_iff
    {generation : Generation α}
    {property : α → Bool} :
    generation.find? property = none ↔
      ∀ handle item,
        generation.get? handle = some item →
          property item = false := by
  constructor
  · intro hFind handle item hItem
    unfold find? at hFind
    rw [Option.map_eq_none_iff,
      Array.findIdx?_eq_none_iff] at hFind
    unfold get? at hItem
    split at hItem
    · simp at hItem
    · rcases Array.getElem?_eq_some_iff.mp hItem with
        ⟨hBound, hEq⟩
      rw [← hEq]
      exact hFind _ (Array.getElem_mem hBound)
  · intro hNone
    cases hFind : generation.find? property with
    | none => rfl
    | some handle =>
        rcases (find?_eq_some_iff.mp hFind).1 with
          ⟨item, hItem, hHas⟩
        rw [hNone handle item hItem] at hHas
        simp at hHas

/- A pushed item is found if none was found before. -/
theorem find?_push
    {generation : Generation α}
    {property : α → Bool}
    {item : α}
    (hNone : generation.find? property = none)
    (hHas : property item = true) :
    (generation.push item).find? property =
      some generation.next := by
  apply find?_eq_some_iff.mpr
  constructor
  · exact ⟨item, get?_push_next generation item, hHas⟩
  · intro other found hOther hFound
    rw [get?_push, if_neg (by omega)] at hFound
    exact find?_eq_none_iff.mp hNone other found hFound

------------------------------------------------------------
-- Growing
------------------------------------------------------------

/-
  A later state of a generation: every item is still there, up
  to a relation that says what a change of it keeps.
-/
structure Grown
    (Kept : α → α → Prop)
    (before after : Generation α) : Prop where
  base : after.base = before.base
  kept : ∀ handle item,
    before.get? handle = some item →
      ∃ item', after.get? handle = some item' ∧ Kept item item'

namespace Grown

variable {Kept : α → α → Prop}
variable {first second third : Generation α}

theorem refl
    (hRefl : ∀ item, Kept item item)
    (generation : Generation α) :
    Grown Kept generation generation where
  base := rfl
  kept := fun _ item hItem => ⟨item, hItem, hRefl item⟩

theorem trans
    (hTrans : ∀ a b c, Kept a b → Kept b c → Kept a c)
    (hFirst : Grown Kept first second)
    (hSecond : Grown Kept second third) :
    Grown Kept first third := by
  refine ⟨hSecond.base.trans hFirst.base, ?_⟩
  intro handle item hItem
  rcases hFirst.kept handle item hItem with
    ⟨item', hItem', hKept⟩
  rcases hSecond.kept handle item' hItem' with
    ⟨item'', hItem'', hKept'⟩
  exact ⟨item'', hItem'', hTrans _ _ _ hKept hKept'⟩

theorem push
    (hRefl : ∀ item, Kept item item)
    (generation : Generation α)
    (item : α) :
    Grown Kept generation (generation.push item) := by
  refine ⟨rfl, ?_⟩
  intro handle found hFound
  refine ⟨found, ?_, hRefl found⟩
  have hBounds := bounds_of_get? hFound
  rw [get?_push, if_neg (by omega)]
  exact hFound

theorem modify
    (hRefl : ∀ item, Kept item item)
    (generation : Generation α)
    (handle : Nat)
    {change : α → α}
    (hChange : ∀ item, generation.get? handle = some item →
      Kept item (change item)) :
    Grown Kept generation (generation.modify handle change) := by
  refine ⟨base_modify _ _ _, ?_⟩
  intro other item hItem
  rw [get?_modify, hItem]
  by_cases hEq : other = handle
  · exact ⟨change item, by simp [hEq],
      hChange item (hEq ▸ hItem)⟩
  · exact ⟨item, by simp [hEq], hRefl item⟩

/- Handles are never given back. -/
theorem next_le
    (hGrown : Grown Kept first second) :
    first.next ≤ second.next := by
  rcases Nat.lt_or_ge first.base first.next with hSome | hNone
  · have hLast : ∃ item,
        first.get? (first.next - 1) = some item :=
      exists_get? (by omega) (by omega)
    rcases hLast with ⟨item, hItem⟩
    rcases hGrown.kept _ item hItem with ⟨item', hItem', _⟩
    have hBounds := bounds_of_get? hItem'
    omega
  · have hBase := hGrown.base
    have hEmpty : first.next = first.base := by
      unfold next at hNone ⊢
      omega
    unfold next at hEmpty ⊢
    omega

/- What was found by a property that is kept is found again. -/
theorem find?
    (hGrown : Grown Kept first second)
    {property : α → Bool}
    (hProperty : ∀ a b, Kept a b → property a = property b)
    {handle : Nat}
    (hFind : first.find? property = some handle) :
    second.find? property = some handle := by
  rcases find?_eq_some_iff.mp hFind with
    ⟨⟨item, hItem, hHas⟩, hLess⟩
  rcases hGrown.kept handle item hItem with
    ⟨item', hItem', hKept⟩
  apply find?_eq_some_iff.mpr
  constructor
  · exact ⟨item', hItem', hProperty _ _ hKept ▸ hHas⟩
  · intro other found hOther hFound
    have hBounds := bounds_of_get? hItem
    have hBounds' := bounds_of_get? hFound
    have hBase := hGrown.base
    have hBefore : ∃ item, first.get? other = some item :=
      exists_get? (by omega) (by omega)
    rcases hBefore with ⟨old, hOld⟩
    rcases hGrown.kept other old hOld with
      ⟨old', hOld', hKept'⟩
    rw [hOld'] at hFound
    rw [← Option.some.inj hFound, ← hProperty _ _ hKept']
    exact hLess other old hOther hOld

end Grown

end Generation

------------------------------------------------------------
-- Interners
------------------------------------------------------------

namespace Interner

/- A text is found by the least name that has it. -/
private theorem find?_eq_some_iff
    {interner : Interner}
    {text : String}
    {name : Name}
    (hText : text ≠ "") :
    interner.find? text = some name ↔
      ∃ index,
        name = ⟨index + 1⟩ ∧
          interner.texts[index]? = some text ∧
          ∀ other, other < index →
            interner.texts[other]? ≠ some text := by
  unfold find?
  rw [if_neg hText, interner.indexed, Option.map_eq_some_iff]
  constructor
  · rintro ⟨index, hIndex, hName⟩
    rcases Array.findIdx?_eq_some_iff_getElem.mp hIndex with
      ⟨hBound, hHas, hLess⟩
    refine ⟨index, hName.symm, ?_, ?_⟩
    · rw [Array.getElem?_eq_getElem hBound]
      exact congrArg some (beq_iff_eq.mp hHas)
    · intro other hOther hFound
      rcases Array.getElem?_eq_some_iff.mp hFound with
        ⟨hBound', hEq⟩
      exact hLess other hOther (beq_iff_eq.mpr hEq)
  · rintro ⟨index, hName, hFound, hLess⟩
    rcases Array.getElem?_eq_some_iff.mp hFound with
      ⟨hBound, hEq⟩
    refine ⟨index, ?_, hName.symm⟩
    apply Array.findIdx?_eq_some_iff_getElem.mpr
    refine ⟨hBound, beq_iff_eq.mpr hEq, ?_⟩
    intro other hOther hSame
    apply hLess other hOther
    rw [Array.getElem?_eq_getElem (by omega)]
    exact congrArg some (beq_iff_eq.mp hSame)

/- The name that is found for a text has that text. -/
theorem text?_of_find?
    {interner : Interner}
    {text : String}
    {name : Name}
    (hFind : interner.find? text = some name) :
    interner.text? name = some text := by
  by_cases hText : text = ""
  · unfold find? at hFind
    rw [if_pos hText] at hFind
    rw [← Option.some.inj hFind, hText]
    rfl
  · rcases (find?_eq_some_iff hText).mp hFind with
      ⟨index, hName, hFound, _⟩
    rw [hName]
    exact hFound

/- An interned text is found under its name. -/
theorem find?_intern
    (interner : Interner)
    (text : String) :
    (interner.intern text).2.find? text =
      some (interner.intern text).1 := by
  unfold intern
  cases hFind : interner.find? text with
  | some name => exact hFind
  | none =>
      have hText : text ≠ "" := by
        intro hEq
        unfold find? at hFind
        rw [if_pos hEq] at hFind
        simp at hFind
      apply (find?_eq_some_iff hText).mpr
      refine ⟨interner.texts.size, rfl, ?_, ?_⟩
      · exact Array.getElem?_push_size
      · intro other hOther hFound
        unfold find? at hFind
        rw [if_neg hText, interner.indexed,
          Option.map_eq_none_iff,
          Array.findIdx?_eq_none_iff] at hFind
        change (interner.texts.push text)[other]? = _ at hFound
        rw [Array.getElem?_push, if_neg (by omega)] at hFound
        rcases Array.getElem?_eq_some_iff.mp hFound with
          ⟨hBound, hEq⟩
        have hNot := hFind _ (Array.getElem_mem hBound)
        rw [hEq] at hNot
        simp at hNot

/- A text that has a name is given that name. -/
theorem intern_of_find?
    {interner : Interner}
    {text : String}
    {name : Name}
    (hFind : interner.find? text = some name) :
    interner.intern text = (name, interner) := by
  unfold intern
  rw [hFind]

/- A later state of an interner: every name has its text. -/
def Grown (before after : Interner) : Prop :=
  ∀ name text,
    before.text? name = some text →
      after.text? name = some text

theorem Grown.refl (interner : Interner) :
    Grown interner interner := by
  intro name text hText
  exact hText

theorem Grown.trans
    {first second third : Interner}
    (hFirst : Grown first second)
    (hSecond : Grown second third) :
    Grown first third := by
  intro name text hText
  exact hSecond name text (hFirst name text hText)

theorem Grown.intern
    (interner : Interner)
    (text : String) :
    Grown interner (interner.intern text).2 := by
  intro name found hFound
  unfold Interner.intern
  cases hFind : interner.find? text with
  | some _ => exact hFound
  | none =>
      unfold text? at hFound ⊢
      split at hFound
      · exact hFound
      · next index hRaw =>
        rcases Array.getElem?_eq_some_iff.mp hFound with
          ⟨hBound, _⟩
        show (interner.texts.push text)[index]? = some found
        rw [Array.getElem?_push, if_neg (by omega)]
        exact hFound

/- A text that was found is found again. -/
theorem Grown.find?
    {before after : Interner}
    (hGrown : Grown before after)
    {text : String}
    {name : Name}
    (hFind : before.find? text = some name) :
    after.find? text = some name := by
  by_cases hText : text = ""
  · unfold Interner.find? at hFind ⊢
    rw [if_pos hText] at hFind ⊢
    exact hFind
  · rcases (find?_eq_some_iff hText).mp hFind with
      ⟨index, hName, hFound, hLess⟩
    apply (find?_eq_some_iff hText).mpr
    refine ⟨index, hName, hGrown ⟨index + 1⟩ text hFound, ?_⟩
    intro other hOther hOtherFound
    rcases Array.getElem?_eq_some_iff.mp hFound with
      ⟨hBound, _⟩
    have hOld : before.texts[other]? =
        some before.texts[other] :=
      Array.getElem?_eq_getElem (by omega)
    have hSame := hGrown ⟨other + 1⟩ _ hOld
    have hEq : some before.texts[other] = some text :=
      hSame.symm.trans hOtherFound
    exact hLess other hOther (hOld.trans hEq)

end Interner

end Lowering
