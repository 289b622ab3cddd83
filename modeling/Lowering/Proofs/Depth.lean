import Mathlib.Data.Finset.Card
import Mathlib.Logic.Relation

/-
  This file proves that it is enough to follow steps to a depth
  above the number of items, where no item leads to itself.

  Main results:
    * `induction_within_depth`
-/

namespace Lowering

/-
  What holds one level deeper whenever it holds of everything
  that is reached in one step, holds at every depth above the
  number of items with steps, if no item leads to itself: the
  items that are reached become fewer with each step.
-/
theorem induction_within_depth
    {α : Type}
    [DecidableEq α]
    {R : α → α → Prop}
    (hAcyclic : ∀ item, ¬ Relation.TransGen R item item)
    (members : Finset α)
    (hMembers : ∀ item next, R item next → item ∈ members)
    {P : Nat → α → Prop}
    (hStep : ∀ depth item,
      (∀ next, R item next → P depth next) →
        P (depth + 1) item)
    (depth : Nat)
    (hDepth : members.card < depth)
    (item : α) :
    P depth item := by
  classical
  let reached : α → Finset α := fun item =>
    members.filter (Relation.ReflTransGen R item)
  have hFewer : ∀ item next, R item next →
      (reached next).card < (reached item).card := by
    intro item next hNext
    apply Finset.card_lt_card
    rw [Finset.ssubset_iff_of_subset]
    · refine ⟨item, ?_, ?_⟩
      · exact Finset.mem_filter.mpr
          ⟨hMembers item next hNext, Relation.ReflTransGen.refl⟩
      · intro hMem
        exact hAcyclic item (Relation.TransGen.head' hNext
          (Finset.mem_filter.mp hMem).2)
    · intro other hMem
      rcases Finset.mem_filter.mp hMem with ⟨hOther, hReach⟩
      exact Finset.mem_filter.mpr
        ⟨hOther, Relation.ReflTransGen.head hNext hReach⟩
  have hAll : ∀ depth item, (reached item).card < depth →
      P depth item := by
    intro depth
    induction depth with
    | zero => exact fun item hLess => absurd hLess (Nat.not_lt_zero _)
    | succ depth ih =>
        intro item hLess
        apply hStep
        intro next hNext
        apply ih
        have := hFewer item next hNext
        omega
  apply hAll
  exact Nat.lt_of_le_of_lt (Finset.card_filter_le _ _) hDepth

end Lowering
