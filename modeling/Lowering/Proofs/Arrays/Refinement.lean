import Lowering.Proofs.Arrays.Start

/-
  This file proves that the pass, which rewrites a tree in
  place, refines the lowering of views, which is a recursion on
  finite trees.

  Main results:
    * `Arrays.lower_refines_views`
-/

namespace Lowering

namespace Arrays

/-
  If a run answers, the node that it answers has the view that
  the view of the root is lowered to. Operands are neither lost
  nor used twice nor put in another order, and no construct is
  passed over, at whatever depth they are nested.
-/
theorem lower_refines_views
    {table : BindingTable}
    {options : Options}
    {root result : NodeId}
    {before after : Workspace}
    (hStart : Start table root before)
    (hRun : lower table options root before =
      .ok result after) :
    ∃ assigned view lowered,
      before.tree.isAssigned root = .ok assigned ∧
        before.tree.view? root = some view ∧
        after.tree.view? result = some lowered ∧
        lower? after.symbols table options assigned false
          view = some lowered := by
  rcases hStart.finish hRun with ⟨old, new, rfl, hFinish⟩
  rcases hFinish.lowered with ⟨assigned, hAssigned, hView⟩
  have hOld := hFinish.standing
  have hNew := hFinish.stands
  refine ⟨assigned, old.view, new.view, hAssigned, ?_, ?_, hView⟩
  · exact hOld.holds.view?_eq hOld.nodup
  · rw [hFinish.answer]
    exact hNew.holds.view?_eq hNew.nodup

/- An element that is read becomes the lowering of its view. -/
theorem lower_refines_views_readItem :
    ∃ after assigned view lowered,
      lower ⟨#[]⟩ {} ⟨2⟩ readItem = .ok ⟨6⟩ after ∧
        readItem.tree.isAssigned ⟨2⟩ = .ok assigned ∧
        readItem.tree.view? ⟨2⟩ = some view ∧
        after.tree.view? ⟨6⟩ = some lowered ∧
        lower? after.symbols ⟨#[]⟩ {} assigned false view =
          some lowered := by
  rcases lower_refines_views start_readItem
    run_lower_readItem with ⟨assigned, view, lowered, hViews⟩
  exact ⟨_, assigned, view, lowered, run_lower_readItem,
    hViews⟩

end Arrays

end Lowering
