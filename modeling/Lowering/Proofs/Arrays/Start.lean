import Lowering.Proofs.Tree.WellFormed
import Lowering.Proofs.Symbols.Session
import Lowering.Proofs.Arrays.Walk

/-
  This file describes what a run of the pass starts from: a
  tree that edits have built and that is well formed under the
  root of the run, and symbols in use.

  From there, a run puts a lowered subtree into the place of
  the root. It ends in a fault only if it was not safe to ask
  about some node below the root.

  Key definitions include:
    * `Arrays.Start`
    * `Arrays.SafeBelow`
    * `Arrays.Finish`
    * `Arrays.readItem`

  Main results:
    * `Arrays.Start.completes`
-/

namespace Lowering

namespace Arrays

------------------------------------------------------------
-- Before And After
------------------------------------------------------------

/- What a run of the pass starts from. -/
structure Start
    (table : BindingTable)
    (root : NodeId)
    (before : Workspace) : Prop where
  reached : before.tree.Reached
  formed : before.tree.WellFormed root
  session : Symbols.Session table before.symbols

/- It is safe to ask about each node below a root. -/
def SafeBelow (root : NodeId) (before : Workspace) : Prop :=
  ∀ n node,
    before.tree.Below root n →
      before.tree.get? n = some node →
        node.label.Safe before.cache

/- What a run leaves in the place of a subtree. -/
structure Finish
    (table : BindingTable)
    (options : Options)
    (result : NodeId)
    (before after : Workspace)
    (old new : Placed) : Prop where
  standing : before.tree.Standing old
  answer : result = new.id
  root : after.root = result
  ready : after.symbols.Ready
  replaced : Tree.Replaced before.tree after.tree old new
  lowered : ∃ assigned,
    before.tree.isAssigned old.id = .ok assigned ∧
      lower? after.symbols table options assigned false
        old.view = some new.view

/- What stands after a run. -/
theorem Finish.stands
    {table : BindingTable}
    {options : Options}
    {result : NodeId}
    {before after : Workspace}
    {old new : Placed}
    (hFinish : Finish table options result before after
      old new) :
    after.tree.Standing new :=
  hFinish.replaced.standing hFinish.standing

------------------------------------------------------------
-- Runs
------------------------------------------------------------

/- It is safe to ask about what is held below a root. -/
theorem safe_view
    {workspace : Workspace}
    {placed : Placed}
    (hHolds : workspace.tree.Holds placed)
    (hSafe : SafeBelow placed.id workspace) :
    placed.view.Safe workspace.cache := by
  have hEach : ∀ n ∈ placed.ids, ∀ node,
      workspace.tree.get? n = some node →
        node.label.Safe workspace.cache := by
    intro n hMem node hNode
    exact hSafe n node (hHolds.below_iff.mpr hMem) hNode
  clear hSafe
  induction placed with
  | node id label children ih =>
      rw [Placed.view_node]
      refine .node ?_ ?_
      · rcases hHolds.stored with ⟨stored, hAt, hLabel, _⟩
        rw [Placed.label_node] at hLabel
        rw [← hLabel]
        exact hEach id (by simp) stored hAt
      · intro child hMem
        rcases List.mem_map.mp hMem with ⟨below, hBelow, rfl⟩
        apply ih below hBelow (hHolds.child hBelow)
        intro n hIn
        exact hEach n (Placed.ids_child_subset hBelow hIn)

/-
  A run answers with what is lowered, or with a violation. It
  is only where asking is not safe that it can also fault.
-/
theorem Start.completes
    {table : BindingTable}
    {root : NodeId}
    {before : Workspace}
    {safe : Prop}
    (hStart : Start table root before)
    (options : Options)
    (hSafe : safe → SafeBelow root before) :
    Completes safe (lower table options root before)
      fun result after => ∃ old new,
        old.id = root ∧
          Finish table options result before after old new := by
  rcases hStart.formed.standing hStart.reached with
    ⟨old, rfl, hStanding⟩
  rcases hStanding.isAssigned_ok with ⟨assigned, hAssigned⟩
  have hRun := completes_lower table options hStanding
    hStart.session.ready
    (fun h => safe_view hStanding.holds (hSafe h)) hAssigned
  apply hRun.mono
  rintro result after ⟨hRoot, new, hNew, hLowered, hView⟩
  exact ⟨old, new, rfl, {
    standing := hStanding
    answer := hNew
    root := hRoot.symm
    ready := hLowered.ready
    replaced := hLowered.replaced
    lowered := ⟨assigned, hAssigned, hView⟩ }⟩

/- What a successful run has done. -/
theorem Start.finish
    {table : BindingTable}
    {options : Options}
    {root result : NodeId}
    {before after : Workspace}
    (hStart : Start table root before)
    (hRun : lower table options root before =
      .ok result after) :
    ∃ old new,
      old.id = root ∧
        Finish table options result before after old new := by
  have hCompletes := hStart.completes options False.elim
  rw [hRun] at hCompletes
  exact hCompletes

------------------------------------------------------------
-- A Statement To Lower
------------------------------------------------------------

/- A new cache that knows the name `items`. -/
def itemsCache : Cache :=
  finalState ((Cache.Operation.intern (some "items")).perform
    ⟨#[]⟩ {})

/- The symbols of a new environment over it. -/
def itemsSymbols : Symbols :=
  (Symbols.create? itemsCache).get (by decide +kernel)

/- The statement that returns the first of some objects. -/
def readItem : Workspace where
  tree := ⟨#[
    { kind := .simpleName ⟨1⟩
      parent := some ⟨2⟩ },
    { kind := .numberLiteral 0
      parent := some ⟨2⟩ },
    { kind := .arrayAccess ⟨0⟩ ⟨1⟩
      ty := some ⟨12⟩
      parent := some ⟨3⟩ },
    { kind := .returnStatement (some ⟨2⟩) }]⟩
  cache := itemsSymbols.cache
  env := itemsSymbols.env

theorem reached_readItem : readItem.tree.Reached := by
  have hItems := Tree.Reached.empty.edit
    (.alloc (.simpleName ⟨1⟩) none none) rfl
  have hIndex := hItems.edit
    (.alloc (.numberLiteral 0) none none) rfl
  have hRead := hIndex.edit
    (.alloc (.arrayAccess ⟨0⟩ ⟨1⟩) (some ⟨12⟩) none) rfl
  exact hRead.edit
    (.alloc (.returnStatement (some ⟨2⟩)) none none) rfl

theorem holds_readItem :
    readItem.tree.Holds (.node ⟨2⟩
      ⟨.arrayAccess () (), some ⟨12⟩, none⟩
      [.node ⟨0⟩ ⟨.simpleName ⟨1⟩, none, none⟩ [],
        .node ⟨1⟩ ⟨.numberLiteral 0, none, none⟩ []]) := by
  have hItems : readItem.tree.Holds
      (.node ⟨0⟩ ⟨.simpleName ⟨1⟩, none, none⟩ []) :=
    .node rfl rfl rfl (by simp) (by simp)
  have hIndex : readItem.tree.Holds
      (.node ⟨1⟩ ⟨.numberLiteral 0, none, none⟩ []) :=
    .node rfl rfl rfl (by simp) (by simp)
  refine .node rfl rfl rfl ?_ ?_
  · simp only [List.mem_cons, List.not_mem_nil, or_false,
      forall_eq_or_imp, forall_eq]
    exact ⟨rfl, rfl⟩
  · simp only [List.mem_cons, List.not_mem_nil, or_false,
      forall_eq_or_imp, forall_eq]
    exact ⟨hItems, hIndex⟩

/- Lowering can start at what is returned. -/
theorem start_readItem : Start ⟨#[]⟩ ⟨2⟩ readItem where
  reached := reached_readItem
  formed := holds_readItem.wellFormed (by simp)
  session := by
    have hItems : Cache.Reached (⟨#[]⟩, itemsCache) :=
      (Cache.Reached.new ⟨#[]⟩).later
        (.perform (.intern (some "items")) (.same _ _))
    have hCreate : Symbols.create? itemsCache =
        some itemsSymbols :=
      (Option.some_get _).symm
    exact Symbols.Session.of_create? hItems hCreate

/- It is replaced by a call that is built of copies. -/
theorem run_lower_readItem :
    lower ⟨#[]⟩ {} ⟨2⟩ readItem =
      .ok ⟨6⟩ (finalState (lower ⟨#[]⟩ {} ⟨2⟩ readItem)) := by
  apply eq_ok_of_answer?
  decide +kernel

end Arrays

end Lowering
