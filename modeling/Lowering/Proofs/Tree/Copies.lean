import Lowering.Proofs.Tree.Steady
import Lowering.Proofs.Tree.Unfolding

/-
  This file proves that a deep copy is a tree of its own. It is
  made of new nodes only, one for each place in the unfolding
  of what is copied, each of them owned by the one node that
  lists it. Nothing else changes, and the copy has the view of
  what it was made of.

  Later work on one of the two trees cannot be seen in the
  other: to edit nodes that are not reached from a root, or
  that were made later, changes no view from that root.

  Key definitions include:
    * `Tree.Edit.nodes`
    * `Tree.WorkedOn`
    * `Tree.Untouched`

  Main results:
    * `Tree.Untouched.edit`
    * `Tree.WorkedOn.view?_eq`
    * `Tree.copies_are_fresh_and_independent`
-/

namespace Lowering

namespace Tree

------------------------------------------------------------
-- Work On Some Nodes
------------------------------------------------------------

/- The nodes that an edit is about. -/
def Edit.nodes : Edit → List NodeId
  | alloc kind _ _ => kind.children
  | setType id _ => [id]
  | setElement id _ => [id]
  | setRetained id => [id]
  | pushChild parent _ child => [parent, child]
  | take id => [id]
  | replaceWith old new => [old, new]
  | deepCopy id => [id]

/-
  Work on some nodes of a tree, and on those that are made in
  its course: edits that are about no other nodes.
-/
inductive WorkedOn
    (start : Tree)
    (mine : NodeId → Prop) : Tree → Prop
  | start : WorkedOn start mine start
  | edit
      {before after : Tree}
      (worked : WorkedOn start mine before)
      (edit : Edit)
      (own : ∀ n ∈ edit.nodes, mine n ∨ start.size ≤ n.raw)
      (run : edit.perform before = .ok () after) :
      WorkedOn start mine after

/- Some nodes look as they did, and no node was lost. -/
structure Untouched
    (start : Tree)
    (theirs : NodeId → Prop)
    (now : Tree) : Prop where
  grown : start.size ≤ now.size
  same : ∀ n, theirs n → start.SameAt now n

namespace Untouched

variable {start before after : Tree}
variable {theirs : NodeId → Prop}

theorem refl
    (start : Tree)
    (theirs : NodeId → Prop) :
    Untouched start theirs start where
  grown := Nat.le_refl _
  same := fun n _ => SameAt.refl start n

private theorem edited
    {edit : NodeId → Node → Node}
    (hUntouched : Untouched start theirs before)
    (hEdited : Edited before after edit)
    (hSame : ∀ n node, theirs n →
      before.get? n = some node →
        (edit n node).label = node.label ∧
          (edit n node).kind.children = node.kind.children) :
    Untouched start theirs after where
  grown := by
    rw [hEdited.size]
    exact hUntouched.grown
  same := by
    intro n hTheirs
    apply (hUntouched.same n hTheirs).trans
    exact hEdited.sameAt fun node => hSame n node hTheirs

private theorem modified
    {id : NodeId}
    {change : Node → Node}
    (hUntouched : Untouched start theirs before)
    (hApart : ¬ theirs id)
    (hRun : modifyNode id change before = .ok () after) :
    Untouched start theirs after := by
  apply hUntouched.edited (edited_of_run_modifyNode hRun).2
  intro n node hTheirs _
  have hNe : n ≠ id := by
    intro hEq
    rw [hEq] at hTheirs
    exact hApart hTheirs
  simp only [if_neg hNe, and_self]

private theorem keeps_alloc
    (start : Tree)
    (theirs : NodeId → Prop)
    (kind : NodeKind NodeId)
    (ty : Option TypeId)
    (element : Option ElementId) :
    Keeps (Untouched start theirs) (Tree.alloc kind ty element)
    := by
  intro before id after hRun hUntouched
  have hExtended := (of_run_alloc hRun).2
  constructor
  · have hGrown := hUntouched.grown
    have hSize := hExtended.size
    omega
  · intro n hTheirs
    exact (hUntouched.same n hTheirs).trans (hExtended.sameAt n)

/-
  An edit about other nodes leaves nodes untouched, if these
  list only one another. A replacement does change a node that
  it is not about, the owner of the replaced one, but that
  owner lists the replaced node and so is none of them.
-/
theorem edit
    {edit : Edit}
    (hUntouched : Untouched start theirs before)
    (hPresent : ∀ n, theirs n → n.raw < start.size)
    (hClosed : ∀ n m, theirs n → start.Lists n m → theirs m)
    (hApart : ∀ n ∈ edit.nodes, ¬ theirs n)
    (hRun : edit.perform before = .ok () after) :
    Untouched start theirs after := by
  cases edit with
  | alloc kind ty element =>
      exact Keeps.discard (keeps_alloc _ _ kind ty element)
        _ _ _ hRun hUntouched
  | setType id ty =>
      exact hUntouched.modified (hApart id (by simp [Edit.nodes]))
        hRun
  | setElement id element =>
      exact hUntouched.modified (hApart id (by simp [Edit.nodes]))
        hRun
  | setRetained id =>
      rcases run_bind_eq_ok hRun with ⟨_, _, hMark, hLast⟩
      cases hLast
      rcases of_run_setRetained hMark with
        hSame | ⟨_, _, _, _, hSet⟩
      · rw [hSame]
        exact hUntouched
      · exact hUntouched.modified
          (hApart id (by simp [Edit.nodes])) hSet
  | pushChild parent slot child =>
      rcases of_run_pushChild hRun with ⟨_, _, _, _, _, hEdited⟩
      apply hUntouched.edited hEdited
      intro n node hTheirs _
      have hNe : n ≠ parent := by
        intro hEq
        rw [hEq] at hTheirs
        exact hApart parent (by simp [Edit.nodes]) hTheirs
      simp only [adopt, Node.label, if_neg hNe, and_self]
  | take id =>
      rcases run_bind_eq_ok hRun with ⟨_, _, hTake, hDone⟩
      cases hDone
      rcases run_bind_eq_ok hTake with ⟨_, _, hFree, hLast⟩
      cases hLast
      exact hUntouched.modified (hApart id (by simp [Edit.nodes]))
        hFree
  | replaceWith old new =>
      rcases of_run_replaceWith hRun with
        ⟨_, hSame⟩ |
          ⟨parent, owner, _, hOwner, hListed, _, _, hEdited⟩
      · rw [hSame]
        exact hUntouched
      · apply hUntouched.edited hEdited
        intro n node hTheirs _
        have hNe : n ≠ parent := by
          intro hEq
          rcases exists_get? (hPresent n hTheirs) with
            ⟨stored, hAt⟩
          rcases hUntouched.same n hTheirs stored hAt with
            ⟨stored', hAt', _, hChildren⟩
          rw [hEq, hOwner] at hAt'
          cases hAt'
          rw [hChildren, ← lists_iff hAt] at hListed
          exact hApart old (by simp [Edit.nodes])
            (hClosed n old hTheirs hListed)
        simp only [relink, Node.label, if_neg hNe, and_self]
  | deepCopy id =>
      exact Keeps.discard
        (Keeps.deepCopy (keeps_alloc start theirs) id)
        _ _ _ hRun hUntouched

end Untouched

variable {tree start later : Tree}
variable {root id : NodeId}
variable {mine theirs : NodeId → Prop}

/- Work on some nodes leaves others untouched. -/
theorem WorkedOn.untouched
    (hWorked : start.WorkedOn mine later)
    (hPresent : ∀ n, theirs n → n.raw < start.size)
    (hClosed : ∀ n m, theirs n → start.Lists n m → theirs m)
    (hApart : ∀ n, theirs n → ¬ mine n) :
    Untouched start theirs later := by
  induction hWorked with
  | start => exact Untouched.refl start theirs
  | edit _ edit hOwn hRun ih =>
      apply ih.edit hPresent hClosed ?_ hRun
      intro n hMem hTheirs
      rcases hOwn n hMem with hMine | hNew
      · exact hApart n hTheirs hMine
      · have hOld := hPresent n hTheirs
        omega

/-
  Work on nodes that are not reached from a root changes no
  view from that root.
-/
theorem WorkedOn.view?_eq
    {unfolding : Placed}
    (hWorked : start.WorkedOn mine later)
    (hShows : start.Shows unfolding)
    (hHeight : unfolding.height ≤ start.size + 1)
    (hApart : ∀ n ∈ unfolding.ids, ¬ mine n) :
    later.view? unfolding.id = some unfolding.view := by
  have hStill : Untouched start (· ∈ unfolding.ids) later :=
    hWorked.untouched hShows.lt_size
      (fun _ _ hMem => hShows.mem_of_lists hMem) hApart
  have hGrown := hStill.grown
  exact (hShows.frame hStill.same).view?_of_height (by omega)

------------------------------------------------------------
-- New Trees
------------------------------------------------------------

namespace Building

variable {before now : Tree}
variable {copy : Placed}
variable {n owner : NodeId}

/- What was there is as it was when only new nodes were made. -/
theorem kept_old
    (hBuilding : Building before now [] [copy])
    (hOld : n.raw < before.size) :
    now.get? n = before.get? n :=
  hBuilding.kept n hOld (hBuilding.not_mem hOld (by simp))

/- The only tree that was built is held. -/
theorem holds_only
    (hBuilding : Building before now [] [copy]) :
    now.Holds copy ∧ copy.ids.Nodup := by
  constructor
  · exact hBuilding.holds copy (by simp)
  · have hNodup := hBuilding.nodup
    rw [Placed.idsAll_cons, Placed.idsAll_nil, List.append_nil]
      at hNodup
    exact hNodup

/- A tree as large as the store has grown is all that is new. -/
theorem below_iff
    (hBuilding : Building before now [] [copy])
    (hSize : now.size = before.size + copy.ids.length) :
    now.Below copy.id n ↔
      before.size ≤ n.raw ∧ n.raw < now.size := by
  rcases hBuilding.holds_only with ⟨hHolds, hNodup⟩
  have hBounds : ∀ m ∈ copy.ids,
      before.size ≤ m.raw ∧ m.raw < now.size := by
    intro m hMem
    have hIn : m ∈ Placed.idsAll [copy] :=
      Placed.ids_subset_idsAll (by simp) hMem
    rcases hBuilding.origin m hIn with hMoved | hNew
    · simp at hMoved
    · exact ⟨hNew, hHolds.lt_size m hMem⟩
  rw [hHolds.below_iff]
  constructor
  · exact hBounds n
  · intro hNew
    apply Placed.mem_ids_of_length hNodup
    · rw [← hSize]
      exact hBounds
    · exact hNew.1
    · omega

/-
  A new node that is listed anywhere was listed there before it
  was made, or is in the slot of the one new node that owns it.
-/
theorem owned_slot
    (hBuilding : Building before now [] [copy])
    (hSize : now.size = before.size + copy.ids.length)
    (hBelow : now.Below copy.id n)
    (hNe : n ≠ copy.id) :
    ∃ owner slot,
      now.Below copy.id owner ∧
        now.Occupies owner slot n ∧
        now.owner? n = some owner ∧
        ∀ owner' slot', now.Occupies owner' slot' n →
          before.Occupies owner' slot' n ∨
            (owner' = owner ∧ slot' = slot) := by
  rcases hBuilding.holds_only with ⟨hHolds, hNodup⟩
  have hFormed := hHolds.wellFormed hNodup
  rcases Relation.ReflTransGen.cases_tail hBelow with
    hEq | ⟨owner, hOwner, hLists⟩
  · exact absurd hEq hNe
  have hOwned := hFormed.owned owner n hOwner hLists
  rcases hLists with ⟨slot, hSlot⟩
  refine ⟨owner, slot, hOwner, hSlot, hOwned, ?_⟩
  intro owner' slot' hSlot'
  by_cases hOld : owner'.raw < before.size
  · left
    rcases hSlot' with ⟨stored, hAt, hListed⟩
    rw [hBuilding.kept_old hOld] at hAt
    exact ⟨stored, hAt, hListed⟩
  · right
    rcases hSlot' with ⟨stored, hAt, hListed⟩
    have hNew : now.Below copy.id owner' := by
      rw [hBuilding.below_iff hSize]
      exact ⟨Nat.le_of_not_lt hOld, lt_size_of_get? hAt⟩
    exact hFormed.once owner' owner slot' slot n hNew hOwner
      ⟨stored, hAt, hListed⟩ hSlot

end Building

------------------------------------------------------------
-- Copies
------------------------------------------------------------

/-
  What is shown can be copied, in any tree. Nothing is built
  but the copy.
-/
theorem Shows.exists_copy
    {unfolding : Placed}
    (hShows : tree.Shows unfolding)
    (hHeight : unfolding.height ≤ tree.size + 1) :
    ∃ copied copy,
      deepCopy unfolding.id tree = .ok copy.id copied ∧
        copy.view = unfolding.view ∧
        copied.size = tree.size + copy.ids.length ∧
        copy.id.raw + 1 = copied.size ∧
        Building tree copied [] [copy] := by
  rcases (Building.start tree).copyShown hShows hHeight
      (by simp) with
    ⟨copied, copy, hRun, hView, hSize, hLast, hBuilding⟩
  rw [← Placed.length_ids_of_view hView] at hSize
  exact ⟨copied, copy, hRun, hView, hSize, hLast, hBuilding⟩

/-
  A node can be copied in every tree, if slots lead from it to
  nodes that are there and never back, whoever owns them and
  however often they are listed.

  The copy is one new node for each place in the unfolding, its
  root the last of them and without owner. Each of the others
  is in one slot, that of its owner, apart from slots that
  already pointed there before there was a node. All older
  nodes are what they were. Original and copy have one view,
  and to work on what is reached from one of them, and on what
  is made on the way, never changes the view of the other.
-/
theorem copies_are_fresh_and_independent
    (hPresent : ∀ n, tree.Below id n → (tree.get? n).isSome)
    (hAcyclic : ∀ n, tree.Below id n →
      ¬ Relation.TransGen tree.Lists n n) :
    ∃ unfolding copied copy,
      unfolding.id = id ∧
        tree.Shows unfolding ∧
        deepCopy id tree = .ok copy copied ∧
        (∀ n : NodeId, n.raw < tree.size →
          copied.get? n = tree.get? n) ∧
        copied.size = tree.size + unfolding.ids.length ∧
        copy.raw + 1 = copied.size ∧
        copied.owner? copy = none ∧
        (∀ n, copied.Below copy n ↔
          tree.size ≤ n.raw ∧ n.raw < copied.size) ∧
        (∀ n, copied.Below copy n → n ≠ copy →
          ∃ owner slot,
            copied.Below copy owner ∧
              copied.Occupies owner slot n ∧
              copied.owner? n = some owner ∧
              ∀ owner' slot', copied.Occupies owner' slot' n →
                tree.Occupies owner' slot' n ∨
                  (owner' = owner ∧ slot' = slot)) ∧
        tree.view? id = some unfolding.view ∧
        copied.view? id = some unfolding.view ∧
        copied.view? copy = some unfolding.view ∧
        (∀ later, copied.WorkedOn (copied.Below copy) later →
          later.view? id = some unfolding.view) ∧
        (∀ later, copied.WorkedOn (copied.Below id) later →
          later.view? copy = some unfolding.view) := by
  rcases exists_unfolding hPresent hAcyclic with
    ⟨unfolding, rfl, hShows, hHeight⟩
  rcases hShows.exists_copy hHeight with
    ⟨copied, copy, hRun, hView, hSize, hLast, hBuilding⟩
  rcases hBuilding.holds_only with ⟨hHolds, hNodup⟩
  have hStill : copied.Shows unfolding := by
    apply hShows.frame
    intro n hMem
    exact sameAt_of_get?_eq
      (hBuilding.kept_old (hShows.lt_size n hMem))
  have hHigh : unfolding.height ≤ copied.size + 1 := by
    omega
  have hLow : copy.height ≤ copied.size + 1 :=
    Nat.le_succ_of_le (hHolds.height_le hNodup)
  have hApart : ∀ n ∈ unfolding.ids, n ∉ copy.ids := by
    intro n hOld hNew
    have hBound := hShows.lt_size n hOld
    rw [← hHolds.below_iff, hBuilding.below_iff hSize] at hNew
    omega
  have hBefore : ∀ later,
      copied.WorkedOn (copied.Below copy.id) later →
        later.view? unfolding.id = some unfolding.view := by
    intro later hWorked
    apply hWorked.view?_eq hStill hHigh
    intro n hMem
    rw [hHolds.below_iff]
    exact hApart n hMem
  have hAfter : ∀ later,
      copied.WorkedOn (copied.Below unfolding.id) later →
        later.view? copy.id = some unfolding.view := by
    intro later hWorked
    rw [← hView]
    apply hWorked.view?_eq hHolds.shows hLow
    intro n hMem
    rw [hStill.below_iff]
    exact fun hOld => hApart n hOld hMem
  refine ⟨unfolding, copied, copy.id, rfl, hShows, hRun, ?_, ?_,
    hLast, ?_, ?_, ?_, hShows.view?_of_height hHeight, ?_, ?_,
    hBefore, hAfter⟩
  · exact fun n hOld => hBuilding.kept_old hOld
  · rw [hSize, Placed.length_ids_of_view hView]
  · exact hBuilding.free copy (by simp)
  · exact fun n => hBuilding.below_iff hSize
  · exact fun n hBelow hNe =>
      hBuilding.owned_slot hSize hBelow hNe
  · exact hBefore copied .start
  · exact hAfter copied .start

/- An initializer with a literal twice, which it does not own. -/
def doubled : Tree := ⟨#[
  { kind := .nullLiteral },
  { kind := .arrayInitializer [⟨0⟩, ⟨0⟩] }]⟩

/- The same, and a copy that has and owns two literals. -/
def undoubled : Tree := ⟨#[
  { kind := .nullLiteral },
  { kind := .arrayInitializer [⟨0⟩, ⟨0⟩] },
  { kind := .nullLiteral
    parent := some ⟨4⟩ },
  { kind := .nullLiteral
    parent := some ⟨4⟩ },
  { kind := .arrayInitializer [⟨2⟩, ⟨3⟩] }]⟩

/- The copy can be worked on, and the original keeps its view. -/
theorem copies_are_fresh_and_independent_doubled :
    (∀ n, doubled.Below ⟨1⟩ n → (doubled.get? n).isSome) ∧
      (∀ n, doubled.Below ⟨1⟩ n →
        ¬ Relation.TransGen doubled.Lists n n) ∧
      deepCopy ⟨1⟩ doubled = .ok ⟨4⟩ undoubled ∧
      undoubled.view? ⟨4⟩ = doubled.view? ⟨1⟩ ∧
      ∀ later, undoubled.WorkedOn (undoubled.Below ⟨4⟩) later →
        later.view? ⟨1⟩ = doubled.view? ⟨1⟩ := by
  have hPresent : ∀ n, doubled.Below ⟨1⟩ n →
      (doubled.get? n).isSome :=
    fun n hBelow =>
      ListsOlder.present (by decide) (by decide) hBelow
  have hAcyclic : ∀ n, doubled.Below ⟨1⟩ n →
      ¬ Relation.TransGen doubled.Lists n n :=
    fun n _ => ListsOlder.not_cyclic (by decide) n
  have hRun : deepCopy ⟨1⟩ doubled = .ok ⟨4⟩ undoubled := rfl
  rcases copies_are_fresh_and_independent hPresent hAcyclic with
    ⟨unfolding, copied, copy, _, _, hCopy, _, _, _, _, _, _,
      hView, _, hCopyView, hLater, _⟩
  rw [hRun] at hCopy
  cases hCopy
  rw [hView]
  exact ⟨hPresent, hAcyclic, hRun, hCopyView, hLater⟩

end Tree

end Lowering
