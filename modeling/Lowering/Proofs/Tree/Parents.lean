import Mathlib.Data.List.Basic
import Lowering.Proofs.Tree.WellFormed

/-
  This file proves that an owner is never a lie: whatever was
  done to a tree, a node that has an owner is in a slot of it.

  So a node that is replaced always has a slot, and what a
  replacement does can be said slot by slot. It fills the
  first slot of the owner that held the old node, moves the
  owner from the old node to the new one, and changes nothing
  else, also where the new node was owned elsewhere or the
  owner holds the old one more than once.

  Key definitions include:
    * `Tree.Worked`
    * `Node.fields`
    * `Tree.Swapped`

  Main results:
    * `Tree.Worked.reached`
    * `Tree.swapped_of_edited`
    * `Tree.owners_list_what_they_own`
-/

namespace Lowering

/- What a node is, apart from its slots and its owner. -/
def Node.fields
    (node : Node) :
    NodeKind Unit × Option TypeId × Option ElementId :=
  (node.kind.shape, node.ty, node.element)

namespace Tree

------------------------------------------------------------
-- Work On Trees
------------------------------------------------------------

/-
  What can be done to a tree: edits and conversions of enums
  that succeed, in any order. The converter may do the same
  for every piece, and remember things between them.
-/
inductive Worked : Tree → Tree → Prop
  | same (tree : Tree) : Worked tree tree
  | edit
      {before middle after : Tree}
      (front : Worked before middle)
      (edit : Edit)
      (run : edit.perform middle = .ok () after) :
      Worked before after
  | convertEnum
      {σ μ : Type}
      {before middle after : Tree}
      {convert : σ → StateT μ TreeM NodeId}
      {source : EnumSource σ}
      {memory memory' : μ}
      {made : NodeId}
      (front : Worked before middle)
      (converts : ∀ piece memory tree id memory' tree',
        convert piece memory tree = .ok (id, memory') tree' →
          Worked tree tree')
      (run : Tree.convertEnum convert source memory middle =
        .ok (made, memory') after) :
      Worked before after

/- Work leads to no trees that edits do not lead to. -/
theorem Worked.reached
    {before after : Tree}
    (hWorked : Worked before after)
    (hReached : Reached before) :
    Reached after := by
  induction hWorked with
  | same tree => exact hReached
  | edit _ edit hRun ih => exact (ih hReached).edit edit hRun
  | @convertEnum σ μ before middle after convert source memory
      memory' made _ _ hRun ih hConverts =>
      have hConvert : ∀ piece,
          KeepsWith Reached (convert piece) := by
        rintro piece memory tree ⟨id, memory'⟩ tree' hRun
        exact hConverts piece memory tree id memory' tree' hRun
      exact Reached.convertEnum hConvert source memory middle
        (made, memory') after hRun (ih hReached)

------------------------------------------------------------
-- The First Place In A List
------------------------------------------------------------

section FirstPlace

variable {items : List NodeId}
variable {old new : NodeId}

private theorem idxOf_le_of_getElem?
    {place : Nat}
    (hPlace : items[place]? = some old) :
    items.idxOf old ≤ place := by
  have hTake : old ∈ items.take (place + 1) := by
    apply List.mem_of_getElem? (i := place)
    rw [List.getElem?_take_of_lt (Nat.lt_succ_self place)]
    exact hPlace
  have hMem : old ∈ items := List.mem_of_getElem? hPlace
  exact Nat.le_of_lt_succ
    ((List.mem_take_iff_idxOf_lt hMem).mp hTake)

/- Only the first place of an item is filled with another. -/
private theorem getElem?_replace_of_mem
    (hMem : old ∈ items)
    (place : Nat) :
    (items.replace old new)[place]? =
      if place = items.idxOf old then
        some new
      else
        items[place]? := by
  rw [List.getElem?_replace]
  by_cases hPlace : items[place]? = some old
  · rw [if_pos (beq_iff_eq.mpr hPlace)]
    have hFirst := idxOf_le_of_getElem? hPlace
    by_cases hEq : place = items.idxOf old
    · have hNot : old ∉ items.take place := by
        rw [List.mem_take_iff_idxOf_lt hMem, hEq]
        exact Nat.lt_irrefl _
      rw [if_neg hNot, if_pos hEq]
    · have hBefore : old ∈ items.take place := by
        rw [List.mem_take_iff_idxOf_lt hMem]
        omega
      rw [if_pos hBefore, if_neg hEq, hPlace]
  · have hEq : place ≠ items.idxOf old := by
      rintro rfl
      exact hPlace (List.getElem?_idxOf hMem)
    rw [if_neg (by simpa using hPlace), if_neg hEq]

end FirstPlace

------------------------------------------------------------
-- Replacements Slot By Slot
------------------------------------------------------------

/-
  What a replacement changes, which is three things: what the
  first slot that held the old node holds, and who owns the
  old node and the new one.
-/
structure Swapped
    (before after : Tree)
    (old new owner : NodeId)
    (slot : Nat) : Prop where
  size : after.size = before.size
  held : before.Occupies owner slot old
  first : ∀ earlier, earlier < slot →
    ¬ before.Occupies owner earlier old
  holds : after.Occupies owner slot new
  slots : ∀ n other child, (n, other) ≠ (owner, slot) →
    (after.Occupies n other child ↔
      before.Occupies n other child)
  freed : after.owner? old = none
  owned : after.owner? new = some owner
  owners : ∀ n, n ≠ old → n ≠ new →
    after.owner? n = before.owner? n
  fields : ∀ n, (after.get? n).map Node.fields =
    (before.get? n).map Node.fields

section Relinking

variable {tree after : Tree}
variable {old new parent : NodeId}

private theorem fields_relink
    (n : NodeId)
    (node : Node) :
    (relink old new parent n node).fields = node.fields := by
  unfold relink Node.fields
  split
  · rw [NodeKind.shape_withChildren _ List.length_replace]
  · rfl

/- The slots after a replacement. -/
private theorem occupies_iff_of_edited
    {owner : Node}
    (hEdited : Edited tree after (relink old new parent))
    (hOwner : tree.get? parent = some owner)
    (hListed : old ∈ owner.kind.children)
    (n : NodeId)
    (slot : Nat)
    (child : NodeId) :
    after.Occupies n slot child ↔
      if n = parent ∧ slot = owner.kind.children.idxOf old then
        child = new
      else
        tree.Occupies n slot child := by
  have hAfter : after.Occupies n slot child ↔
      ∃ stored, tree.get? n = some stored ∧
        (relink old new parent n stored).kind.children[slot]? =
          some child := by
    unfold Occupies
    rw [hEdited.get?]
    constructor
    · rintro ⟨_, hStored, hSlot⟩
      rcases Option.map_eq_some_iff.mp hStored with
        ⟨stored, hAt, rfl⟩
      exact ⟨stored, hAt, hSlot⟩
    · rintro ⟨stored, hAt, hSlot⟩
      exact ⟨_, by rw [hAt]; rfl, hSlot⟩
  rw [hAfter]
  simp only [children_relink]
  by_cases hEq : n = parent
  · subst hEq
    simp only [if_true, true_and, hOwner, Option.some.injEq,
      exists_eq_left', getElem?_replace_of_mem hListed]
    split
    · rw [Option.some.injEq]
      exact eq_comm
    · unfold Occupies
      simp only [hOwner, Option.some.injEq, exists_eq_left']
  · simp only [hEq, false_and, if_false]
    rfl

/- A replacement changes three things and nothing else. -/
theorem swapped_of_edited
    {owner : Node}
    (hNe : old ≠ new)
    (hNew : new.raw < tree.size)
    (hParent : tree.owner? old = some parent)
    (hOwner : tree.get? parent = some owner)
    (hListed : old ∈ owner.kind.children)
    (hEdited : Edited tree after (relink old new parent)) :
    Swapped tree after old new parent
      (owner.kind.children.idxOf old) := by
  have hSlots := occupies_iff_of_edited hEdited hOwner hListed
  have hOwners := hEdited.owner?
  rcases exists_get? hNew with ⟨fresh, hFresh⟩
  rcases Option.bind_eq_some_iff.mp hParent with
    ⟨stored, hOld, _⟩
  refine ⟨hEdited.size, ?_, ?_, ?_, ?_, ?_, ?_, ?_, ?_⟩
  · exact ⟨owner, hOwner, List.getElem?_idxOf hListed⟩
  · rintro earlier hEarlier ⟨found, hFound, hSlot⟩
    rw [hOwner] at hFound
    cases hFound
    have hFirst := idxOf_le_of_getElem? hSlot
    omega
  · rw [hSlots, if_pos ⟨rfl, rfl⟩]
  · intro n other child hOther
    rw [hSlots, if_neg]
    rintro ⟨rfl, rfl⟩
    exact hOther rfl
  · rw [hOwners, hOld]
    simp only [Option.bind_some, relink, if_neg hNe, if_true]
  · rw [hOwners, hFresh]
    simp only [Option.bind_some, relink, if_true]
  · intro n hNotOld hNotNew
    rw [hOwners]
    simp only [relink, if_neg hNotOld, if_neg hNotNew]
    rfl
  · intro n
    rw [hEdited.get?, Option.map_map]
    congr 1
    funext node
    exact fields_relink n node

end Relinking

/- A node is not listed only where its owner does not list it. -/
private theorem not_listed_of_run_replaceWith
    {tree after : Tree}
    {old new parent child : NodeId}
    (hRun : replaceWith old new tree =
      .error (.notListed parent child) after) :
    tree.owner? child = some parent ∧
      ∀ stored, tree.get? parent = some stored →
        child ∉ stored.kind.children := by
  have hReading : ∀ {n : NodeId} {before middle : Tree},
      TreeM.inspect (·.node n) before ≠
        .error (.notListed parent child) middle := by
    intro n before middle hRead
    unfold TreeM.inspect Tree.node at hRead
    cases hGet : before.get? n <;>
      simp only [hGet] at hRead <;> cases hRead
  have hChanging : ∀ {n : NodeId} {change : Node → Node}
      {before middle : Tree},
      modifyNode n change before ≠
        .error (.notListed parent child) middle := by
    intro n change before middle hModify
    unfold modifyNode at hModify
    split at hModify <;> cases hModify
  unfold replaceWith setParent setKind at hRun
  by_cases hEq : old = new
  · simp only [if_pos hEq] at hRun
    cases hRun
  simp only [if_neg hEq] at hRun
  rcases run_bind_eq_error hRun with
    hRead | ⟨node, _, hNode, hFreeing⟩
  · exact absurd hRead hReading
  rcases run_inspect_eq_ok hNode with ⟨hAt, rfl⟩
  have hOwned := owner?_of_get? (get?_of_node hAt)
  cases hParent : node.parent with
  | none =>
      simp only [hParent] at hFreeing
      cases hFreeing
  | some owner =>
      simp only [hParent] at hFreeing
      rcases run_bind_eq_error hFreeing with
        hFree | ⟨_, freed, hFree, hSeeing⟩
      · exact absurd hFree hChanging
      rcases edited_of_run_modifyNode hFree with ⟨_, hFreed⟩
      rcases run_bind_eq_error hSeeing with
        hRead | ⟨found, _, hFound, hSplicing⟩
      · exact absurd hRead hReading
      rcases run_inspect_eq_ok hFound with ⟨hFoundAt, rfl⟩
      by_cases hListed : old ∈ found.kind.children
      · simp only [if_pos hListed] at hSplicing
        rcases run_bind_eq_error hSplicing with
          hSplice | ⟨_, spliced, _, hOwning⟩
        · exact absurd hSplice hChanging
        · exact absurd hOwning hChanging
      · simp only [if_neg hListed] at hSplicing
        cases hSplicing
        refine ⟨hOwned.trans hParent, ?_⟩
        intro stored hStored hMem
        have hSame := hFreed.get?_some hStored
        rw [get?_of_node hFoundAt] at hSame
        rw [Option.some.inj hSame] at hListed
        apply hListed
        split <;> exact hMem

------------------------------------------------------------
-- Owners
------------------------------------------------------------

/-
  In every tree that was built and worked on, a node with an
  owner is in a slot of it, so a replacement never finds that
  the owner does not list the node. A node without owner is
  replaced without effect; one with an owner leaves its first
  slot there to the new node, and nothing else changes.
-/
theorem owners_list_what_they_own
    {tree : Tree}
    (hWorked : Worked {} tree) :
    (∀ n owner,
      tree.owner? n = some owner →
        ∃ slot, tree.Occupies owner slot n) ∧
    (∀ old new parent child after,
      replaceWith old new tree ≠
        .error (.notListed parent child) after) ∧
    (∀ old new,
      old ≠ new → old.raw < tree.size →
        tree.owner? old = none →
          replaceWith old new tree = .ok () tree) ∧
    (∀ old new owner,
      old ≠ new → new.raw < tree.size →
        tree.owner? old = some owner →
          ∃ after slot,
            replaceWith old new tree = .ok () after ∧
              Swapped tree after old new owner slot) := by
  have hLinked := (hWorked.reached .empty).linked
  refine ⟨?_, ?_, ?_, ?_⟩
  · intro n owner hOwner
    rcases hLinked.listed n owner hOwner with
      ⟨stored, hAt, hMem⟩
    exact (lists_iff hAt).mpr hMem
  · intro old new parent child after hRun
    rcases not_listed_of_run_replaceWith hRun with
      ⟨hOwner, hNot⟩
    rcases hLinked.listed child parent hOwner with
      ⟨stored, hAt, hMem⟩
    exact hNot stored hAt hMem
  · intro old new hNe hBound hFree
    exact run_replaceWith_free hNe hBound hFree
  · intro old new owner hNe hNew hOwner
    rcases hLinked.listed old owner hOwner with
      ⟨stored, hAt, hMem⟩
    rcases run_replaceWith hNe hNew hOwner hAt hMem with
      ⟨after, hRun, hEdited⟩
    exact ⟨after, _, hRun, swapped_of_edited hNe hNew hOwner hAt
      hMem hEdited⟩

/-
  A name that an initializer lists twice, and an enum whose
  name was converted.
-/
def twiceListed : Tree := ⟨#[
  { kind := .simpleName ⟨1⟩
    parent := some ⟨1⟩ },
  { kind := .arrayInitializer [⟨0⟩, ⟨0⟩] },
  { kind := .simpleName ⟨2⟩
    parent := some ⟨3⟩ },
  { kind := .enumDeclaration none [] ⟨2⟩ [] [] }]⟩

/- Convert a name, counting the names that were converted. -/
def convertName (identifier : Name) : StateT Nat TreeM NodeId := do
  modify (· + 1)
  liftM (simpleName identifier none none)

theorem worked_twiceListed : Worked {} twiceListed := by
  have hName : Worked {} _ :=
    (Worked.same {}).edit
      (.alloc (.simpleName ⟨1⟩) none none) rfl
  have hList : Worked {} _ :=
    hName.edit (.alloc (.arrayInitializer [⟨0⟩]) none none) rfl
  have hTaken : Worked {} _ := hList.edit (.take ⟨0⟩) rfl
  have hTwice : Worked {} _ :=
    hTaken.edit (.pushChild ⟨1⟩ .expressions ⟨0⟩) rfl
  refine @Worked.convertEnum Name Nat _ _ twiceListed
    convertName { name := ⟨2⟩ } 0 1 ⟨3⟩ hTwice ?_ rfl
  intro piece memory tree id memory' tree' hRun
  cases hRun
  exact (Worked.same tree).edit
    (.alloc (.simpleName piece) none none) rfl

/-
  The name of the enum is stolen: it fills the first of the
  two slots, and the enum lists it still.
-/
theorem owners_list_what_they_own_twiceListed :
    Worked {} twiceListed ∧
      twiceListed.owner? ⟨0⟩ = some ⟨1⟩ ∧
      (∃ slot, twiceListed.Occupies ⟨1⟩ slot ⟨0⟩) ∧
      ∃ after,
        replaceWith ⟨0⟩ ⟨2⟩ twiceListed = .ok () after ∧
          Swapped twiceListed after ⟨0⟩ ⟨2⟩ ⟨1⟩ 0 ∧
          after.Occupies ⟨3⟩ 0 ⟨2⟩ := by
  have hOwner : twiceListed.owner? ⟨0⟩ = some ⟨1⟩ := rfl
  rcases owners_list_what_they_own worked_twiceListed with
    ⟨hListed, _, _, hReplaced⟩
  rcases hReplaced ⟨0⟩ ⟨2⟩ ⟨1⟩ (by decide) (by decide) hOwner
    with ⟨after, slot, hRun, hSwapped⟩
  have hSlot : slot = 0 := by
    rcases Nat.eq_zero_or_pos slot with hZero | hLater
    · exact hZero
    · exact absurd ⟨_, rfl, rfl⟩ (hSwapped.first 0 hLater)
  subst hSlot
  refine ⟨worked_twiceListed, hOwner, hListed _ _ hOwner, after,
    hRun, hSwapped, ?_⟩
  exact (hSwapped.slots ⟨3⟩ 0 ⟨2⟩ (by decide)).mpr
    ⟨_, rfl, rfl⟩

end Tree

end Lowering
