import Lowering.Proofs.Tree.Parents

/-
  This file proves that slots and owners tell the same as long
  as nodes are not taken and are only replaced by free nodes. A
  node is then in a slot of another exactly when the other owns
  it, and is in no second slot, wherever in the store.

  All operations that fill slots do one thing: one node gets
  free nodes into its slots, and loses others from them. A new
  node loses none, appending gives one node, and a replacement
  gives one node for one that is lost.

  Key definitions include:
    * `Tree.Edit.Careful`
    * `Tree.WorkedCarefully`
    * `Tree.slots`
    * `Tree.Exclusive`

  Main results:
    * `Tree.Exclusive.relisted`
    * `Tree.WorkedCarefully.exclusive`
    * `Tree.slots_tell_owners`
-/

namespace Lowering

namespace Tree

------------------------------------------------------------
-- Careful Work
------------------------------------------------------------

/- An edit that leaves no slot behind and steals no node. -/
def Edit.Careful (tree : Tree) : Edit → Prop
  | take _ => False
  | replaceWith _ new => tree.owner? new = none
  | _ => True

/-
  Work that consists of careful edits, and of conversions of
  enums by a converter that works carefully itself wherever the
  conversion may take it.
-/
inductive WorkedCarefully : Tree → Tree → Prop
  | same (tree : Tree) : WorkedCarefully tree tree
  | edit
      {before middle after : Tree}
      (front : WorkedCarefully before middle)
      (edit : Edit)
      (careful : edit.Careful middle)
      (run : edit.perform middle = .ok () after) :
      WorkedCarefully before after
  | convertEnum
      {σ μ : Type}
      {before middle after : Tree}
      {convert : σ → StateT μ TreeM NodeId}
      {seen : μ → Tree → Prop}
      {source : EnumSource σ}
      {memory memory' : μ}
      {made : NodeId}
      (front : WorkedCarefully before middle)
      (start : seen memory middle)
      (stays : ∀ piece memory tree id memory' tree',
        convert piece memory tree = .ok (id, memory') tree' →
          seen memory tree →
            seen memory' tree')
      (converts : ∀ piece memory tree id memory' tree',
        convert piece memory tree = .ok (id, memory') tree' →
          seen memory tree →
            WorkedCarefully tree tree')
      (run : Tree.convertEnum convert source memory middle =
        .ok (made, memory') after) :
      WorkedCarefully before after

------------------------------------------------------------
-- Slots
------------------------------------------------------------

/- What the slots of a node hold, in order. -/
def slots (tree : Tree) (id : NodeId) : List NodeId :=
  ((tree.get? id).map (·.kind.children)).getD []

theorem slots_of_get?
    {tree : Tree}
    {id : NodeId}
    {stored : Node}
    (hAt : tree.get? id = some stored) :
    tree.slots id = stored.kind.children := by
  rw [slots, hAt]
  rfl

theorem occupies_iff_slots
    {tree : Tree}
    {owner child : NodeId}
    {slot : Nat} :
    tree.Occupies owner slot child ↔
      (tree.slots owner)[slot]? = some child := by
  unfold Occupies slots
  cases tree.get? owner with
  | none => simp
  | some stored => simp

theorem exists_occupies_iff
    {tree : Tree}
    {owner child : NodeId} :
    (∃ slot, tree.Occupies owner slot child) ↔
      child ∈ tree.slots owner := by
  simp only [occupies_iff_slots, List.mem_iff_getElem?]

/-
  Slots and owners tell the same, and no node is in two slots
  of its owner.
-/
structure Exclusive (tree : Tree) : Prop where
  mem_slots_iff : ∀ owner child,
    child ∈ tree.slots owner ↔ tree.owner? child = some owner
  nodup_slots : ∀ owner, (tree.slots owner).Nodup

theorem Exclusive.empty : Exclusive {} where
  mem_slots_iff := by
    intro owner child
    simp [slots, owner?, get?]
  nodup_slots := by
    intro owner
    simp [slots, get?]

/- In an exclusive tree, a free node is in no slot. -/
theorem Exclusive.not_mem_of_free
    {tree : Tree}
    {owner child : NodeId}
    (hExclusive : tree.Exclusive)
    (hFree : tree.owner? child = none) :
    child ∉ tree.slots owner := by
  intro hMem
  rw [hExclusive.mem_slots_iff, hFree] at hMem
  exact absurd hMem (by simp)

/- An exclusive tree has one slot for each owned node. -/
theorem Exclusive.slot_unique
    {tree : Tree}
    {owner owner' child : NodeId}
    {slot slot' : Nat}
    (hExclusive : tree.Exclusive)
    (hSlot : tree.Occupies owner slot child)
    (hSlot' : tree.Occupies owner' slot' child) :
    owner = owner' ∧ slot = slot' := by
  have hOwner := (hExclusive.mem_slots_iff owner child).mp
    (exists_occupies_iff.mp ⟨slot, hSlot⟩)
  have hOwner' := (hExclusive.mem_slots_iff owner' child).mp
    (exists_occupies_iff.mp ⟨slot', hSlot'⟩)
  rw [hOwner, Option.some.injEq] at hOwner'
  subst hOwner'
  rw [occupies_iff_slots] at hSlot hSlot'
  rcases List.getElem?_eq_some_iff.mp hSlot with ⟨hLt, _⟩
  refine ⟨rfl, ?_⟩
  exact (List.getElem?_inj hLt
    (hExclusive.nodup_slots owner)).mp
      (hSlot.trans hSlot'.symm)

------------------------------------------------------------
-- Steps
------------------------------------------------------------

section Steps

variable {before after : Tree}

/- What changes neither slots nor owners keeps them agreeing. -/
theorem Exclusive.congr
    (hExclusive : before.Exclusive)
    (hSlots : ∀ n, after.slots n = before.slots n)
    (hOwners : ∀ n, after.owner? n = before.owner? n) :
    after.Exclusive where
  mem_slots_iff := by
    intro owner child
    rw [hSlots, hOwners]
    exact hExclusive.mem_slots_iff owner child
  nodup_slots := by
    intro owner
    rw [hSlots]
    exact hExclusive.nodup_slots owner

/-
  Slots and owners still tell the same after one node got free
  nodes into its slots and kept some of the others, if what it
  got is owned by it and what it lost is free.
-/
theorem Exclusive.relisted
    (hExclusive : before.Exclusive)
    (parent : NodeId)
    (given kept : List NodeId)
    (hFree : ∀ n ∈ given, before.owner? n = none)
    (hNodup : given.Nodup)
    (hKept : kept.Sublist (before.slots parent))
    (hParent : (after.slots parent).Perm (given ++ kept))
    (hOthers : ∀ n, n ≠ parent →
      after.slots n = before.slots n)
    (hOwners : ∀ n, after.owner? n =
      if n ∈ given then
        some parent
      else if n ∈ before.slots parent ∧ n ∉ kept then
        none
      else
        before.owner? n) :
    after.Exclusive where
  mem_slots_iff := by
    intro owner child
    have hBefore := hExclusive.mem_slots_iff
    have hSlots : child ∈ after.slots owner ↔
        if owner = parent then
          child ∈ given ∨ child ∈ kept
        else
          child ∈ before.slots owner := by
      by_cases hEq : owner = parent
      · rw [if_pos hEq, hEq, hParent.mem_iff, List.mem_append]
      · rw [if_neg hEq, hOthers owner hEq]
    rw [hSlots, hOwners]
    by_cases hGiven : child ∈ given
    · have hNot : child ∉ before.slots owner :=
        hExclusive.not_mem_of_free (hFree child hGiven)
      simp only [hGiven, hNot, if_true, true_or,
        Option.some.injEq]
      split
      · next hEq => exact iff_of_true trivial hEq.symm
      · next hNe =>
        exact iff_of_false (fun hFalse => hFalse)
          (fun hEq => hNe hEq.symm)
    · simp only [hGiven, if_false, false_or]
      by_cases hListed : child ∈ before.slots parent
      · have hOwned := (hBefore parent child).mp hListed
        by_cases hStays : child ∈ kept
        · simp only [hStays, not_true_eq_false, and_false,
            if_false, hOwned, hBefore, Option.some.injEq]
          split
          · next hEq => exact iff_of_true trivial hEq.symm
          · rfl
        · simp only [hStays, hListed, hOwned, hBefore,
            not_false_eq_true, and_self, if_true,
            Option.some.injEq]
          split
          · simp
          · next hNe =>
            exact iff_of_false (fun hEq => hNe hEq.symm)
              (by simp)
      · have hGone : child ∉ kept := fun hStays =>
          hListed (hKept.subset hStays)
        simp only [hListed, hGone, false_and, if_false]
        split
        · next hEq =>
          rw [hEq, ← hBefore parent child]
          exact iff_of_false (fun hFalse => hFalse) hListed
        · exact hBefore owner child
  nodup_slots := by
    intro owner
    by_cases hEq : owner = parent
    · rw [hEq, hParent.nodup_iff, List.nodup_append]
      refine ⟨hNodup,
        hKept.nodup (hExclusive.nodup_slots parent), ?_⟩
      rintro n hGiven m hStays rfl
      exact hExclusive.not_mem_of_free (hFree n hGiven)
        (hKept.subset hStays)
    · rw [hOthers owner hEq]
      exact hExclusive.nodup_slots owner

end Steps

------------------------------------------------------------
-- Operations
------------------------------------------------------------

/- There are no slots where there is no node. -/
private theorem slots_of_size_le
    {tree : Tree}
    {id : NodeId}
    (hBound : ¬ id.raw < tree.size) :
    tree.slots id = [] := by
  cases hAt : tree.get? id with
  | none =>
      rw [slots, hAt]
      rfl
  | some stored => exact absurd (lt_size_of_get? hAt) hBound

private theorem owner?_of_size_le
    {tree : Tree}
    {id : NodeId}
    (hBound : ¬ id.raw < tree.size) :
    tree.owner? id = none := by
  cases hAt : tree.get? id with
  | none =>
      rw [owner?, hAt]
      rfl
  | some stored => exact absurd (lt_size_of_get? hAt) hBound

section Extending

variable {before after : Tree}
variable {node : Node}

private theorem Extended.slots_older
    (hExtended : Extended before after node)
    (n : NodeId)
    (hNe : n ≠ ⟨before.size⟩) :
    after.slots n = before.slots n := by
  by_cases hBound : n.raw < before.size
  · rw [slots, hExtended.older n hBound, Option.map_map, slots]
    congr 2
    funext old
    show NodeKind.children (Node.kind (if _ then _ else _)) = _
    split <;> rfl
  · rw [slots_of_size_le hBound, slots_of_size_le]
    rw [hExtended.size]
    exact fun hLt => hNe (eq_made hBound hLt)

private theorem Extended.owner?
    (hExtended : Extended before after node)
    (hBounds : ∀ n ∈ node.kind.children, n.raw < before.size)
    (hFree : node.parent = none)
    (n : NodeId) :
    after.owner? n =
      if n ∈ node.kind.children then
        some ⟨before.size⟩
      else
        before.owner? n := by
  by_cases hBound : n.raw < before.size
  · rcases exists_get? hBound with ⟨old, hOld⟩
    have hAt := hExtended.older n hBound
    rw [hOld, Option.map_some] at hAt
    rw [owner?_of_get? hAt, owner?_of_get? hOld]
    split <;> rfl
  · rw [if_neg (fun hMem => hBound (hBounds n hMem)),
      owner?_of_size_le hBound]
    by_cases hEq : n = ⟨before.size⟩
    · rw [hEq, owner?_of_get? hExtended.made, hFree]
    · apply owner?_of_size_le
      rw [hExtended.size]
      exact fun hLt => hEq (eq_made hBound hLt)

end Extending

private theorem exclusive_alloc
    (kind : NodeKind NodeId)
    (ty : Option TypeId)
    (element : Option ElementId) :
    Keeps Exclusive (alloc kind ty element) := by
  intro before id after hRun hExclusive
  rcases free_of_run_alloc hRun with ⟨_, hFree, hNodup⟩
  rcases of_run_alloc hRun with ⟨hBounds, hExtended⟩
  have hNone : before.slots ⟨before.size⟩ = [] :=
    slots_of_size_le (Nat.lt_irrefl _)
  refine hExclusive.relisted ⟨before.size⟩ kind.children []
    hFree hNodup (List.nil_sublist _) ?_
    hExtended.slots_older ?_
  · rw [slots_of_get? hExtended.made, List.append_nil]
  · intro n
    rw [hExtended.owner? hBounds rfl, hNone]
    simp only [List.not_mem_nil, false_and, if_false]

/- The slots after an edit of nodes. -/
private theorem Edited.slots
    {before after : Tree}
    {edit : NodeId → Node → Node}
    (hEdited : Edited before after edit)
    (n : NodeId)
    (hSame : ∀ node, before.get? n = some node →
      (edit n node).kind.children = node.kind.children) :
    after.slots n = before.slots n := by
  cases hAt : before.get? n with
  | none => rw [Tree.slots, Tree.slots, hEdited.get?, hAt]; rfl
  | some node =>
      rw [slots_of_get? (hEdited.get?_some hAt),
        slots_of_get? hAt, hSame node hAt]

private theorem exclusive_modifyNode
    {before after : Tree}
    {id : NodeId}
    {change : Node → Node}
    (hExclusive : before.Exclusive)
    (hRun : modifyNode id change before = .ok () after)
    (hChildren : ∀ node, before.get? id = some node →
      (change node).kind.children = node.kind.children)
    (hParent : ∀ node, (change node).parent = node.parent) :
    after.Exclusive := by
  rcases edited_of_run_modifyNode hRun with ⟨_, hEdited⟩
  apply hExclusive.congr
  · intro n
    apply hEdited.slots
    intro node hAt
    split
    · next hEq =>
      rw [hEq] at hAt
      exact hChildren node hAt
    · rfl
  · intro n
    rw [hEdited.owner?, Tree.owner?]
    congr 1
    funext node
    split
    · exact hParent node
    · rfl

private theorem exclusive_pushChild
    (parent : NodeId)
    (slot : ListSlot)
    (child : NodeId) :
    Keeps Exclusive (pushChild parent slot child) := by
  intro before _ after hRun hExclusive
  rcases of_run_pushChild hRun with
    ⟨hBound, hFree, owner, hStored, hSlot, hEdited⟩
  rcases exists_get? hBound with ⟨stored, hChild⟩
  refine hExclusive.relisted parent [child]
    (before.slots parent) (by simpa using hFree)
    (List.nodup_singleton child) (List.Sublist.refl _) ?_ ?_ ?_
  · rw [slots_of_get? (hEdited.get?_some hStored),
      slots_of_get? hStored]
    simp only [adopt, if_true]
    exact owner.kind.perm_children_append slot child hSlot
  · intro n hOther
    apply hEdited.slots
    intro node _
    simp only [adopt, if_neg hOther]
  · intro n
    rw [hEdited.owner?]
    simp only [List.mem_singleton, and_not_self, if_false,
      adopt]
    by_cases hEq : n = child
    · rw [hEq, hChild]
      simp only [if_true, Option.bind_some]
    · simp only [if_neg hEq]
      rfl

private theorem exclusive_replaceWith
    {before after : Tree}
    {old new : NodeId}
    (hExclusive : before.Exclusive)
    (hFree : before.owner? new = none)
    (hRun : replaceWith old new before = .ok () after) :
    after.Exclusive := by
  rcases of_run_replaceWith hRun with
    ⟨_, rfl⟩ | ⟨parent, owner, hParent, hOwner, hListed, hNe,
      hBound, hEdited⟩
  · exact hExclusive
  rcases exists_get? hBound with ⟨fresh, hFresh⟩
  have hSlots := slots_of_get? hOwner
  have hNodup := hExclusive.nodup_slots parent
  rw [hSlots] at hNodup
  refine hExclusive.relisted parent [new]
    (owner.kind.children.erase old) (by simpa using hFree)
    (List.nodup_singleton new) ?_ ?_ ?_ ?_
  · rw [hSlots]
    exact List.erase_sublist
  · rw [slots_of_get? (hEdited.get?_some hOwner),
      children_relink, if_pos rfl]
    exact perm_replace new hListed
  · intro n hOther
    apply hEdited.slots
    intro node _
    rw [children_relink, if_neg hOther]
  · intro n
    have hLost : n ∈ before.slots parent ∧
        n ∉ owner.kind.children.erase old ↔ n = old := by
      rw [hSlots, hNodup.mem_erase_iff]
      constructor
      · rintro ⟨hMem, hGone⟩
        exact by_contra fun hOther => hGone ⟨hOther, hMem⟩
      · rintro rfl
        exact ⟨hListed, fun hStays => hStays.1 rfl⟩
    rw [hEdited.owner?]
    simp only [List.mem_singleton, hLost, relink]
    by_cases hNew : n = new
    · rw [hNew, hFresh]
      simp only [if_true, Option.bind_some]
    · simp only [if_neg hNew]
      by_cases hOld : n = old
      · simp only [if_pos hOld]
        exact Option.bind_fun_none _
      · simp only [if_neg hOld]
        rfl

/- A careful edit keeps slots and owners agreeing. -/
theorem Exclusive.edit
    {before after : Tree}
    {edit : Edit}
    (hExclusive : before.Exclusive)
    (hCareful : edit.Careful before)
    (hRun : edit.perform before = .ok () after) :
    after.Exclusive := by
  cases edit with
  | alloc kind ty element =>
      exact Keeps.discard (exclusive_alloc kind ty element)
        _ _ _ hRun hExclusive
  | setType id ty =>
      exact exclusive_modifyNode hExclusive hRun
        (fun _ _ => rfl) (fun _ => rfl)
  | setElement id element =>
      exact exclusive_modifyNode hExclusive hRun
        (fun _ _ => rfl) (fun _ => rfl)
  | setRetained id =>
      refine Keeps.discard ?_ _ _ _ hRun hExclusive
      intro before answer after hRun hExclusive
      rcases of_run_setRetained hRun with
        rfl | ⟨node, marked, hStored, hMark, hSet⟩
      · exact hExclusive
      · apply exclusive_modifyNode hExclusive hSet
        · intro found hFound
          rw [hStored] at hFound
          cases hFound
          exact NodeKind.children_of_markRetained? hMark
        · intro _
          rfl
  | pushChild parent slot child =>
      exact exclusive_pushChild parent slot child _ _ _
        hRun hExclusive
  | take id => exact hCareful.elim
  | replaceWith old new =>
      exact exclusive_replaceWith hExclusive hCareful hRun
  | deepCopy id =>
      exact Keeps.discard (Keeps.deepCopy exclusive_alloc id)
        _ _ _ hRun hExclusive

------------------------------------------------------------
-- Runs
------------------------------------------------------------

/- Careful work keeps slots and owners agreeing. -/
theorem WorkedCarefully.exclusive
    {before after : Tree}
    (hWorked : WorkedCarefully before after)
    (hExclusive : before.Exclusive) :
    after.Exclusive := by
  induction hWorked with
  | same tree => exact hExclusive
  | edit _ edit hCareful hRun ih =>
      exact (ih hExclusive).edit hCareful hRun
  | @convertEnum σ μ before middle after convert seen source
      memory memory' made _ hStart hStays _ hRun ih hConverts =>
      have hConvert : ∀ piece,
          KeepsAlong (fun memory tree =>
            seen memory tree ∧ tree.Exclusive)
            (convert piece) := by
        rintro piece memory tree id memory' tree' hRun
          ⟨hSeen, hExclusive⟩
        exact ⟨hStays _ _ _ _ _ _ hRun hSeen,
          hConverts _ _ _ _ _ _ hRun hSeen hExclusive⟩
      rcases KeepsAlong.of_run_convertEnum hConvert hRun
        ⟨hStart, ih hExclusive⟩ with
        ⟨kind, last, ⟨_, hExclusive⟩, hAlloc⟩
      exact exclusive_alloc _ _ _ _ _ _ hAlloc hExclusive

/-
  Where nodes are never taken and only replaced by free nodes,
  a node is in a slot of another exactly when the other owns
  it, and no node is in two slots. So nothing is ever built of,
  or given, a node that is in a slot already, or one node
  twice.
-/
theorem slots_tell_owners
    {tree : Tree}
    (hWorked : WorkedCarefully {} tree) :
    (∀ n owner,
      (∃ slot, tree.Occupies owner slot n) ↔
        tree.owner? n = some owner) ∧
    (∀ n owner owner' slot slot',
      tree.Occupies owner slot n →
        tree.Occupies owner' slot' n →
          owner = owner' ∧ slot = slot') ∧
    (∀ kind ty element id after,
      alloc kind ty element tree = .ok id after →
        kind.children.Nodup ∧
          ∀ n ∈ kind.children,
            tree.owner? n = none ∧
              ∀ owner slot, ¬ tree.Occupies owner slot n) ∧
    (∀ parent slot child after,
      pushChild parent slot child tree = .ok () after →
        tree.owner? child = none ∧
          ∀ owner slot, ¬ tree.Occupies owner slot child) := by
  have hExclusive := hWorked.exclusive Exclusive.empty
  have hFree {n : NodeId} (hOwner : tree.owner? n = none) :
      ∀ owner slot, ¬ tree.Occupies owner slot n := by
    intro owner slot hSlot
    exact hExclusive.not_mem_of_free hOwner
      (exists_occupies_iff.mp ⟨slot, hSlot⟩)
  refine ⟨?_, ?_, ?_, ?_⟩
  · intro n owner
    rw [exists_occupies_iff]
    exact hExclusive.mem_slots_iff owner n
  · intro n owner owner' slot slot' hSlot hSlot'
    exact hExclusive.slot_unique hSlot hSlot'
  · intro kind ty element id after hRun
    rcases free_of_run_alloc hRun with ⟨_, hFrees, hNodup⟩
    refine ⟨hNodup, ?_⟩
    intro n hMem
    exact ⟨hFrees n hMem, hFree (hFrees n hMem)⟩
  · intro parent slot child after hRun
    rcases of_run_pushChild hRun with ⟨_, hOwner, _⟩
    exact ⟨hOwner, hFree hOwner⟩

/-
  An initializer whose one name was replaced by a free name and
  appended again, and an enum whose name was converted.
-/
def regrown : Tree := ⟨#[
  { kind := .simpleName ⟨1⟩
    parent := some ⟨1⟩ },
  { kind := .arrayInitializer [⟨2⟩, ⟨0⟩] },
  { kind := .simpleName ⟨2⟩
    parent := some ⟨1⟩ },
  { kind := .simpleName ⟨3⟩
    parent := some ⟨4⟩ },
  { kind := .enumDeclaration none [] ⟨3⟩ [] [] }]⟩

theorem workedCarefully_regrown :
    WorkedCarefully {} regrown := by
  have hName : WorkedCarefully {} _ :=
    (WorkedCarefully.same {}).edit
      (.alloc (.simpleName ⟨1⟩) none none) trivial rfl
  have hList : WorkedCarefully {} _ :=
    hName.edit (.alloc (.arrayInitializer [⟨0⟩]) none none)
      trivial rfl
  have hOther : WorkedCarefully {} _ :=
    hList.edit (.alloc (.simpleName ⟨2⟩) none none) trivial rfl
  have hReplaced : WorkedCarefully {} _ :=
    hOther.edit (.replaceWith ⟨0⟩ ⟨2⟩) rfl rfl
  have hAppended : WorkedCarefully {} _ :=
    hReplaced.edit (.pushChild ⟨1⟩ .expressions ⟨0⟩) trivial rfl
  refine @WorkedCarefully.convertEnum Name Nat _ _ regrown
    convertName (fun _ _ => True) { name := ⟨3⟩ } 0 1 ⟨4⟩
    hAppended trivial (fun _ _ _ _ _ _ _ _ => trivial) ?_ rfl
  intro piece memory tree id memory' tree' hRun _
  cases hRun
  exact (WorkedCarefully.same tree).edit
    (.alloc (.simpleName piece) none none) trivial rfl

/-
  The name that was replaced and appended again is in the
  second slot only.
-/
theorem slots_tell_owners_regrown :
    WorkedCarefully {} regrown ∧
      regrown.Occupies ⟨1⟩ 1 ⟨0⟩ ∧
      regrown.owner? ⟨0⟩ = some ⟨1⟩ ∧
      ∀ owner slot,
        regrown.Occupies owner slot ⟨0⟩ →
          owner = ⟨1⟩ ∧ slot = 1 := by
  rcases slots_tell_owners workedCarefully_regrown with
    ⟨hOwned, hOnce, _, _⟩
  have hSlot : regrown.Occupies ⟨1⟩ 1 ⟨0⟩ := ⟨_, rfl, rfl⟩
  refine ⟨workedCarefully_regrown, hSlot,
    (hOwned _ _).mp ⟨1, hSlot⟩, ?_⟩
  intro owner slot hOther
  exact hOnce _ _ _ _ _ hOther hSlot

end Tree

end Lowering
