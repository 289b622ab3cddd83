import Lowering.Proofs.Arrays.Consumed
import Lowering.Proofs.Arrays.Fares
import Lowering.Proofs.Arrays.Ownership

/-
  This file tells when a run is refused, and what is there then.

  The checks of the tree that a run starts at are known before
  the run. It is refused if and only if one of them has a flaw,
  and with the flaw of the first that has one. The run has then
  asked no later check. What it had not entered is as it was,
  but for the operands of stores that were replaced, which have
  come below the calls that store.

  Key definitions include:
    * `Arrays.Supplies`
    * `Arrays.KeepsPlace`
    * `Arrays.HandedTo`
    * `Arrays.Refused`

  Main results:
    * `Arrays.lower_fails_at_first_flaw`
-/

namespace Lowering

namespace Arrays

open Symbols

------------------------------------------------------------
-- Operands Of Stores
------------------------------------------------------------

/-
  A node is what a store that was begun hands over: a part of
  the access, or the value.
-/
def Supplies
    (symbols : Symbols)
    (tree : Tree)
    (root : NodeId)
    (passed : List Check)
    (n : NodeId)
    (handed : Bool) : Prop :=
  ∃ store target value component,
    Stores symbols tree root store target value component ∧
      .enter store ∈ visits passed ∧
      if handed then n = value else tree.Lists target n

section Storing

variable {symbols : Symbols}
variable {tree : Tree}
variable {root id target n : NodeId}
variable {operands : List Placed}
variable {value part child whole : Placed}
variable {handed : Bool}
variable {passed : List Check}

theorem GoesTo.holds
    (hGoes : GoesTo symbols child whole)
    (hHolds : tree.Holds whole) :
    tree.Holds child := by
  cases hGoes with
  | kept _ hMem => exact hHolds.child hMem
  | stored _ hMem =>
      rcases List.mem_append.mp hMem with hMem | hMem
      · exact (hHolds.child List.mem_cons_self).child hMem
      · rw [List.mem_singleton.mp hMem]
        exact hHolds.child (by simp)

/- What a walk comes by as a store is one in the tree. -/
theorem Storing.stores
    (hStoring : Storing symbols id target operands value whole)
    (hHolds : tree.Holds whole)
    (hBelow : tree.Below root whole.id) :
    (∃ component,
      Stores symbols tree root id target value.id component) ∧
      (∃ outer, tree.Holds (.node target outer operands)) ∧
      tree.Holds value := by
  induction hStoring with
  | here hStored =>
      exact ⟨⟨_, stores_of_stored? hHolds hBelow hStored⟩,
        ⟨_, hHolds.child List.mem_cons_self⟩,
        hHolds.child (by simp)⟩
  | deeper hGoes _ ih =>
      apply ih (hGoes.holds hHolds)
      exact hBelow.trans (hHolds.below_iff.mpr
        (hGoes.ids_subset (Placed.id_mem_ids _)))

/- A walk comes by each store of the tree. -/
theorem Stores.exists_storing
    {store value : NodeId}
    {component : TypeId}
    (hStores : Stores symbols tree root store target value
      component)
    (hHolds : tree.Holds whole)
    (hBelow : tree.Below root whole.id)
    (hMem : store ∈ whole.ids) :
    ∃ operands last,
      last.id = value ∧
        Storing symbols store target operands last whole := by
  induction whole using walk_induct symbols with
  | kept id label children hNot ih =>
      by_cases hHere : store = id
      · subst hHere
        rcases hStores.stored? hHolds with
          ⟨_, _, _, _, _, hStored⟩
        exact absurd hStored (hNot _)
      · rcases exists_child hMem hHere with
          ⟨child, hChild, hIn⟩
        have hGoes : GoesTo symbols child
            (.node id label children) := .kept hNot hChild
        have hThere := hHolds.below_iff.mpr
          (hGoes.ids_subset child.id_mem_ids)
        rcases ih child hChild (hHolds.child hChild)
            (hBelow.trans hThere) hIn with
          ⟨operands, last, hLast, hStoring⟩
        exact ⟨operands, last, hLast, .deeper hGoes hStoring⟩
  | stored id access label outer operands last taken hStored
      ih =>
      by_cases hHere : store = id
      · subst hHere
        rcases hStores.stored? hHolds with
          ⟨_, _, _, hChildren, hValue, _⟩
        cases hChildren
        exact ⟨operands, last, hValue, .here hStored⟩
      by_cases hAccess : store = access
      · subst hAccess
        exact absurd (stores_of_stored? hHolds hBelow hStored)
          (hStores.untaken _ _ _)
      rcases exists_argument hMem hHere hAccess with
        ⟨argument, hArgument, hIn⟩
      rcases mem_arguments hArgument with
        ⟨handed, child, hOperand, rfl⟩
      rw [ids_retainIf] at hIn
      have hGoes : GoesTo symbols child (.node id label
          [.node access outer operands, last]) :=
        .stored hStored hOperand.mem
      have hThere := hHolds.below_iff.mpr
        (hGoes.ids_subset child.id_mem_ids)
      rcases ih child hOperand.mem (hGoes.holds hHolds)
          (hBelow.trans hThere) hIn with
        ⟨others, final, hFinal, hStoring⟩
      exact ⟨others, final, hFinal, .deeper hGoes hStoring⟩

/- The operands that a walk comes by are handed over. -/
theorem Storing.supplies
    (hStoring : Storing symbols id target operands value whole)
    (hHolds : tree.Holds whole)
    (hBegun : .enter id ∈ visits passed)
    (hOperand : Operand operands value handed part) :
    tree.Holds part ∧
      Supplies symbols tree whole.id passed part.id handed := by
  rcases hStoring.stores hHolds .refl with
    ⟨⟨component, hStores⟩, ⟨outer, hAccess⟩, hValue⟩
  cases hOperand with
  | operand hMem =>
      refine ⟨hAccess.child hMem, id, target, value.id,
        component, hStores, hBegun, ?_⟩
      exact hAccess.lists_iff.mpr ⟨part, hMem, rfl⟩
  | value =>
      exact ⟨hValue, id, target, _, component, hStores, hBegun,
        rfl⟩

/- What is handed over is an operand that a walk comes by. -/
theorem Supplies.exists_operand
    (hHolds : tree.Holds whole)
    (hSupplies : Supplies symbols tree whole.id passed n
      handed) :
    ∃ id target operands value part,
      part.id = n ∧
        Storing symbols id target operands value whole ∧
        .enter id ∈ visits passed ∧
        Operand operands value handed part := by
  rcases hSupplies with
    ⟨store, target, value, component, hStores, hBegun, hIs⟩
  have hMem := hHolds.below_iff.mp hStores.below
  rcases hStores.exists_storing hHolds .refl hMem with
    ⟨operands, last, rfl, hStoring⟩
  cases handed with
  | false =>
      rcases (hStoring.stores hHolds .refl).2.1 with
        ⟨outer, hAccess⟩
      rcases hAccess.lists_iff.mp hIs with
        ⟨part, hPart, rfl⟩
      exact ⟨store, target, operands, last, part, rfl, hStoring,
        hBegun, .operand hPart⟩
  | true =>
      exact ⟨store, target, operands, last, last, hIs.symm,
        hStoring, hBegun, .value⟩

end Storing

------------------------------------------------------------
-- Places
------------------------------------------------------------

/- A node is in its slot of its owner, if it has one. -/
structure KeepsPlace (before after : Tree) (n : NodeId) : Prop where
  owner : after.owner? n = before.owner? n
  slot : ∀ owner,
    before.owner? n = some owner →
      ∃ slot,
        before.Occupies owner slot n ∧
          after.Occupies owner slot n

/- A node has come below a new call of a function. -/
structure HandedTo
    (before after : Tree)
    (n call : NodeId) : Prop where
  made : before.size ≤ call.raw
  is_call : ∃ stored,
    after.get? call = some stored ∧
      stored.kind.tag = .functionInvocation
  listed : after.Lists call n
  owner : after.owner? n = some call

/- A node as the call that it was handed to has it. -/
def handedNode
    (call : NodeId)
    (handed : Bool)
    (node : Node) : Node :=
  { node with
    kind := if handed then node.kind.retain else node.kind
    parent := some call }

section Places

variable {symbols : Symbols}
variable {before after : Tree}
variable {old new kept now part whole : Placed}
variable {owner call : NodeId}
variable {label : Label}
variable {slot : Nat}
variable {handed : Bool}
variable {passed : List Check}

/- What hangs from a new call was handed to it. -/
theorem Hangs.handedTo
    (hHangs : Hangs part call label slot whole)
    (hHolds : after.Holds whole)
    (hFresh : before.size ≤ call.raw)
    (hTag : label.shape.tag = .functionInvocation) :
    after.Holds part ∧ HandedTo before after part.id call := by
  rcases hHangs.holds hHolds with
    ⟨hPart, hOwner, hOccupies, _, stored, hStored, hLabel⟩
  refine ⟨hPart, hFresh, ⟨stored, hStored, ?_⟩, ⟨slot, hOccupies⟩,
    hOwner⟩
  rw [← hLabel] at hTag
  exact (NodeKind.tag_shape stored.kind).symm.trans hTag

/- How a node is held that was handed over. -/
theorem get?_of_handed
    (hBefore : before.Holds part)
    (hAfter : after.Holds (part.retainIf handed))
    (hOwner : after.owner? part.id = some call) :
    ∃ node,
      before.get? part.id = some node ∧
        after.get? part.id = some (handedNode call handed node) := by
  rcases hBefore.stored with ⟨node, hNode, hLabel, hListed⟩
  rcases hAfter.stored with ⟨found, hFound, hLabel', hListed'⟩
  rw [id_retainIf] at hFound
  rw [Tree.owner?_of_get? hFound] at hOwner
  refine ⟨node, hNode, hFound.trans (congrArg some
    (Node.eq_of_label ?_ ?_ hOwner))⟩
  · rw [hLabel']
    cases handed with
    | false => exact hLabel.symm
    | true =>
        rcases part with ⟨id, label, children⟩
        rw [Placed.label_node] at hLabel
        subst hLabel
        show node.label.retain = _
        simp [Label.retain, Node.label, handedNode]
  · rw [hListed']
    cases handed with
    | false => exact hListed.symm
    | true =>
        rcases part with ⟨id, label, children⟩
        show children.map (·.id) = _
        simp [handedNode, hListed]

theorem Keeps.mem_ids
    {size : Nat}
    (hKeeps : Keeps symbols size passed old new kept now) :
    now.id ∈ new.ids := by
  cases hKeeps with
  | top _ hNow =>
      rw [hNow]
      exact new.id_mem_ids
  | owned _ hAfter => exact hAfter.ids_subset now.id_mem_ids
  | handed _ _ _ _ _ _ hAfter =>
      exact hAfter.ids_subset now.id_mem_ids

/-
  What is kept of a subtree is in its place, or was handed over
  at a store that was begun.
-/
theorem Keeps.place
    (hStanding : before.Standing old)
    (hReplaced : Tree.Replaced before after old new)
    (hSame : now.id = kept.id)
    (hKeeps : Keeps symbols before.size passed old new kept
      now) :
    after.Holds now ∧
      ∃ was,
        before.Holds was ∧
          was.id = kept.id ∧
          (was = kept ∧ KeepsPlace before after kept.id ∨
            ∃ handed call,
              kept = was.retainIf handed ∧
                Supplies symbols before old.id passed was.id
                  handed ∧
                HandedTo before after was.id call) := by
  have hHolds := hStanding.holds
  cases hKeeps with
  | top hWas hNow =>
      subst hWas hNow
      refine ⟨hReplaced.holds, kept, hHolds, rfl,
        Or.inl ⟨rfl, ?_, ?_⟩⟩
      · rw [← hReplaced.owner, hSame]
      · intro owner hOwner
        rcases hStanding.listed owner hOwner with
          ⟨stored, hStored, hListed, _⟩
        rcases hReplaced.relisted owner stored hOwner hStored
          with ⟨stored', hStored', _, _, hChildren⟩
        rcases List.mem_iff_getElem?.mp hListed with
          ⟨slot, hSlot⟩
        rw [hSame, Tree.replace_self] at hChildren
        exact ⟨slot, ⟨stored, hStored, hSlot⟩,
          ⟨stored', hStored', by rw [hChildren]; exact hSlot⟩⟩
  | owned hBefore hAfter =>
      rcases hBefore.holds hHolds with
        ⟨hKept, hOwner, hSlot, _⟩
      rcases hAfter.holds hReplaced.holds with
        ⟨hNow, hOwner', hSlot', _⟩
      rw [hSame] at hOwner' hSlot'
      refine ⟨hNow, kept, hKept, rfl, Or.inl ⟨rfl,
        hOwner'.trans hOwner.symm, ?_⟩⟩
      intro owner hIs
      cases hOwner.symm.trans hIs
      exact ⟨_, hSlot, hSlot'⟩
  | @handed _ _ call _ _ _ part handed _ hStoring hBegun hOperand
      hKept hFresh hCall hAfter =>
      subst hKept
      rw [id_retainIf] at hSame ⊢
      rcases hStoring.supplies hHolds hBegun hOperand with
        ⟨hPart, hSupplies⟩
      rcases hAfter.handedTo hReplaced.holds hFresh hCall with
        ⟨hNow, hHanded⟩
      rw [hSame] at hHanded
      exact ⟨hNow, part, hPart, rfl,
        Or.inr ⟨handed, call, rfl, hSupplies, hHanded⟩⟩

end Places

------------------------------------------------------------
-- Refused Runs
------------------------------------------------------------

/-
  A run was refused at a check, after it had passed others. It
  has asked nothing else about the nodes of its input.
-/
structure Refused
    (table : BindingTable)
    (options : Options)
    (root : NodeId)
    (before after : Workspace)
    (passed : List Check)
    (check : Check)
    (cause : LoweringViolation) : Prop where
  /- The nodes of the input are asked about in order. -/
  recorded : ∃ asked,
    Records ((visitor table options).recording.walk root)
        { before with root }
        (.error (.violation cause) after) asked ∧
      known before.tree.size asked = visits (passed ++ [check])
  formed : after.tree.WellFormed after.root
  /- The failing node is there, and it shows what is wrong. -/
  shown : ∃ now,
    after.tree.Holds now ∧
      now.id = check.visit.node ∧
      after.tree.Below after.root now.id ∧
      shownFlaw? after.symbols now.label now.children
          check.visit =
        some cause
  /- It is where it was, or has come below the call. -/
  failing : ∃ node now,
    before.tree.get? check.visit.node = some node ∧
      after.tree.get? check.visit.node = some now ∧
      (now.label = node.label ∧
          KeepsPlace before.tree after.tree check.visit.node ∨
        ∃ handed call,
          now.label = node.label.retainIf handed ∧
            Supplies before.symbols before.tree root passed
              check.visit.node handed ∧
            HandedTo before.tree after.tree check.visit.node
              call)
  /- What was not entered is as it was. -/
  waiting : ∀ n,
    before.tree.Below root n →
      .enter n ∉ visits (passed ++ [check]) →
        (∀ handed, ¬ Supplies before.symbols before.tree root
          passed n handed) →
          after.tree.get? n = before.tree.get? n
  /- What a call has taken over, and was not entered. -/
  given : ∀ n handed,
    Supplies before.symbols before.tree root passed n handed →
      .enter n ∉ visits (passed ++ [check]) →
        ∃ node call,
          before.tree.get? n = some node ∧
            HandedTo before.tree after.tree n call ∧
            after.tree.get? n =
              some (handedNode call handed node)
  /- What is not below the root is as it was. -/
  outside : ∀ n,
    n.raw < before.tree.size →
      ¬ before.tree.Below root n →
        before.tree.owner? root ≠ some n →
          after.tree.get? n = before.tree.get? n
  /- The owner of the root may list a call in its place. -/
  above : ∀ owner stored,
    before.tree.owner? root = some owner →
      before.tree.get? owner = some stored →
        ∃ stored',
          after.tree.get? owner = some stored' ∧
            stored'.label = stored.label ∧
            stored'.parent = stored.parent ∧
            stored'.kind.children =
              stored.kind.children.replace root after.root

section Refusals

variable {table : BindingTable}
variable {options : Options}
variable {before after : Workspace}
variable {whole new : Placed}
variable {passed : List Check}
variable {check : Check}
variable {cause : LoweringViolation}
variable {asked : List Visit}

/- What is checked are nodes of the input. -/
private theorem known_visits
    {size : Nat}
    {log : List Check}
    (hOld : ∀ check ∈ log, check.visit.node.raw < size) :
    known size (visits log) = visits log := by
  unfold known
  rw [List.filter_eq_self]
  intro visit hMem
  rcases List.mem_map.mp hMem with ⟨check, hCheck, rfl⟩
  exact decide_eq_true (hOld check hCheck)

/- The failing node shows its flaw, in its place or a call. -/
private theorem Stopped.failing
    (hStanding : before.tree.Standing whole)
    (hStopped : Stopped before.symbols before.tree.size
      { before with root := whole.id } after whole new passed
        check cause asked) :
    ∃ node now,
      before.tree.get? check.visit.node = some node ∧
        after.tree.Holds now ∧
        now.id = check.visit.node ∧
        now.id ∈ new.ids ∧
        shownFlaw? after.symbols now.label now.children
            check.visit =
          some cause ∧
        (now.label = node.label ∧
            KeepsPlace before.tree after.tree check.visit.node ∨
          ∃ handed call,
            now.label = node.label.retainIf handed ∧
              Supplies before.symbols before.tree whole.id
                passed check.visit.node handed ∧
              HandedTo before.tree after.tree check.visit.node
                call) := by
  rcases hStopped.halted.failing with
    ⟨kept, now, hKeptId, hNowId, hLabel, hShown, hKeeps⟩
  rcases hKeeps.place hStanding hStopped.lowered.replaced
      (hNowId.trans hKeptId.symm) with
    ⟨hNow, was, hWas, hWasId, hPlace⟩
  rcases hWas.stored with ⟨node, hNode, hNodeLabel, _⟩
  rw [hWasId, hKeptId] at hNode hPlace
  refine ⟨node, now, hNode, hNow, hNowId, hKeeps.mem_ids,
    hShown.trans hStopped.flaw, ?_⟩
  rw [hLabel, hNodeLabel]
  rcases hPlace with
    ⟨hIs, hKeepsPlace⟩ | ⟨handed, call, hIs, hSupplies, hHanded⟩
  · rw [hIs]
    exact Or.inl ⟨rfl, hKeepsPlace⟩
  · refine Or.inr ⟨handed, call, ?_, hSupplies, hHanded⟩
    rw [hIs, label_retainIf]

/- What was not entered and not supplied is as it was. -/
private theorem Stopped.waiting
    (hStanding : before.tree.Standing whole)
    (hStopped : Stopped before.symbols before.tree.size
      { before with root := whole.id } after whole new passed
        check cause asked)
    {n : NodeId}
    (hBelow : before.tree.Below whole.id n)
    (hNot : .enter n ∉ visits (passed ++ [check]))
    (hFree : ∀ handed,
      ¬ Supplies before.symbols before.tree whole.id passed n
        handed) :
    after.tree.get? n = before.tree.get? n := by
  have hIn := hStanding.holds.below_iff.mp hBelow
  cases hStopped.halted.waits hIn hNot with
  | kept hIs hSame =>
      subst hIs
      rcases hSame.place hStanding hStopped.lowered.replaced rfl
        with ⟨hAfter, old, hOld, hOldId, hOldPlace⟩
      rcases hOldPlace with
        ⟨rfl, hKeepsPlace⟩ | ⟨handed, _, _, hSupplies, _⟩
      · exact Tree.get?_eq_of_holds hOld hAfter
          hKeepsPlace.owner
      · rw [hOldId] at hSupplies
        exact absurd hSupplies (hFree handed)
  | assigned hStoring hBegun =>
      exact hStopped.left _ _ _ _ hStoring hBegun

/- What was supplied and not entered belongs to the call. -/
private theorem Stopped.given
    (hStanding : before.tree.Standing whole)
    (hStopped : Stopped before.symbols before.tree.size
      { before with root := whole.id } after whole new passed
        check cause asked)
    {n : NodeId}
    {handed : Bool}
    (hSupplies : Supplies before.symbols before.tree whole.id
      passed n handed)
    (hNot : .enter n ∉ visits (passed ++ [check])) :
    ∃ node call,
      before.tree.get? n = some node ∧
        HandedTo before.tree after.tree n call ∧
        after.tree.get? n =
          some (handedNode call handed node) := by
  have hHolds := hStanding.holds
  rcases hSupplies.exists_operand hHolds with
    ⟨id, target, operands, value, part, rfl, hStoring, hBegun,
      hOperand⟩
  rcases hStopped.halted.hands_over hStanding.nodup hStoring
      hBegun hOperand hNot with
    @⟨call, label, slot, hFresh, hCall, hHangs⟩
  rcases hHangs.handedTo hStopped.lowered.replaced.holds hFresh
      hCall with
    ⟨hAfter, hHanded⟩
  rw [id_retainIf] at hHanded
  rcases get?_of_handed
      (hStoring.supplies hHolds hBegun hOperand).1 hAfter
      hHanded.owner with ⟨node, hNode, hNow⟩
  exact ⟨node, call, hNode, hHanded, hNow⟩

/- A walk that was stopped at its root was refused. -/
private theorem Stopped.refused
    (hStanding : before.tree.Standing whole)
    (hRecords : Records
      ((visitor table options).recording.walk whole.id)
      { before with root := whole.id }
      (.error (.violation cause) after) asked)
    (hStopped : Stopped before.symbols before.tree.size
      { before with root := whole.id } after whole new passed
        check cause asked) :
    Refused table options whole.id before after passed check
      cause := by
  have hHolds := hStanding.holds
  have hReplaced := hStopped.lowered.replaced
  have hStands := hReplaced.standing hStanding
  have hRoot : after.root = new.id := by
    rw [hStopped.lowered.root]
    exact if_pos rfl
  rcases hStopped.halted.split with ⟨rest, hSplit⟩
  rcases hStopped.failing hStanding with
    ⟨node, now, hNode, hNow, hNowId, hIn, hShown, hPlace⟩
  rcases hNow.stored with ⟨found, hFound, hFoundLabel, _⟩
  refine ⟨⟨asked, hRecords, ?_⟩, ?_,
    ⟨now, hNow, hNowId, ?_, hShown⟩,
    ⟨node, found, hNode, ?_, ?_⟩, ?_, ?_, ?_, ?_⟩
  · rw [hStopped.asked]
    apply known_visits
    intro other hMem
    apply hHolds.lt_size
    apply @node_mem_ids before.symbols
    rw [hSplit]
    rcases List.mem_append.mp hMem with hMem | hMem
    · exact List.mem_append_left _ hMem
    · rw [List.mem_singleton.mp hMem]
      simp
  · rw [hRoot]
    exact hStands.holds.wellFormed hStands.nodup
  · rw [hRoot]
    exact hStands.holds.below_iff.mpr hIn
  · rw [← hNowId]
    exact hFound
  · rw [hFoundLabel]
    exact hPlace
  · exact fun n => hStopped.waiting hStanding
  · exact fun n handed => hStopped.given hStanding
  · intro n hLt hOut hOwner
    apply hReplaced.kept n hLt _ hOwner
    exact fun hIn => hOut (hHolds.below_iff.mpr hIn)
  · intro owner stored hOwner hStored
    rw [hRoot]
    exact hReplaced.relisted owner stored hOwner hStored

/- A run is a walk from its root, and then asks for the root. -/
private theorem run_lower
    (table : BindingTable)
    (options : Options)
    (root : NodeId)
    (before : Workspace) :
    lower table options root before =
      ((visitor table options).walkWithin
          ((visitor table options).reach before.tree.size) root
        >>= fun _ => do return (← get).root : LowerM NodeId)
          { before with root } := rfl

/-
  From a tree that is well formed under a root, where it is safe
  to ask about each node, a run is refused if and only if some
  check of the tree has a flaw. What it is refused with is the
  flaw of the first check that has one.
-/
theorem lower_fails_at_first_flaw
    {table : BindingTable}
    {root : NodeId}
    {before : Workspace}
    (hStart : Start table root before)
    (hSafe : SafeBelow root before)
    (options : Options) :
    ∃ whole,
      before.tree.Holds whole ∧
        whole.id = root ∧
        ((∃ cause after,
            lower table options root before =
              .error (.violation cause) after) ↔
          ∃ check ∈ checks before.symbols whole,
            check.flaw? ≠ none) ∧
        ∀ error after,
          lower table options root before =
              .error error after →
            ∃ passed check rest cause,
              checks before.symbols whole =
                  passed ++ check :: rest ∧
                (∀ earlier ∈ passed, earlier.flaw? = none) ∧
                check.flaw? = some cause ∧
                error = .violation cause ∧
                Refused table options root before after passed
                  check cause := by
  rcases hStart.formed.standing hStart.reached with
    ⟨whole, rfl, hStanding⟩
  have hFares := faresWithin table options before.symbols
    before.tree.size _ _ whole
    (at_root hStanding hStart.session.ready)
    (length_ids_le_reach table options hStanding)
    (safe_view hStanding.holds hSafe) (Grown.refl _)
    (Nat.le_refl _)
  have hRefused error after
      (hRun : lower table options whole.id before =
        .error error after) :
      ∃ passed check rest cause,
        checks before.symbols whole = passed ++ check :: rest ∧
          (∀ earlier ∈ passed, earlier.flaw? = none) ∧
          check.flaw? = some cause ∧
          error = .violation cause ∧
          Refused table options whole.id before after passed
            check cause := by
    have hCompletes : Completes True
        (lower table options whole.id before) _ :=
      hStart.completes options fun _ => hSafe
    rw [hRun] at hCompletes
    rcases hCompletes.1 trivial with ⟨cause, rfl⟩
    rw [run_lower] at hRun
    rcases run_bind_eq_error hRun with
      hWalk | ⟨_, _, _, hLast⟩
    · rcases hFares.2 cause after hWalk with
        ⟨new, passed, check, asked, hRecords, hStopped⟩
      rcases hStopped.halted.split with ⟨rest, hSplit⟩
      have hTree : Records (liftM (get : TreeM Tree))
          { before with root := whole.id }
          (.ok before.tree { before with root := whole.id })
          [] := Records.lift rfl
      exact ⟨passed, check, rest, cause, hSplit, hStopped.clean,
        hStopped.flaw, rfl,
        hStopped.refused hStanding (hTree.bind hRecords)⟩
    · cases hLast
  refine ⟨whole, hStanding.holds, rfl, ⟨?_, ?_⟩, hRefused⟩
  · rintro ⟨_, after, hRun⟩
    rcases hRefused _ after hRun with
      ⟨passed, check, rest, cause, hSplit, _, hFlaw, _⟩
    refine ⟨check, ?_, by simp [hFlaw]⟩
    rw [hSplit]
    simp
  · rintro ⟨check, hMem, hFlaw⟩
    cases hRun : lower table options whole.id before with
    | error error after =>
        rcases hRefused error after hRun with
          ⟨_, _, _, cause, _, _, _, rfl, _⟩
        exact ⟨cause, after, rfl⟩
    | ok result after =>
        exfalso
        rw [run_lower] at hRun
        rcases run_bind_eq_ok hRun with ⟨_, later, hWalk, _⟩
        rcases hFares.1 later hWalk with ⟨_, _, _, hWent⟩
        exact hFlaw (hWent.clean check hMem)

end Refusals

------------------------------------------------------------
-- A Store That Is Refused
------------------------------------------------------------

/-
  The statement that stores a new object in a new array, where
  the array has no type.
-/
def storeUntyped : Workspace where
  tree := ⟨#[
    { kind := .arrayCreation [] none false
      parent := some ⟨2⟩ },
    { kind := .numberLiteral 0
      parent := some ⟨2⟩ },
    { kind := .arrayAccess ⟨0⟩ ⟨1⟩
      ty := some ⟨12⟩
      parent := some ⟨4⟩ },
    { kind := .classInstanceCreation [] false
      ty := some ⟨12⟩
      parent := some ⟨4⟩ },
    { kind := .assignment .assign ⟨2⟩ ⟨3⟩
      ty := some ⟨12⟩ }]⟩
  cache := itemsSymbols.cache
  env := itemsSymbols.env

theorem reached_storeUntyped : storeUntyped.tree.Reached := by
  have hArray := Tree.Reached.empty.edit
    (.alloc (.arrayCreation [] none false) none none) rfl
  have hIndex := hArray.edit
    (.alloc (.numberLiteral 0) none none) rfl
  have hTarget := hIndex.edit
    (.alloc (.arrayAccess ⟨0⟩ ⟨1⟩) (some ⟨12⟩) none) rfl
  have hValue := hTarget.edit
    (.alloc (.classInstanceCreation [] false) (some ⟨12⟩) none)
    rfl
  exact hValue.edit
    (.alloc (.assignment .assign ⟨2⟩ ⟨3⟩) (some ⟨12⟩) none) rfl

theorem holds_storeUntyped :
    storeUntyped.tree.Holds (.node ⟨4⟩
      ⟨.assignment .assign () (), some ⟨12⟩, none⟩
      [.node ⟨2⟩ ⟨.arrayAccess () (), some ⟨12⟩, none⟩
          [.node ⟨0⟩ ⟨.arrayCreation [] none false, none, none⟩
              [],
            .node ⟨1⟩ ⟨.numberLiteral 0, none, none⟩ []],
        .node ⟨3⟩
          ⟨.classInstanceCreation [] false, some ⟨12⟩, none⟩
          []]) := by
  have hArray : storeUntyped.tree.Holds
      (.node ⟨0⟩ ⟨.arrayCreation [] none false, none, none⟩
        []) :=
    .node rfl rfl rfl (by simp) (by simp)
  have hIndex : storeUntyped.tree.Holds
      (.node ⟨1⟩ ⟨.numberLiteral 0, none, none⟩ []) :=
    .node rfl rfl rfl (by simp) (by simp)
  have hTarget : storeUntyped.tree.Holds
      (.node ⟨2⟩ ⟨.arrayAccess () (), some ⟨12⟩, none⟩
        [.node ⟨0⟩ ⟨.arrayCreation [] none false, none, none⟩
            [],
          .node ⟨1⟩ ⟨.numberLiteral 0, none, none⟩ []]) := by
    refine .node rfl rfl rfl ?_ ?_
    · simp only [List.mem_cons, List.not_mem_nil, or_false,
        forall_eq_or_imp, forall_eq]
      exact ⟨rfl, rfl⟩
    · simp only [List.mem_cons, List.not_mem_nil, or_false,
        forall_eq_or_imp, forall_eq]
      exact ⟨hArray, hIndex⟩
  have hValue : storeUntyped.tree.Holds
      (.node ⟨3⟩
        ⟨.classInstanceCreation [] false, some ⟨12⟩, none⟩
        []) :=
    .node rfl rfl rfl (by simp) (by simp)
  refine .node rfl rfl rfl ?_ ?_
  · simp only [List.mem_cons, List.not_mem_nil, or_false,
      forall_eq_or_imp, forall_eq]
    exact ⟨rfl, rfl⟩
  · simp only [List.mem_cons, List.not_mem_nil, or_false,
      forall_eq_or_imp, forall_eq]
    exact ⟨hTarget, hValue⟩

theorem start_storeUntyped :
    Start ⟨#[]⟩ ⟨4⟩ storeUntyped where
  reached := reached_storeUntyped
  formed := holds_storeUntyped.wellFormed (by simp)
  session := start_readItem.session

private theorem safe_storeUntyped :
    SafeBelow ⟨4⟩ storeUntyped := by
  have hSafe (label : Label)
      (hTy : label.ty = none ∨ label.ty = some ⟨12⟩)
      (hKind : label.shape.tag ≠ .simpleName) :
      label.Safe storeUntyped.cache := by
    refine ⟨?_, ?_⟩
    · intro ty hIs
      rcases hTy with hNone | hSome
      · cases hNone.symm.trans hIs
      · cases hSome.symm.trans hIs
        exact live_items
    · intro identifier hShape
      rw [hShape] at hKind
      exact absurd rfl hKind
  intro n node hBelow hNode
  have hMem := holds_storeUntyped.below_iff.mp hBelow
  simp only [Placed.ids_node, Placed.idsAll_cons,
    Placed.idsAll_nil, List.append_nil, List.cons_append,
    List.nil_append, List.mem_cons, List.not_mem_nil, or_false]
    at hMem
  rcases hMem with rfl | rfl | rfl | rfl | rfl
  · cases hNode
    exact hSafe _ (Or.inr rfl) (by decide)
  · cases hNode
    exact hSafe _ (Or.inr rfl) (by decide)
  · cases hNode
    exact hSafe _ (Or.inl rfl) (by decide)
  · cases hNode
    exact hSafe _ (Or.inl rfl) (by decide)
  · cases hNode
    exact hSafe _ (Or.inr rfl) (by decide)

/-
  The array is refused below the call that stores. The object
  was not entered: it is an operand of the call, asked for a
  retained result.
-/
theorem lower_fails_at_first_flaw_storeUntyped :
    ∃ after passed check,
      lower ⟨#[]⟩ {} ⟨4⟩ storeUntyped =
          .error (.violation
            (.missingType ⟨0⟩ .arrayCreation)) after ∧
        Refused ⟨#[]⟩ {} ⟨4⟩ storeUntyped after passed check
          (.missingType ⟨0⟩ .arrayCreation) ∧
        after.tree.get? ⟨3⟩ = some {
          kind := .classInstanceCreation [] true
          ty := some ⟨12⟩
          parent := some ⟨5⟩ } := by
  have hRun : lower ⟨#[]⟩ {} ⟨4⟩ storeUntyped =
      .error (.violation (.missingType ⟨0⟩ .arrayCreation))
        (finalState (lower ⟨#[]⟩ {} ⟨4⟩ storeUntyped)) := by
    apply eq_error_of_error?
    decide +kernel
  rcases lower_fails_at_first_flaw start_storeUntyped
      safe_storeUntyped {} with ⟨_, _, _, _, hFails⟩
  rcases hFails _ _ hRun with
    ⟨passed, check, _, cause, _, _, _, hCause, hRefused⟩
  cases hCause
  exact ⟨_, passed, check, hRun, hRefused, by decide +kernel⟩

------------------------------------------------------------
-- A Flaw Behind A Fault
------------------------------------------------------------

/-
  The read of an element that has no type, at the length of an
  array over the scalar that was dropped.
-/
def readAtDroppedLength : Workspace :=
  { droppedLength with
    tree := ⟨#[
      { kind := .nullLiteral
        parent := some ⟨4⟩ },
      { kind := .nullLiteral
        ty := some ⟨14⟩
        parent := some ⟨3⟩ },
      { kind := .simpleName ⟨1⟩
        parent := some ⟨3⟩ },
      { kind := .fieldAccess ⟨1⟩ ⟨2⟩
        parent := some ⟨4⟩ },
      { kind := .arrayAccess ⟨0⟩ ⟨3⟩ }]⟩ }

theorem reached_readAtDroppedLength :
    readAtDroppedLength.tree.Reached := by
  have hArray := Tree.Reached.empty.edit
    (.alloc .nullLiteral none none) rfl
  have hMeasured := hArray.edit
    (.alloc .nullLiteral (some ⟨14⟩) none) rfl
  have hName := hMeasured.edit
    (.alloc (.simpleName ⟨1⟩) none none) rfl
  have hIndex := hName.edit
    (.alloc (.fieldAccess ⟨1⟩ ⟨2⟩) none none) rfl
  exact hIndex.edit
    (.alloc (.arrayAccess ⟨0⟩ ⟨3⟩) none none) rfl

theorem holds_readAtDroppedLength :
    readAtDroppedLength.tree.Holds (.node ⟨4⟩
      ⟨.arrayAccess () (), none, none⟩
      [.node ⟨0⟩ ⟨.nullLiteral, none, none⟩ [],
        .node ⟨3⟩ ⟨.fieldAccess () (), none, none⟩
          [.node ⟨1⟩ ⟨.nullLiteral, some ⟨14⟩, none⟩ [],
            .node ⟨2⟩ ⟨.simpleName ⟨1⟩, none, none⟩ []]]) := by
  have hArray : readAtDroppedLength.tree.Holds
      (.node ⟨0⟩ ⟨.nullLiteral, none, none⟩ []) :=
    .node rfl rfl rfl (by simp) (by simp)
  have hMeasured : readAtDroppedLength.tree.Holds
      (.node ⟨1⟩ ⟨.nullLiteral, some ⟨14⟩, none⟩ []) :=
    .node rfl rfl rfl (by simp) (by simp)
  have hName : readAtDroppedLength.tree.Holds
      (.node ⟨2⟩ ⟨.simpleName ⟨1⟩, none, none⟩ []) :=
    .node rfl rfl rfl (by simp) (by simp)
  have hIndex : readAtDroppedLength.tree.Holds
      (.node ⟨3⟩ ⟨.fieldAccess () (), none, none⟩
        [.node ⟨1⟩ ⟨.nullLiteral, some ⟨14⟩, none⟩ [],
          .node ⟨2⟩ ⟨.simpleName ⟨1⟩, none, none⟩ []]) := by
    refine .node rfl rfl rfl ?_ ?_
    · simp only [List.mem_cons, List.not_mem_nil, or_false,
        forall_eq_or_imp, forall_eq]
      exact ⟨rfl, rfl⟩
    · simp only [List.mem_cons, List.not_mem_nil, or_false,
        forall_eq_or_imp, forall_eq]
      exact ⟨hMeasured, hName⟩
  refine .node rfl rfl rfl ?_ ?_
  · simp only [List.mem_cons, List.not_mem_nil, or_false,
      forall_eq_or_imp, forall_eq]
    exact ⟨rfl, rfl⟩
  · simp only [List.mem_cons, List.not_mem_nil, or_false,
      forall_eq_or_imp, forall_eq]
    exact ⟨hArray, hIndex⟩

/-
  It is not enough that the type of each node is live. There is
  an access without a type, but the run is ended at the length
  of an array over a type from before a reset, and is never
  refused.
-/
theorem lower_faults_before_flaw :
    Start ⟨#[]⟩ ⟨4⟩ readAtDroppedLength ∧
      (∀ n node,
        readAtDroppedLength.tree.Below ⟨4⟩ n →
          readAtDroppedLength.tree.get? n = some node →
            (∀ ty, node.ty = some ty →
              (readAtDroppedLength.cache.type? ty).isSome) ∧
              ∀ identifier,
                node.kind = .simpleName identifier →
                  (readAtDroppedLength.cache.names.text?
                    identifier).isSome) ∧
      (∃ node,
        readAtDroppedLength.tree.get? ⟨4⟩ = some node ∧
          node.kind = .arrayAccess ⟨0⟩ ⟨3⟩ ∧
          node.ty = none) ∧
      ∃ after,
        lower ⟨#[]⟩ {} ⟨4⟩ readAtDroppedLength =
          .error (.cacheFault (.contract
            (.staleHandle "TypeId(2)"))) after := by
  refine ⟨⟨reached_readAtDroppedLength,
    holds_readAtDroppedLength.wellFormed (by simp),
    start_droppedLength.session⟩, ?_, ⟨_, rfl, rfl, rfl⟩, ?_⟩
  · intro n node hBelow hNode
    have hMem := holds_readAtDroppedLength.below_iff.mp hBelow
    simp only [Placed.ids_node, Placed.idsAll_cons,
      Placed.idsAll_nil, List.append_nil, List.cons_append,
      List.nil_append, List.mem_cons, List.not_mem_nil,
      or_false] at hMem
    rcases hMem with rfl | rfl | rfl | rfl | rfl
    · cases hNode
      exact ⟨nofun, nofun⟩
    · cases hNode
      exact ⟨nofun, nofun⟩
    · cases hNode
      exact ⟨nofun, nofun⟩
    · cases hNode
      refine ⟨?_, nofun⟩
      intro ty hTy
      cases hTy
      decide +kernel
    · cases hNode
      refine ⟨nofun, ?_⟩
      intro identifier hKind
      cases hKind
      decide +kernel
  · refine ⟨_, eq_error_of_error? ?_⟩
    decide +kernel

end Arrays

end Lowering
