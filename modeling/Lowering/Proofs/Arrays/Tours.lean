import Mathlib.Data.Set.Card
import Lowering.Proofs.Tree.Validation
import Lowering.Proofs.Arrays.Consumed

/-
  This file proves where a run of the pass comes by, although
  it changes the tree on its way. A run always comes to an
  end. One that succeeds enters and leaves each node below the
  root once, but for the accesses that stores assign to; in
  their stead it enters and leaves the calls that take the
  places of the stores. It comes by nothing else that it made.

  So as many nodes are entered as there were below the root.

  Key definitions include:
    * `Asked`
    * `Visitor.logging`
    * `Logs`
    * `Arrays.CallsFor`
    * `Arrays.Toured`
    * `Arrays.Tour`

  Main results:
    * `Arrays.Toured.perm_entered`
    * `Arrays.Toured.perm_left`
    * `Arrays.toursWithin`
    * `Arrays.lower_visits_each_node_once`
-/

namespace Lowering

------------------------------------------------------------
-- Logs
------------------------------------------------------------

/- What a visitor was asked, and of which tree. -/
structure Asked where
  visit : Visit
  tree : Tree

/- The node that was entered, if one was. -/
def Asked.entered? (asked : Asked) : Option NodeId :=
  match asked.visit with
  | .enter id => some id
  | .leave _ => none

/- The node that was left, if one was. -/
def Asked.left? (asked : Asked) : Option NodeId :=
  match asked.visit with
  | .enter _ => none
  | .leave id => some id

/- The nodes that were entered, one after the other. -/
def entered (log : List Asked) : List NodeId :=
  log.filterMap (·.entered?)

/- The nodes that were left, one after the other. -/
def left (log : List Asked) : List NodeId :=
  log.filterMap (·.left?)

section Nodes

variable (id : NodeId)
variable (tree : Tree)
variable (log log' : List Asked)

@[simp] theorem entered_nil : entered [] = [] := rfl

@[simp] theorem entered_enter :
    entered (⟨.enter id, tree⟩ :: log) = id :: entered log :=
  rfl

@[simp] theorem entered_leave :
    entered (⟨.leave id, tree⟩ :: log) = entered log :=
  rfl

@[simp] theorem entered_append :
    entered (log ++ log') = entered log ++ entered log' :=
  List.filterMap_append

@[simp] theorem left_nil : left [] = [] := rfl

@[simp] theorem left_enter :
    left (⟨.enter id, tree⟩ :: log) = left log :=
  rfl

@[simp] theorem left_leave :
    left (⟨.leave id, tree⟩ :: log) = id :: left log :=
  rfl

@[simp] theorem left_append :
    left (log ++ log') = left log ++ left log' :=
  List.filterMap_append

end Nodes

/- Note what is asked, and of which tree. -/
def note (visit : Visit) : StateT (List Asked) LowerM Unit := do
  let workspace ← (get : LowerM Workspace)
  modify (· ++ [⟨visit, workspace.tree⟩])

/- A visitor that notes each question and then answers it. -/
def Visitor.logging
    (visitor : Visitor LowerM) :
    Visitor (StateT (List Asked) LowerM) where
  enter id tag := do
    note (.enter id)
    visitor.enter id tag
  leave id tag := do
    note (.leave id)
    visitor.leave id tag
  reach := visitor.reach

/- An operation succeeds, and this is noted on the way. -/
def Logs
    {α : Type}
    (operation : StateT (List Asked) LowerM α)
    (before : Workspace)
    (answer : α)
    (after : Workspace)
    (asked : List Asked) : Prop :=
  ∀ log, operation log before =
    .ok (answer, log ++ asked) after

namespace Logs

variable {α β : Type}
variable {before middle after : Workspace}
variable {asked asked' : List Asked}

theorem bind
    {first : StateT (List Asked) LowerM α}
    {next : α → StateT (List Asked) LowerM β}
    {answer : α}
    {answer' : β}
    (hFirst : Logs first before answer middle asked)
    (hNext : Logs (next answer) middle answer' after asked') :
    Logs (first >>= next) before answer' after
      (asked ++ asked') := by
  intro log
  have hLast := hNext (log ++ asked)
  rw [List.append_assoc] at hLast
  exact (run_bind_ok (hFirst log)).trans hLast

theorem pure (answer : α) (workspace : Workspace) :
    Logs (Pure.pure answer) workspace answer workspace [] := by
  intro log
  rw [List.append_nil]
  rfl

/- What the plain visitor does is not noted. -/
theorem lift
    {operation : LowerM α}
    {answer : α}
    (hRun : operation before = .ok answer after) :
    Logs (liftM operation) before answer after [] := by
  intro log
  rw [List.append_nil]
  exact (run_bind_ok hRun).trans rfl

theorem note (visit : Visit) (workspace : Workspace) :
    Logs (Lowering.note visit) workspace () workspace
      [⟨visit, workspace.tree⟩] :=
  fun _ => rfl

/- A question is noted, and then it is answered. -/
theorem noted
    {visit : Visit}
    {operation : LowerM α}
    {answer : α}
    (hRun : operation before = .ok answer after) :
    Logs (do
        Lowering.note visit
        liftM operation) before answer after
      [⟨visit, before.tree⟩] :=
  (Logs.note visit before).bind (Logs.lift hRun)

/- A question about the tree is none of the visitor. -/
theorem inTree
    {question : Tree → Except TreeFault α}
    {answer : α}
    (hAnswer : question before.tree = .ok answer) :
    Logs (liftM (TreeM.inspect question)) before answer before
      [] :=
  Logs.lift (run_inTree_ok hAnswer)

end Logs

namespace Arrays

open Symbols

------------------------------------------------------------
-- Tours
------------------------------------------------------------

/-
  In between two trees, a new call of a function has taken the
  place of an assignment.
-/
structure CallsFor
    (before after : Tree)
    (store call : NodeId) : Prop where
  fresh : before.size ≤ call.raw
  replaced : ∃ old new,
    old.id = store ∧
      new.id = call ∧
      new.label.shape.tag = .functionInvocation ∧
      Tree.Replaced before after old new

/- A store that a walk comes by, and the call for it. -/
structure Detour where
  store : NodeId
  target : NodeId
  call : NodeId

/-
  Where a walk over some subtrees comes by. It goes down and
  up through each node. At a store, it goes through the call
  instead, which is entered right after the store.
-/
inductive Toured (symbols : Symbols) :
    List Placed → List Asked → List Detour → Prop
  | nil : Toured symbols [] [] []
  | through
      {id : NodeId}
      {label : Label}
      {children rest : List Placed}
      {down up : Tree}
      {asked asked' : List Asked}
      {detours detours' : List Detour}
      (none_stored : stored? symbols label
        (children.map (·.view)) = some none)
      (below : Toured symbols children asked detours)
      (beside : Toured symbols rest asked' detours') :
      Toured symbols (.node id label children :: rest)
        (⟨.enter id, down⟩ :: asked ++
          ⟨.leave id, up⟩ :: asked')
        (detours ++ detours')
  | stored
      {id target call : NodeId}
      {label outer : Label}
      {operands rest : List Placed}
      {value : Placed}
      {store : Store}
      {down called back up : Tree}
      {asked asked' : List Asked}
      {detours detours' : List Detour}
      (stored : stored? symbols label
        [.node outer (operands.map (·.view)), value.view] =
          some (some store))
      (calls : CallsFor down called id call)
      (below : Toured symbols (operands ++ [value]) asked
        detours)
      (beside : Toured symbols rest asked' detours') :
      Toured symbols
        (.node id label [.node target outer operands, value] ::
          rest)
        (⟨.enter id, down⟩ :: ⟨.enter call, called⟩ :: asked ++
          ⟨.leave call, back⟩ :: ⟨.leave id, up⟩ :: asked')
        (⟨id, target, call⟩ :: detours ++ detours')

namespace Toured

variable {symbols : Symbols}
variable {forest : List Placed}
variable {asked : List Asked}
variable {detours : List Detour}

theorem mono
    {later : Symbols}
    (hGrown : symbols.Grown later)
    (hToured : Toured symbols forest asked detours) :
    Toured later forest asked detours := by
  induction hToured with
  | nil => exact .nil
  | through hNone _ _ ihBelow ihBeside =>
      exact .through (stable_stored? _ _ _ _ _ hGrown hNone)
        ihBelow ihBeside
  | stored hStored hCalls _ _ ihBelow ihBeside =>
      exact .stored (stable_stored? _ _ _ _ _ hGrown hStored)
        hCalls ihBelow ihBeside

/- Whether the last result is retained changes no tour. -/
theorem of_retain
    {front : List Placed}
    {value : Placed}
    (hToured : Toured symbols (front ++ [value.retain]) asked
      detours) :
    Toured symbols (front ++ [value]) asked detours := by
  induction front generalizing asked detours with
  | nil =>
      rcases value with ⟨id, label, children⟩
      rw [List.nil_append, Placed.retain] at hToured
      cases hToured with
      | through hNone hBelow hBeside =>
          rw [stored?_retain] at hNone
          exact .through hNone hBelow hBeside
      | stored hStored hCalls hBelow hBeside =>
          rw [stored?_retain] at hStored
          exact .stored hStored hCalls hBelow hBeside
  | cons first front ih =>
      rw [List.cons_append] at hToured
      cases hToured with
      | through hNone hBelow hBeside =>
          exact .through hNone hBelow (ih hBeside)
      | stored hStored hCalls hBelow hBeside =>
          exact .stored hStored hCalls hBelow (ih hBeside)

------------------------------------------------------------
-- Accounts
------------------------------------------------------------

/-
  The nodes that are entered, with the accesses that stores
  assign to, are those of the subtrees with the calls.
-/
theorem perm_entered
    (hToured : Toured symbols forest asked detours) :
    (entered asked ++ detours.map (·.target)).Perm
      (Placed.idsAll forest ++ detours.map (·.call)) := by
  rw [List.perm_iff_count]
  intro n
  induction hToured with
  | nil => simp [entered]
  | through _ _ _ ihBelow ihBeside =>
      simp only [List.count_append] at ihBelow ihBeside
      simp only [List.cons_append, entered_enter,
        entered_append, entered_leave, List.count_append,
        List.count_cons, List.map_append, Placed.idsAll_cons,
        Placed.ids_node]
      omega
  | stored _ _ _ _ ihBelow ihBeside =>
      simp only [Placed.idsAll_append, Placed.idsAll_cons,
        Placed.idsAll_nil, List.append_nil, List.count_append]
        at ihBelow ihBeside
      simp only [List.cons_append, entered_enter,
        entered_append, entered_leave, List.count_append,
        List.count_cons, List.map_append, List.map_cons,
        Placed.idsAll_cons, Placed.idsAll_nil,
        List.append_nil, Placed.ids_node]
      omega

/- What is left is what is entered. -/
theorem perm_left
    (hToured : Toured symbols forest asked detours) :
    (left asked).Perm (entered asked) := by
  rw [List.perm_iff_count]
  intro n
  induction hToured with
  | nil => rfl
  | through _ _ _ ihBelow ihBeside =>
      simp only [List.cons_append, entered_enter,
        entered_append, entered_leave, left_enter,
        left_append, left_leave, List.count_append,
        List.count_cons]
      omega
  | stored _ _ _ _ ihBelow ihBeside =>
      simp only [List.cons_append, entered_enter,
        entered_append, entered_leave, left_enter,
        left_append, left_leave, List.count_append,
        List.count_cons]
      omega

/- As many nodes are entered as there are in the subtrees. -/
theorem length_entered
    (hToured : Toured symbols forest asked detours) :
    (entered asked).length = (Placed.idsAll forest).length := by
  have hLength := hToured.perm_entered.length_eq
  simp only [List.length_append, List.length_map] at hLength
  omega

------------------------------------------------------------
-- Detours
------------------------------------------------------------

/- A tour of a subtree and then of others. -/
theorem beside
    {placed : Placed}
    {rest : List Placed}
    {asked' : List Asked}
    {detours' : List Detour}
    (hFirst : Toured symbols [placed] asked detours)
    (hRest : Toured symbols rest asked' detours') :
    Toured symbols (placed :: rest) (asked ++ asked')
      (detours ++ detours') := by
  cases hFirst with
  | through hNone hBelow hBeside =>
      cases hBeside
      rw [List.append_nil, List.append_assoc]
      exact .through hNone hBelow hRest
  | stored hStored hCalls hBelow hBeside =>
      cases hBeside
      rw [List.append_nil, List.append_assoc]
      exact .stored hStored hCalls hBelow hRest

/- The tour of a subtree that is no store. -/
theorem of_through
    {id : NodeId}
    {label : Label}
    {children : List Placed}
    (hToured : Toured symbols [.node id label children] asked
      detours)
    (hNone : stored? symbols label (children.map (·.view)) =
      some none) :
    ∃ down up below,
      asked = ⟨.enter id, down⟩ :: below ++ [⟨.leave id, up⟩] ∧
        Toured symbols children below detours := by
  generalize hForest : [Placed.node id label children] = forest
    at hToured
  cases hToured with
  | nil => exact absurd hForest (by simp)
  | through _ hBelow hBeside =>
      cases hForest
      cases hBeside
      rw [List.append_nil]
      exact ⟨_, _, _, rfl, hBelow⟩
  | stored hStored =>
      cases hForest
      simp only [List.map_cons, List.map_nil,
        Placed.view_node] at hNone
      rw [hStored] at hNone
      exact absurd hNone (by simp)

end Toured

/- Subtrees that are held, and stand below a root. -/
def HeldBelow
    (tree : Tree)
    (root : NodeId)
    (forest : List Placed) : Prop :=
  ∀ placed ∈ forest,
    tree.Holds placed ∧ tree.Below root placed.id

section Held

variable {symbols : Symbols}
variable {tree : Tree}
variable {root id target : NodeId}
variable {label outer : Label}
variable {first value : Placed}
variable {forest children operands : List Placed}

theorem HeldBelow.tail
    (hHeld : HeldBelow tree root (first :: forest)) :
    HeldBelow tree root forest :=
  fun placed hMem => hHeld placed (List.mem_cons_of_mem _ hMem)

theorem HeldBelow.under
    (hHeld : HeldBelow tree root
      (.node id label children :: forest)) :
    HeldBelow tree root children := by
  intro child hMem
  rcases hHeld _ List.mem_cons_self with ⟨hHolds, hBelow⟩
  exact ⟨hHolds.child hMem, hBelow.tail
    (hHolds.lists_iff.mpr ⟨child, hMem, rfl⟩)⟩

/- The operands of a store, without the access itself. -/
theorem HeldBelow.ofStore
    (hHeld : HeldBelow tree root
      (.node id label [.node target outer operands, value] ::
        forest)) :
    HeldBelow tree root (operands ++ [value]) := by
  intro placed hMem
  rcases List.mem_append.mp hMem with hMem | hMem
  · exact hHeld.under.under placed hMem
  · rw [List.mem_singleton.mp hMem]
    exact hHeld.under value (by simp)

namespace Toured

variable {asked : List Asked}
variable {detours : List Detour}

/- Detours are made at stores. -/
theorem stores
    (hToured : Toured symbols forest asked detours)
    (hHeld : HeldBelow tree root forest)
    {detour : Detour}
    (hMem : detour ∈ detours) :
    ∃ value component,
      Stores symbols tree root detour.store detour.target value
        component := by
  induction hToured with
  | nil => exact absurd hMem List.not_mem_nil
  | through _ _ _ ihBelow ihBeside =>
      rcases List.mem_append.mp hMem with hMem | hMem
      · exact ihBelow hHeld.under hMem
      · exact ihBeside hHeld.tail hMem
  | stored hStored _ _ _ ihBelow ihBeside =>
      rcases List.mem_append.mp hMem with hMem | hMem
      · rcases List.mem_cons.mp hMem with rfl | hMem
        · rcases hHeld _ List.mem_cons_self with
            ⟨hHolds, hBelow⟩
          exact ⟨_, _, stores_of_stored? hHolds hBelow hStored⟩
        · exact ihBelow hHeld.ofStore hMem
      · exact ihBeside hHeld.tail hMem

/- A detour is made at each store. -/
theorem exists_detour
    (hToured : Toured symbols forest asked detours)
    (hHeld : HeldBelow tree root forest)
    {store target value : NodeId}
    {component : TypeId}
    (hStores : Stores symbols tree root store target value
      component)
    (hMem : store ∈ Placed.idsAll forest) :
    ∃ call, ⟨store, target, call⟩ ∈ detours := by
  induction hToured with
  | nil => exact absurd hMem (by simp)
  | through hNone _ _ ihBelow ihBeside =>
      rw [Placed.idsAll_cons, Placed.ids_node, List.cons_append]
        at hMem
      rcases List.mem_cons.mp hMem with rfl | hMem
      · rcases hHeld _ List.mem_cons_self with ⟨hHolds, _⟩
        exact absurd hStores
          (not_stores_of_stored? hHolds hNone _ _ _)
      rcases List.mem_append.mp hMem with hMem | hMem
      · rcases ihBelow hHeld.under hMem with ⟨call, hCall⟩
        exact ⟨call, List.mem_append_left _ hCall⟩
      · rcases ihBeside hHeld.tail hMem with ⟨call, hCall⟩
        exact ⟨call, List.mem_append_right _ hCall⟩
  | stored hStored _ _ _ ihBelow ihBeside =>
      rcases hHeld _ List.mem_cons_self with ⟨hHolds, hBelow⟩
      simp only [Placed.idsAll_cons, Placed.ids_node,
        Placed.idsAll_nil, List.append_nil, List.cons_append,
        List.append_assoc, List.mem_cons, List.mem_append]
        at hMem
      rcases hMem with rfl | rfl | hMem | hMem | hMem
      · rcases hStores.stored? hHolds with ⟨_, _, _, hSame, _⟩
        cases hSame
        exact ⟨_, List.mem_append_left _ List.mem_cons_self⟩
      · exact absurd
          (stores_of_stored? hHolds hBelow hStored)
          (hStores.untaken _ _ _)
      · rcases ihBelow hHeld.ofStore (by simp [hMem]) with
          ⟨call, hCall⟩
        exact ⟨call, List.mem_append_left _
          (List.mem_cons_of_mem _ hCall)⟩
      · rcases ihBelow hHeld.ofStore (by simp [hMem]) with
          ⟨call, hCall⟩
        exact ⟨call, List.mem_append_left _
          (List.mem_cons_of_mem _ hCall)⟩
      · rcases ihBeside hHeld.tail hMem with ⟨call, hCall⟩
        exact ⟨call, List.mem_append_right _ hCall⟩

end Toured

end Held

/-
  In a log, a call is entered right after a store, whose place
  it has taken, and the store is left right after the call.
-/
def Diverts
    (log : List Asked)
    (store call : NodeId) : Prop :=
  ∃ down called back up,
    CallsFor down called store call ∧
      [⟨.enter store, down⟩, ⟨.enter call, called⟩] <:+: log ∧
      [⟨.leave call, back⟩, ⟨.leave store, up⟩] <:+: log

theorem Diverts.mono
    {log log' : List Asked}
    {store call : NodeId}
    (hDiverts : Diverts log store call)
    (hPart : log <:+: log') :
    Diverts log' store call := by
  rcases hDiverts with
    ⟨down, called, back, up, hCalls, hEnter, hLeave⟩
  exact ⟨down, called, back, up, hCalls, hEnter.trans hPart,
    hLeave.trans hPart⟩

/- A detour shows in the log. -/
theorem Toured.diverts
    {symbols : Symbols}
    {forest : List Placed}
    {log : List Asked}
    {detours : List Detour}
    (hToured : Toured symbols forest log detours)
    {detour : Detour}
    (hMem : detour ∈ detours) :
    Diverts log detour.store detour.call := by
  induction hToured with
  | nil => exact absurd hMem List.not_mem_nil
  | @through _ _ _ _ _ _ below _ _ _ _ _ _ ihBelow
      ihBeside =>
      rcases List.mem_append.mp hMem with hMem | hMem
      · exact (ihBelow hMem).mono ⟨[_], _, rfl⟩
      · apply (ihBeside hMem).mono
        exact (List.suffix_cons _ _).isInfix.trans
          (List.suffix_append _ _).isInfix
  | @stored _ _ _ _ _ _ _ _ _ down called back up below _ _ _ _
      hCalls _ _ ihBelow ihBeside =>
      rcases List.mem_append.mp hMem with hMem | hMem
      · rcases List.mem_cons.mp hMem with rfl | hMem
        · refine ⟨down, called, back, up, hCalls,
            ⟨[], _, rfl⟩, ?_⟩
          exact (List.infix_append [] [_, _] _).trans
            (List.suffix_append _ _).isInfix
        · exact (ihBelow hMem).mono ⟨[_, _], _, rfl⟩
      · apply (ihBeside hMem).mono
        exact ((List.suffix_cons _ _).trans
          (List.suffix_cons _ _)).isInfix.trans
            (List.suffix_append _ _).isInfix

------------------------------------------------------------
-- Walks
------------------------------------------------------------

/-
  A tour from one tree to another. The calls that are made for
  stores are new, each newer than those made before it.
-/
structure Tour
    (symbols : Symbols)
    (before after : Tree)
    (forest : List Placed)
    (log : List Asked)
    (detours : List Detour) : Prop where
  toured : Toured symbols forest log detours
  made : ∀ detour ∈ detours,
    before.size ≤ detour.call.raw ∧
      detour.call.raw < after.size
  ordered : detours.Pairwise (·.call.raw < ·.call.raw)

namespace Tour

variable {symbols later : Symbols}
variable {before middle after : Tree}
variable {placed : Placed}
variable {rest : List Placed}
variable {log log' : List Asked}
variable {detours detours' : List Detour}

theorem nil (symbols : Symbols) (tree : Tree) :
    Tour symbols tree tree [] [] [] :=
  ⟨.nil, by simp, .nil⟩

/- A tour of a subtree and then of others, in later symbols. -/
theorem beside
    (hFirst : Tour symbols before middle [placed] log detours)
    (hRest : Tour later middle after rest log' detours')
    (hGrown : symbols.Grown later)
    (hBefore : before.size ≤ middle.size)
    (hAfter : middle.size ≤ after.size) :
    Tour later before after (placed :: rest) (log ++ log')
      (detours ++ detours') := by
  refine ⟨(hFirst.toured.mono hGrown).beside hRest.toured,
    ?_, ?_⟩
  · intro detour hMem
    rcases List.mem_append.mp hMem with hMem | hMem
    · have hMade := hFirst.made detour hMem
      omega
    · have hMade := hRest.made detour hMem
      omega
  · rw [List.pairwise_append]
    refine ⟨hFirst.ordered, hRest.ordered, ?_⟩
    intro detour hMem detour' hMem'
    have hMade := hFirst.made detour hMem
    have hMade' := hRest.made detour' hMem'
    omega

end Tour

section Walks

variable (table : BindingTable)
variable (options : Options)

/-
  To a depth, what a walk does is a tour, and it starts at the
  root of the subtree.
-/
def ToursWithin (depth : Nat) : Prop :=
  ∀ (before : Workspace) (placed : Placed) (after : Workspace),
    before.At placed →
      placed.ids.length ≤ depth →
        (visitor table options).walkWithin depth placed.id
            before = .ok () after →
          ∃ log detours,
            Logs ((visitor table options).logging.walkWithin
              depth placed.id) before () after log ∧
              Tour after.symbols before.tree after.tree
                [placed] log detours ∧
              log.head? = some ⟨.enter placed.id, before.tree⟩

variable {table} {options}
variable {before after : Workspace}
variable {id : NodeId}
variable {label : Label}
variable {children : List Placed}
variable {depth : Nat}

/- What a walk that succeeds has done at its place. -/
private theorem exists_walked
    {placed : Placed}
    (hAt : before.At placed)
    (hDepth : placed.ids.length ≤ depth)
    (hRun : (visitor table options).walkWithin depth placed.id
      before = .ok () after) :
    ∃ new, Lowered before after placed new := by
  rcases hAt.standing.isAssigned_ok with ⟨assigned, hAssigned⟩
  have hWalks := walksWithin table options False depth before
    placed assigned hAt hDepth False.elim hAssigned
  unfold Walks at hWalks
  rw [hRun] at hWalks
  rcases hWalks with ⟨new, hLowered, _⟩
  exact ⟨new, hLowered⟩

/- The children of a node are walked one after the other. -/
private theorem tours_children
    (hTours : ToursWithin table options depth)
    (rest front : List Placed)
    (hAt : before.At (.node id label (front ++ rest)))
    (hDepth : ∀ child ∈ rest, child.ids.length ≤ depth)
    (hRun : ((rest.map (·.id)).forM
      ((visitor table options).walkWithin depth) :
        LowerM Unit) before = .ok () after) :
    ∃ news log detours,
      Lowered before after (.node id label (front ++ rest))
          (.node id label (front ++ news)) ∧
        Logs ((rest.map (·.id)).forM
          ((visitor table options).logging.walkWithin depth))
            before () after log ∧
        Tour after.symbols before.tree after.tree rest log
          detours := by
  induction rest generalizing front before with
  | nil =>
      cases hRun
      exact ⟨[], [], [], Lowered.refl hAt, Logs.pure () _,
        .nil _ _⟩
  | cons child rest ih =>
      rcases run_bind_eq_ok hRun with
        ⟨_, middle, hFirst, hRest⟩
      have hChildAt := hAt.child (by simp :
        child ∈ front ++ child :: rest)
      have hShort := hDepth child (by simp)
      rcases hTours before child middle hChildAt hShort hFirst
        with ⟨log, detours, hLogs, hTour, _⟩
      rcases exists_walked hChildAt hShort hFirst with
        ⟨new, hLowered⟩
      have hUp := Lowered.ofChild hAt hLowered
      have hStays := hUp.stays hAt
      rw [List.append_cons] at hStays
      rcases ih (front ++ [new]) hStays
          (fun other hMem => hDepth other (by simp [hMem]))
          hRest with
        ⟨news, log', detours', hLoop, hLogs', hTour'⟩
      have hTours := hTour.beside hTour' hLoop.grown
        hLowered.replaced.grown hLoop.replaced.grown
      rw [← List.append_cons, ← List.append_cons] at hLoop
      exact ⟨new :: news, log ++ log', detours ++ detours',
        hUp.trans hAt hLoop, hLogs.bind hLogs', hTours⟩

/- The walk goes down through a node and up again. -/
private theorem tours_through
    {start : Workspace}
    (hTours : ToursWithin table options depth)
    (hAt : start.At (.node id label children))
    (hDepth : (Placed.node id label children).ids.length ≤
      depth + 1)
    (hNone : stored? start.symbols label
      (children.map (·.view)) = some none)
    (hRun : (do
        let below ← Workspace.inTree (·.children id)
        below.forM ((visitor table options).walkWithin depth)
        leave table options id label.shape.tag : LowerM Unit)
          start = .ok () after) :
    ∃ log detours,
      Logs (do
          let below ← liftM (TreeM.inspect (·.children id))
          below.forM
            ((visitor table options).logging.walkWithin depth)
          (visitor table options).logging.leave id
            label.shape.tag) start () after log ∧
        Tour after.symbols start.tree after.tree
          [.node id label children]
          (⟨.enter id, start.tree⟩ :: log) detours := by
  have hListed := hAt.standing.holds.children
  rw [run_bind_ok (run_inTree_ok hListed)] at hRun
  rcases run_bind_eq_ok hRun with ⟨_, middle, hBelow, hLeave⟩
  rw [Placed.children_node] at hBelow
  rcases tours_children hTours children [] hAt
      (by
        intro child hMem
        have hLength := Placed.length_ids_le_of_mem hMem
        rw [Placed.ids_node, List.length_cons] at hDepth
        omega)
      hBelow with
    ⟨news, log, detours, hLoop, hLogs, hTour⟩
  rw [List.nil_append, List.nil_append] at hLoop
  have hStill := hLoop.stays hAt
  rcases hStill.standing.isAssigned_ok with ⟨_, hAssigned⟩
  rcases exists_left hStill hAssigned hLeave with
    ⟨new, hLeft, _⟩
  have hSize := hLeft.replaced.grown
  refine ⟨_, detours, (Logs.inTree hListed).bind
    (hLogs.bind (Logs.noted hLeave)), ?_⟩
  have hToured : Toured after.symbols [.node id label children]
      (⟨.enter id, start.tree⟩ :: log ++
        [⟨.leave id, middle.tree⟩]) detours := by
    have hNone' := stable_stored? _ _ _ _ _
      (hLoop.grown.trans hLeft.grown) hNone
    rw [← List.append_nil detours]
    exact .through hNone' (hTour.toured.mono hLeft.grown) .nil
  refine ⟨hToured, ?_, hTour.ordered⟩
  intro detour hMem
  have hMade := hTour.made detour hMem
  omega

/-
  At a store, the walk goes through the call instead, which is
  no store.
-/
private theorem tours_stored
    {middle : Workspace}
    {old call : Placed}
    (hTours : ToursWithin table options depth)
    (hAt : before.At old)
    (hDepth : old.ids.length ≤ depth + 1)
    (hStored : Stored False table options before middle old
      call)
    (hRun : (visitor table options).walkWithin depth call.id
      middle = .ok () after) :
    ∃ log detours,
      Logs ((visitor table options).logging.walkWithin depth
          call.id) middle () after log ∧
        Tour after.symbols before.tree after.tree [old]
          (⟨.enter old.id, before.tree⟩ :: log ++
            [⟨.leave old.id, after.tree⟩]) detours := by
  have hFewer := hStored.fewer
  have hThere := hStored.lowered.stays hAt
  have hShort : call.ids.length ≤ depth := by omega
  rcases hTours middle call after hThere hShort hRun with
    ⟨log, detours, hLogs, hTour, hHead⟩
  rcases exists_walked hThere hShort hRun with
    ⟨new, hLowered⟩
  have hSize := hLowered.replaced.grown
  have hMade := hStored.lowered.replaced.holds.id_lt_size
  have hFresh := hStored.fresh
  have hReplaced := hStored.lowered.replaced
  have hTaken := hStored.taken.mono hLowered.grown
  rcases hStored.operands with
    ⟨target, outer, operands, value, hChildren, hArguments⟩
  rcases old with ⟨id, label, children⟩
  rcases call with ⟨callId, callLabel, arguments⟩
  rw [Placed.children_node] at hChildren hArguments
  subst hChildren hArguments
  simp only [Placed.view_node, List.map_cons, List.map_nil]
    at hTaken
  rcases stored_of_taken hTaken with ⟨hTag, store, hStores⟩
  rcases hTour.toured.of_through
    (stored?_of_tag (by rw [hTag]; simp) _) with
    ⟨called, back, below, rfl, hBelow⟩
  have hCalled : called = middle.tree :=
    congrArg Asked.tree (Option.some.inj hHead)
  subst hCalled
  have hCalls : CallsFor before.tree middle.tree id callId :=
    ⟨hFresh, _, .node callId callLabel _, rfl, rfl, hTag,
      hReplaced⟩
  have hToured : Toured after.symbols [.node id label
      [.node target outer operands, value]]
      (⟨.enter id, before.tree⟩ ::
        ⟨.enter callId, middle.tree⟩ :: below ++
        [⟨.leave callId, back⟩, ⟨.leave id, after.tree⟩])
      (⟨id, target, callId⟩ :: detours) := by
    rw [← List.append_nil (_ :: detours)]
    exact .stored hStores hCalls hBelow.of_retain .nil
  refine ⟨_, ⟨id, target, callId⟩ :: detours, hLogs, ?_, ?_,
    ?_⟩
  · simpa using hToured
  · intro detour hMem
    rcases List.mem_cons.mp hMem with rfl | hMem
    · exact ⟨hFresh, Nat.lt_of_lt_of_le hMade hSize⟩
    · have hNewer := hTour.made detour hMem
      omega
  · refine .cons ?_ hTour.ordered
    intro detour hMem
    exact Nat.lt_of_lt_of_le hMade (hTour.made detour hMem).1

/- What a walk does is a tour, by induction on the depth. -/
theorem toursWithin
    (table : BindingTable)
    (options : Options)
    (depth : Nat) :
    ToursWithin table options depth := by
  induction depth with
  | zero =>
      intro before placed after _ hDepth
      cases placed
      simp at hDepth
  | succ depth ih =>
      intro before placed after hAt hDepth hRun
      rcases placed with ⟨id, label, children⟩
      have hTag := hAt.standing.holds.tag
      have hNoted {descent : Descent} {middle : Workspace}
          (hDown : enter table id label.shape.tag before =
            .ok descent middle) :
          Logs ((visitor table options).logging.enter id
            label.shape.tag) before descent middle
              [⟨.enter id, before.tree⟩] := Logs.noted hDown
      unfold Visitor.walkWithin
      cases wentOn_of_run hAt hRun with
      | through hDown _ hReady hNone hRest =>
          rcases tours_through ih (hAt.withSymbols hReady)
              hDepth hNone hRest with
            ⟨log, detours, hLogs, hTour⟩
          exact ⟨_, detours, (Logs.inTree hTag).bind
            ((hNoted hDown).bind hLogs), hTour, rfl⟩
      | stored hDown hStored hCall hLeave =>
          rcases tours_stored ih hAt hDepth hStored hCall with
            ⟨log, detours, hLogs, hTour⟩
          exact ⟨_, detours, (Logs.inTree hTag).bind
            ((hNoted hDown).bind
              (hLogs.bind (Logs.noted hLeave))), hTour, rfl⟩

end Walks

------------------------------------------------------------
-- Runs
------------------------------------------------------------

/-
  What the log of a run tells. Each node below the root is
  entered once and left once, but for the accesses that stores
  assign to. Of the nodes that the run has made, only the calls
  are, each right within the store that it takes the place of.
-/
structure EachOnce
    (root : NodeId)
    (before after : Workspace)
    (log : List Asked) : Prop where
  once : (entered log).Nodup
  left : (left log).Perm (entered log)
  nodes : ∀ n,
    n ∈ entered log ↔
      (before.tree.Below root n ∧
          ∀ store value component,
            ¬ Stores after.symbols before.tree root store n
              value component) ∨
        ∃ store target value component,
          Stores after.symbols before.tree root store target
              value component ∧
            before.tree.size ≤ n.raw ∧
            Diverts log store n
  calls : ∀ store target value component,
    Stores after.symbols before.tree root store target value
        component →
      ∃ call,
        before.tree.size ≤ call.raw ∧ Diverts log store call
  count : (entered log).length =
    {n | before.tree.Below root n}.ncard

/- What a call is entered for is entered. -/
theorem Diverts.mem_entered
    {log : List Asked}
    {store call : NodeId}
    (hDiverts : Diverts log store call) :
    call ∈ entered log := by
  rcases hDiverts with
    ⟨down, called, _, _, _, ⟨front, back, rfl⟩, _⟩
  simp

section WholeTour

variable {before after : Workspace}
variable {placed : Placed}
variable {log : List Asked}
variable {detours : List Detour}

/- Of a whole tree, what is held is below its root. -/
private theorem heldBelow_root
    {tree : Tree}
    (hHolds : tree.Holds placed) :
    HeldBelow tree placed.id [placed] := by
  intro other hMem
  rw [List.mem_singleton.mp hMem]
  exact ⟨hHolds, Relation.ReflTransGen.refl⟩

/- What is entered and what is assigned to: the old and the new. -/
private theorem Tour.perm_whole
    (hTour : Tour after.symbols before.tree after.tree [placed]
      log detours) :
    (entered log ++ detours.map (·.target)).Perm
      (placed.ids ++ detours.map (·.call)) := by
  have hPerm := hTour.toured.perm_entered
  rwa [Placed.idsAll_cons, Placed.idsAll_nil, List.append_nil]
    at hPerm

/-
  No node is entered twice, nor both entered and assigned to:
  the calls are new, and they differ from each other.
-/
private theorem Tour.nodup
    (hTour : Tour after.symbols before.tree after.tree [placed]
      log detours)
    (hStanding : before.tree.Standing placed) :
    (entered log ++ detours.map (·.target)).Nodup := by
  rw [hTour.perm_whole.nodup_iff, List.nodup_append]
  have hCalls : (detours.map (·.call)).Nodup := by
    refine List.pairwise_map.mpr (hTour.ordered.imp ?_)
    intro first second hLess hSame
    rw [hSame] at hLess
    exact Nat.lt_irrefl _ hLess
  refine ⟨hStanding.nodup, hCalls, ?_⟩
  rintro n hOld m hMade rfl
  rcases List.mem_map.mp hMade with ⟨detour, hDetour, rfl⟩
  have hLt := hStanding.holds.lt_size _ hOld
  have hGe := (hTour.made detour hDetour).1
  omega

/- Each store of the tree was a detour. -/
private theorem Tour.exists_detour
    {store target value : NodeId}
    {component : TypeId}
    (hTour : Tour after.symbols before.tree after.tree [placed]
      log detours)
    (hHolds : before.tree.Holds placed)
    (hIs : Stores after.symbols before.tree placed.id store
      target value component) :
    ∃ call, ⟨store, target, call⟩ ∈ detours :=
  hTour.toured.exists_detour (heldBelow_root hHolds) hIs
    (by simpa using hHolds.below_iff.mp hIs.below)

/-
  A node is entered if it is old and not assigned to, or if it
  is the call for a store.
-/
private theorem Tour.mem_entered_iff
    (hTour : Tour after.symbols before.tree after.tree [placed]
      log detours)
    (hStanding : before.tree.Standing placed)
    (n : NodeId) :
    n ∈ entered log ↔
      (before.tree.Below placed.id n ∧
          ∀ store value component,
            ¬ Stores after.symbols before.tree placed.id store n
              value component) ∨
        ∃ store target value component,
          Stores after.symbols before.tree placed.id store
              target value component ∧
            before.tree.size ≤ n.raw ∧
            Diverts log store n := by
  have hHolds := hStanding.holds
  have hHeld := heldBelow_root hHolds
  have hPerm := hTour.perm_whole
  constructor
  · intro hMem
    rcases List.mem_append.mp (hPerm.mem_iff.mp
      (List.mem_append_left _ hMem)) with hOld | hMade
    · refine Or.inl ⟨hHolds.below_iff.mpr hOld, ?_⟩
      intro store value component hIs
      rcases hTour.exists_detour hHolds hIs with
        ⟨call, hDetour⟩
      exact (List.nodup_append.mp (hTour.nodup hStanding)).2.2
        n hMem n (List.mem_map.mpr ⟨_, hDetour, rfl⟩) rfl
    · rcases List.mem_map.mp hMade with ⟨detour, hDetour, rfl⟩
      rcases hTour.toured.stores hHeld hDetour with
        ⟨value, component, hIs⟩
      exact Or.inr ⟨_, _, _, _, hIs,
        (hTour.made detour hDetour).1,
        hTour.toured.diverts hDetour⟩
  · rintro (⟨hBelow, hUntaken⟩ |
      ⟨store, target, value, component, _, _, hDiverts⟩)
    · have hIn := hPerm.mem_iff.mpr
        (List.mem_append_left _ (hHolds.below_iff.mp hBelow))
      rcases List.mem_append.mp hIn with hMem | hTarget
      · exact hMem
      · rcases List.mem_map.mp hTarget with
          ⟨detour, hDetour, rfl⟩
        rcases hTour.toured.stores hHeld hDetour with
          ⟨value, component, hIs⟩
        exact absurd hIs (hUntaken _ _ _)
    · exact hDiverts.mem_entered

/- A tour of all that is below a root comes by it once. -/
private theorem Tour.eachOnce
    {root : NodeId}
    (hTour : Tour after.symbols before.tree after.tree [placed]
      log detours)
    (hStanding : before.tree.Standing placed)
    (hRoot : placed.id = root) :
    EachOnce root before after log := by
  subst hRoot
  have hHolds := hStanding.holds
  refine ⟨(List.nodup_append.mp (hTour.nodup hStanding)).1,
    hTour.toured.perm_left, hTour.mem_entered_iff hStanding,
    ?_, ?_⟩
  · intro store target value component hIs
    rcases hTour.exists_detour hHolds hIs with ⟨call, hDetour⟩
    exact ⟨call, (hTour.made _ hDetour).1,
      hTour.toured.diverts hDetour⟩
  · have hSet : {n | before.tree.Below placed.id n} =
        (placed.ids.toFinset : Set NodeId) := by
      ext n
      simp [hHolds.below_iff]
    rw [hSet, Set.ncard_coe_finset,
      List.toFinset_card_of_nodup hStanding.nodup,
      hTour.toured.length_entered]
    simp

end WholeTour

/-
  A run comes to an end: it never goes deeper than it may, nor
  does the tree fail it. If it succeeds, it has entered and
  left each node below the root once, but for the accesses that
  stores assign to, and also the calls that take the places of
  the stores. So it has entered as many nodes as there were
  below the root, however they were nested.
-/
theorem lower_visits_each_node_once
    {table : BindingTable}
    {root : NodeId}
    {before : Workspace}
    (hStart : Start table root before)
    (options : Options) :
    (∀ fault after,
      lower table options root before ≠
        .error (.treeFault fault) after) ∧
      ∀ result after,
        lower table options root before = .ok result after →
          ∃ log,
            Logs ((visitor table options).logging.walk root)
                { before with root } () after log ∧
              EachOnce root before after log := by
  constructor
  · intro fault after hRun
    have hCompletes := hStart.completes options False.elim
    rw [hRun] at hCompletes
    exact hCompletes.2 fault rfl
  · intro result after hRun
    rcases hStart.formed.standing hStart.reached with
      ⟨placed, rfl, hStanding⟩
    have hWhole : ((visitor table options).walkWithin
        ((visitor table options).reach before.tree.size)
        placed.id >>= fun _ => do return (← get).root :
          LowerM NodeId) { before with root := placed.id } =
            .ok result after := hRun
    rcases run_bind_eq_ok hWhole with ⟨_, later, hWalk, hLast⟩
    cases hLast
    have hAt := at_root hStanding hStart.session.ready
    rcases toursWithin table options _ _ placed after hAt
        (length_ids_le_reach table options hStanding) hWalk with
      ⟨log, detours, hLogs, hTour, _⟩
    refine ⟨log, ?_, Tour.eachOnce hTour hStanding rfl⟩
    have hTree : Logs (liftM (get : TreeM Tree))
        { before with root := placed.id } before.tree
        { before with root := placed.id } [] :=
      Logs.lift rfl
    exact hTree.bind hLogs

/-
  A walk over the statement that stores a new object enters
  the object, but not the access, and enters the call.
-/
theorem lower_visits_each_node_once_storeItem :
    ∃ after log call,
      lower ⟨#[]⟩ {} ⟨4⟩ storeItem = .ok ⟨5⟩ after ∧
        EachOnce ⟨4⟩ storeItem after log ∧
        ⟨3⟩ ∈ entered log ∧
        ⟨2⟩ ∉ entered log ∧
        Diverts log ⟨4⟩ call := by
  rcases (lower_visits_each_node_once start_storeItem {}).2 _ _
    run_lower_storeItem with ⟨log, _, hOnce⟩
  have hStores : Stores
      (finalState (lower ⟨#[]⟩ {} ⟨4⟩ storeItem)).symbols
      storeItem.tree ⟨4⟩ ⟨4⟩ ⟨2⟩ ⟨3⟩ ⟨12⟩ :=
    ⟨Relation.ReflTransGen.refl, ⟨_, rfl, rfl⟩,
      ⟨_, rfl, rfl, rfl⟩, by decide +kernel⟩
  rcases hOnce.calls _ _ _ _ hStores with ⟨call, _, hDiverts⟩
  refine ⟨_, log, call, run_lower_storeItem, hOnce, ?_, ?_,
    hDiverts⟩
  · refine (hOnce.nodes _).mpr (Or.inl
      ⟨hStores.below.tail ⟨1, hStores.occupies.2⟩, ?_⟩)
    rintro store value component hTaken
    rcases hTaken.access with ⟨_, hStored, hShape, _⟩
    cases hStored
    cases hShape
  · intro hMem
    rcases (hOnce.nodes _).mp hMem with
      ⟨_, hUntaken⟩ | ⟨_, _, _, _, _, hNew, _⟩
    · exact hUntaken _ _ _ hStores
    · exact absurd hNew (by decide)

end Arrays

end Lowering
