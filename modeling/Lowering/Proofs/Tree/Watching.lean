import Lowering.Tree.Walk
import Lowering.Proofs.Tree.View

/-
  This file proves how a visitor that changes no tree walks a
  tree that the store holds. It tours the places, and what it
  remembers after a subtree depends on nothing but the subtree
  and what it remembered before.

  Key definitions include:
    * `Watcher`
    * `Watcher.visitor`
    * `Watcher.tour`

  Main results:
    * `Tree.Holds.run_watcher`
-/

namespace Lowering

------------------------------------------------------------
-- Watchers
------------------------------------------------------------

/-
  The hooks of a visitor that changes no tree. They may look at
  the tree, and remember things from call to call.
-/
structure Watcher (μ : Type) where
  /- Whether to go on to the children. -/
  enter : Tree → NodeId → NodeTag → μ → Bool × μ
  leave : Tree → NodeId → NodeTag → μ → μ

namespace Watcher

variable {μ : Type}

/- The visitor with given hooks. -/
def visitor (watcher : Watcher μ) : Visitor (StateT μ TreeM) where
  enter id tag := do
    let tree ← liftM (get : TreeM Tree)
    let descends ← modifyGet (watcher.enter tree id tag)
    return if descends then .children else .skip
  leave id tag := do
    let tree ← liftM (get : TreeM Tree)
    modify (watcher.leave tree id tag)

mutual

/- What is remembered after a walk over a subtree. -/
def tour (watcher : Watcher μ) (tree : Tree) : Placed → μ → μ
  | .node id label children, memory =>
    let answer := watcher.enter tree id label.shape.tag memory
    watcher.leave tree id label.shape.tag
      (if answer.1 then
        watcher.tourAll tree children answer.2
      else
        answer.2)

/- What is remembered after walks over some subtrees. -/
def tourAll
    (watcher : Watcher μ)
    (tree : Tree) : List Placed → μ → μ
  | [], memory => memory
  | first :: rest, memory =>
    watcher.tourAll tree rest (watcher.tour tree first memory)

end

variable (watcher : Watcher μ)
variable (tree : Tree)

@[simp] theorem tour_node
    (id : NodeId)
    (label : Label)
    (children : List Placed)
    (memory : μ) :
    watcher.tour tree (.node id label children) memory =
      let answer := watcher.enter tree id label.shape.tag memory
      watcher.leave tree id label.shape.tag
        (if answer.1 then
          watcher.tourAll tree children answer.2
        else
          answer.2) := by
  rw [tour]

@[simp] theorem tourAll_nil (memory : μ) :
    watcher.tourAll tree [] memory = memory := by
  rw [tourAll]

@[simp] theorem tourAll_cons
    (first : Placed)
    (rest : List Placed)
    (memory : μ) :
    watcher.tourAll tree (first :: rest) memory =
      watcher.tourAll tree rest
        (watcher.tour tree first memory) := by
  rw [tourAll]

end Watcher

namespace Tree

variable {tree : Tree}

/- Running one operation after another, with a memory. -/
theorem run_bind_remembering
    {μ α β : Type}
    {first : StateT μ TreeM α}
    {next : α → StateT μ TreeM β}
    {memory memory' : μ}
    {before middle : Tree}
    {answer : α}
    (hFirst : first memory before =
      .ok (answer, memory') middle) :
    (first >>= next) memory before =
      next answer memory' middle :=
  run_bind_ok hFirst

/- Asking a question about the tree, with a memory. -/
theorem run_asking
    {μ α : Type}
    {question : Tree → Except TreeFault α}
    {answer : α}
    (hAnswer : question tree = .ok answer)
    (memory : μ) :
    (liftM (TreeM.inspect question) : StateT μ TreeM α)
      memory tree = .ok (answer, memory) tree :=
  (run_bind_ok (run_inspect_ok hAnswer)).trans rfl

/- A walk of a held tree is a tour of it. -/
theorem Holds.run_watcher
    {μ : Type}
    {placed : Placed}
    (hHolds : tree.Holds placed)
    (watcher : Watcher μ)
    (memory : μ)
    (depth : Nat)
    (hDepth : placed.height ≤ depth) :
    watcher.visitor.walkWithin depth placed.id memory tree =
      .ok ((), watcher.tour tree placed memory) tree := by
  induction placed generalizing memory depth with
  | node id label children ih =>
      rw [Placed.height_node] at hDepth
      rcases depth with _ | depth
      · omega
      have hAll : ∀ trees, trees ⊆ children → ∀ memory,
          (trees.map (·.id)).forM
              (watcher.visitor.walkWithin depth) memory tree =
            .ok ((), watcher.tourAll tree trees memory) tree := by
        intro trees hSubset
        induction trees with
        | nil =>
            intro memory
            rw [Watcher.tourAll_nil]
            rfl
        | cons child trees ihTrees =>
            intro memory
            have hMem : child ∈ children :=
              hSubset List.mem_cons_self
            have hHeight := Placed.height_le_of_mem hMem
            have hFirst := ih child hMem (hHolds.child hMem)
              memory depth (by omega)
            have hRest := ihTrees
              (fun other hOther =>
                hSubset (List.mem_cons_of_mem _ hOther))
              (watcher.tour tree child memory)
            show (watcher.visitor.walkWithin depth child.id
              >>= fun _ => (trees.map (·.id)).forM
                (watcher.visitor.walkWithin depth))
              memory tree = _
            rw [run_bind_remembering hFirst, hRest,
              Watcher.tourAll_cons]
      have hTag := hHolds.tag
      have hChildren := hHolds.children
      rw [Placed.id_node, Placed.label_node] at hTag
      rw [Placed.id_node, Placed.children_node] at hChildren
      rcases hEntered :
          watcher.enter tree id label.shape.tag memory with
        ⟨descends, known⟩
      have hEnter : watcher.visitor.enter id label.shape.tag
          memory tree =
            .ok (if descends then .children else .skip, known)
              tree := by
        show EStateM.Result.ok
          (if (watcher.enter tree id label.shape.tag memory).1
            then Descent.children else .skip,
            (watcher.enter tree id label.shape.tag memory).2)
          tree = _
        rw [hEntered]
      rw [Placed.id_node, Visitor.walkWithin,
        run_bind_remembering (run_asking hTag memory),
        run_bind_remembering hEnter, Watcher.tour_node,
        hEntered]
      by_cases hDescends : descends = true
      · have hWalk := hAll children (List.Subset.refl _) known
        simp only [if_pos hDescends]
        rw [run_bind_remembering (run_asking hChildren known),
          run_bind_remembering hWalk]
        rfl
      · simp only [if_neg hDescends]
        rfl

end Tree

end Lowering
