import Lowering.Tree.Basic

/-
  This file defines the traversal that drives every pass.

  A visitor is asked before and after the children of each
  node. It may change the tree and it chooses how the walk
  goes on. The children are read after the first question, so
  children put in place by its answer are walked in their new
  form. The tag that the visitor gets with both questions is
  the one that the node had before the first.

  A visitor states how deep its walk may go in a tree of a
  given size. A visitor that adds nothing below the node it
  visits never goes deeper than the tree has nodes.

  Key definitions include:
    * `Descent`
    * `Visitor`
    * `Visitor.walk`
-/

namespace Lowering

/- How a walk goes on after a node was visited. -/
inductive Descent
  /- Walk the children. -/
  | children
  /- Leave out the children. -/
  | skip
  /- Walk the node that took the place of this one. -/
  | instead (replacement : NodeId)
  deriving DecidableEq, Inhabited, Repr

/- What is asked at each node of a walk. -/
structure Visitor (m : Type → Type) where
  /- Asked before the children. -/
  enter : NodeId → NodeTag → m Descent
  /- Asked after the children, whether walked or not. -/
  leave : NodeId → NodeTag → m Unit
  /- The depth allowed in a tree of a given size. -/
  reach : Nat → Nat := (· + 1)

namespace Visitor

variable {m : Type → Type}

/- Walk the subtree of a node to a depth. -/
def walkWithin
    [Monad m]
    [MonadLiftT TreeM m]
    (visitor : Visitor m) :
    Nat → NodeId → m Unit
  | 0, _ => liftM (throw TreeFault.endless : TreeM Unit)
  | depth + 1, id => do
    let tag ← liftM (TreeM.inspect (·.tag id))
    match ← visitor.enter id tag with
    | .children =>
      let children ← liftM (TreeM.inspect (·.children id))
      children.forM (walkWithin visitor depth)
    | .skip => pure ()
    | .instead replacement =>
      walkWithin visitor depth replacement
    visitor.leave id tag

/- Walk the subtree of a node. -/
def walk
    [Monad m]
    [MonadLiftT TreeM m]
    (visitor : Visitor m)
    (id : NodeId) : m Unit := do
  let tree ← liftM (get : TreeM Tree)
  visitor.walkWithin (visitor.reach tree.size) id

end Visitor

end Lowering
