import Lowering.Tree.Basic

/-
  This file defines the check that the owners recorded in a
  subtree agree with the nodes that list their children.

  Nodes are checked parent first, and of two siblings the
  later one is looked into before the earlier one.

  Key definitions include:
    * `Tree.findMislisted`
    * `Tree.validate`
-/

namespace Lowering

namespace Tree

/- Look for a mislisted child, following children to a depth. -/
def findMislistedWithin
    (tree : Tree) :
    Nat → NodeId → Except TreeFault (Option NodeId)
  | 0, _ => .error .endless
  | depth + 1, id => do
    let children ← tree.children id
    let mislisted ← children.findM? fun child =>
      return (← tree.node child).parent ≠ some id
    match mislisted with
    | some child => return some child
    | none =>
      children.reverse.findSomeM? (findMislistedWithin tree depth)

/-
  The first node found under a root whose recorded owner is
  not the node that lists it.
-/
def findMislisted
    (tree : Tree)
    (root : NodeId) : Except TreeFault (Option NodeId) :=
  tree.findMislistedWithin (tree.size + 1) root

/- End the run if a node under a root is mislisted. -/
def validate
    (tree : Tree)
    (root : NodeId) : Except TreeFault Unit := do
  match ← tree.findMislisted root with
  | none => return
  | some id =>
    let node ← tree.node id
    throw (.mislisted node.kind.tag id node.parent root)

end Tree

end Lowering
