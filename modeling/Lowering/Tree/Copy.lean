import Lowering.Tree.Basic

/-
  This file defines deep copies of subtrees.

  A copy shares no node with what it was made of. The copies
  of the children are made first, in the order of traversal,
  so the copy of a node is newer than those of its children.

  Key definitions include:
    * `Tree.deepCopy`
-/

namespace Lowering

namespace Tree

/- Copy a subtree, following children to a depth. -/
def deepCopyWithin : Nat → NodeId → TreeM NodeId
  | 0, _ => throw .endless
  | depth + 1, id => do
    let node ← TreeM.inspect (·.node id)
    let copies ← node.kind.children.mapM (deepCopyWithin depth)
    alloc (node.kind.withChildren copies) node.ty node.element

/-
  Copy the subtree of a node. The copy has no owner. No tree
  is deeper than it has nodes, which bounds the recursion.
-/
def deepCopy (id : NodeId) : TreeM NodeId := do
  deepCopyWithin ((← get).size + 1) id

end Tree

end Lowering
