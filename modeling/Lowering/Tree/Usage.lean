import Lowering.Tree.Basic

/-
  This file defines how a node is used where it stands:
  whether it is assigned to, and whether its result can be
  handed over retained.

  Key definitions include:
    * `Tree.isAssigned`
    * `NodeKind.canRetain`
    * `Tree.retainResult`
-/

namespace Lowering

namespace NodeKind

/- Whether a kind assigns to the child that is given. -/
def assigns (child : NodeId) : NodeKind NodeId → Bool
  | assignment _ lhs _ => lhs = child
  | prefixOperation op _ =>
    match op with
    | .increment | .decrement | .addressOf => true
    | _ => false
  | postfixOperation _ _ => true
  | _ => false

/-
  Whether a kind can hand over its result retained: creations
  can, and calls of functions that have a retained variant.
-/
def canRetain {α : Type} : NodeKind α → Bool
  | arrayCreation _ _ _ => true
  | classInstanceCreation _ _ => true
  | functionInvocation function _ _ =>
    function.retainedName.isSome
  | _ => false

end NodeKind

namespace Tree

/-
  Whether a node is assigned to: it is the left side of an
  assignment, or the operand of an increment, a decrement or
  the address operator.
-/
def isAssigned
    (tree : Tree)
    (id : NodeId) : Except TreeFault Bool := do
  match (← tree.node id).parent with
  | none => return false
  | some parent => return (← tree.node parent).kind.assigns id

/-
  Ask a node to hand over its result retained. If it cannot,
  there is no answer and the caller has to retain the result.
-/
def retainResult (id : NodeId) : TreeM (Option NodeId) := do
  let node ← TreeM.inspect (·.node id)
  if node.kind.canRetain then
    let marked ← setRetained id
    return if marked then some id else none
  else
    return none

end Tree

end Lowering
