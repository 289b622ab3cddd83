import Lowering.Tree.Walk
import Lowering.Arrays.Creation
import Lowering.Arrays.Access
import Lowering.Arrays.TypeTest

/-
  This file defines the pass that lowers arrays. One walk over
  the tree replaces every construct on arrays by calls of the
  runtime: assignments to elements on the way down, and all
  else on the way up, when the operands have been lowered.

  The walk stops at the first construct that cannot be
  lowered.

  Key definitions include:
    * `Arrays.visitor`
    * `Arrays.lower`
-/

namespace Lowering

namespace Arrays

/- What is done on the way down. -/
def enter
    (table : BindingTable)
    (node : NodeId) : NodeTag → LowerM Descent
  | .assignment => lowerAssignment table node
  | _ => return .children

/- What is done on the way up. -/
def leave
    (table : BindingTable)
    (options : Options)
    (node : NodeId) : NodeTag → LowerM Unit
  | .arrayCreation => lowerCreation table options node
  | .arrayAccess => lowerAccess table node
  | .fieldAccess => lowerLength table node
  | .qualifiedName => lowerLength table node
  | .instanceOf => lowerTypeTest table node
  | _ => return

/-
  The visitor that lowers arrays. It may put one call between
  a node and its children, and so goes at most twice as deep
  as the tree it is given.
-/
def visitor
    (table : BindingTable)
    (options : Options) : Visitor LowerM where
  enter := enter table
  leave := leave table options
  reach size := 2 * size + 2

/- The name of the pass. -/
def passName : String := "array_rewriter"

/-
  Lower the arrays under a root and answer the root, which is
  another node if the root itself was replaced.
-/
def lower
    (table : BindingTable)
    (options : Options)
    (root : NodeId) : LowerM NodeId := do
  modify fun ⟨tree, cache, env, _⟩ => ⟨tree, cache, env, root⟩
  (visitor table options).walk root
  return (← get).root

end Arrays

end Lowering
