import Lowering.Workspace
import Lowering.Tree.Ownership

/-
  This file defines how passes are run over a unit. Each pass
  is given the root and answers the root afterwards. After
  each pass the owners recorded in the tree are checked.

  Key definitions include:
    * `Pass`
    * `Pass.runAll`
-/

namespace Lowering

/- A transformation of the tree under a root. -/
abbrev Pass := NodeId → LowerM NodeId

namespace Pass

/- Run a pass and check the tree that it leaves. -/
def runChecked (pass : Pass) (root : NodeId) : LowerM NodeId := do
  let root ← pass root
  Workspace.inTree (·.validate root)
  return root

/- Run passes in order, up to the first that fails. -/
def runAll (passes : List Pass) (root : NodeId) : LowerM NodeId :=
  passes.foldlM (fun root pass => pass.runChecked root) root

end Pass

end Lowering
