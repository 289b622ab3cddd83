import Lowering.Environment
import Lowering.Tree.Usage
import Lowering.Tree.Copy

/-
  This file defines what lowering works on, the tree together
  with the cache and the environment, and how lowering fails.

  The cache and the environment are the symbols that lowered
  code is written with. Steps that choose symbols know nothing
  of the tree, and steps that build nodes nothing of the
  symbols; both are steps on the whole. A violation of the
  cache becomes a violation of lowering, and faults stay
  faults.

  Key definitions include:
    * `LoweringViolation`
    * `LoweringViolation.label`
    * `LoweringViolation.message`
    * `LoweringError`
    * `Symbols`
    * `SymbolM`
    * `Symbols.runtimeMethod`
    * `Symbols.sizeField`
    * `Workspace`
    * `LowerM`
    * `Workspace.replace`
-/

namespace Lowering

------------------------------------------------------------
-- Violations
------------------------------------------------------------

/- Why a tree cannot be lowered. -/
inductive LoweringViolation
  | dimensionMismatch (node : NodeId) (dimensions : Nat) (ty : String)
  | notAnArray (node : NodeId) (ty : String)
  | missingType (node : NodeId) (tag : NodeTag)
  | missingOperand (node : NodeId) (tag : NodeTag) (operand : String)
  | contract (cause : ContractViolation)
  deriving DecidableEq, Repr

namespace LoweringViolation

/- The word for the cause; a cause within is in brackets. -/
def label : LoweringViolation → String
  | dimensionMismatch _ _ _ => "DimensionMismatch"
  | notAnArray _ _ => "NotAnArray"
  | missingType _ _ => "MissingType"
  | missingOperand _ _ _ => "MissingOperand"
  | contract cause =>
    let inner := cause.label
    s!"Contract({inner})"

/- The report on a tree that cannot be lowered. -/
def message : LoweringViolation → String
  | dimensionMismatch node dimensions ty =>
    s!"array creation {node} has {dimensions} dimensions but `{ty}` nests fewer arrays"
  | notAnArray node ty =>
    s!"{node} should have an array type, found `{ty}`"
  | missingType node tag => s!"{tag} node {node} has no type"
  | missingOperand node tag operand =>
    s!"{tag} node {node} is missing its {operand}"
  | contract cause => cause.message

end LoweringViolation

/- Why lowering has no answer. -/
inductive LoweringError
  | violation (cause : LoweringViolation)
  | cacheFault (cause : CacheFault)
  | treeFault (cause : TreeFault)
  deriving DecidableEq, Repr

namespace LoweringError

/- A failure of the cache, seen from lowering. -/
def ofCache : CacheError → LoweringError
  | .violation cause => violation (.contract cause)
  | .fault cause => cacheFault cause

end LoweringError

------------------------------------------------------------
-- Symbols
------------------------------------------------------------

/- What lowered code is written with. -/
structure Symbols where
  cache : Cache
  env : Environment

/-
  A step that chooses symbols. A failed step keeps what it had
  done before it failed.
-/
abbrev SymbolM := EStateM LoweringError Symbols

instance : MonadLift CacheM SymbolM where
  monadLift operation := fun ⟨cache, env⟩ =>
    match operation cache with
    | .ok answer cache => .ok answer ⟨cache, env⟩
    | .error error cache => .error (.ofCache error) ⟨cache, env⟩

namespace Symbols

variable {α : Type}

/- Refuse to lower. -/
def refuse (cause : LoweringViolation) : SymbolM α :=
  throw (.violation cause)

/-
  Read the cache. Lowering only asks for what must be there,
  so a violation is a fault.
-/
def ask (question : Cache → Except CacheError α) : SymbolM α :=
  (CacheM.fatal (CacheM.inspect question) : CacheM α)

/- The environment of the run. -/
def environment : SymbolM Environment :=
  return (← get).env

/- The runtime class of arrays over a component. -/
def arrayClass (component : TypeId) : SymbolM ElementId := do
  let env ← environment
  env.arrayClass component

/- Work on the runtime members together with the cache. -/
def onMembers
    (operation :
      RuntimeMembers → CacheM (α × RuntimeMembers)) :
    SymbolM α := do
  let env ← environment
  let (answer, members) ←
    (operation env.members : CacheM (α × RuntimeMembers))
  modify fun ⟨cache, env⟩ => ⟨cache, { env with members }⟩
  return answer

/- A method of a runtime class, made on first use. -/
def runtimeMethod
    (cls : ElementId)
    (selector : String)
    (returnType : TypeId)
    (modifiers : Modifiers)
    (params : List (String × TypeId)) : SymbolM ElementId :=
  onMembers (·.method cls selector returnType modifiers params)

/- The field for the size of the arrays of a class. -/
def sizeField
    (table : BindingTable)
    (cls : ElementId) : SymbolM ElementId :=
  onMembers (·.sizeField table cls)

end Symbols

------------------------------------------------------------
-- The Workspace
------------------------------------------------------------

/- What a pass works on. -/
structure Workspace where
  tree : Tree
  cache : Cache
  env : Environment
  /- The node that stands where the pass began. -/
  root : NodeId := ⟨0⟩

/-
  A step of lowering. A failed step keeps what it had done
  before it failed.
-/
abbrev LowerM := EStateM LoweringError Workspace

instance : MonadLift TreeM LowerM where
  monadLift operation := fun ⟨tree, cache, env, root⟩ =>
    match operation tree with
    | .ok answer tree => .ok answer ⟨tree, cache, env, root⟩
    | .error fault tree =>
      .error (.treeFault fault) ⟨tree, cache, env, root⟩

instance : MonadLift SymbolM LowerM where
  monadLift operation := fun ⟨tree, cache, env, root⟩ =>
    match operation ⟨cache, env⟩ with
    | .ok answer ⟨cache, env⟩ =>
      .ok answer ⟨tree, cache, env, root⟩
    | .error error ⟨cache, env⟩ =>
      .error error ⟨tree, cache, env, root⟩

namespace Workspace

variable {α : Type}

/- Refuse to lower. -/
def refuse (cause : LoweringViolation) : LowerM α :=
  throw (.violation cause)

/- Read the tree. -/
def inTree
    (question : Tree → Except TreeFault α) : LowerM α :=
  (TreeM.inspect question : TreeM α)

------------------------------------------------------------
-- Symbols Of The Whole
------------------------------------------------------------

/- The environment of the run. -/
def environment : LowerM Environment :=
  (Symbols.environment : SymbolM Environment)

/- A method of a runtime class, made on first use. -/
def runtimeMethod
    (cls : ElementId)
    (selector : String)
    (returnType : TypeId)
    (modifiers : Modifiers)
    (params : List (String × TypeId)) : LowerM ElementId :=
  (Symbols.runtimeMethod cls selector returnType modifiers params :
    SymbolM ElementId)

/- The field for the size of the arrays of a class. -/
def sizeField
    (table : BindingTable)
    (cls : ElementId) : LowerM ElementId :=
  (Symbols.sizeField table cls : SymbolM ElementId)

------------------------------------------------------------
-- Nodes
------------------------------------------------------------

/- The static type of a node, which lowering needs. -/
def nodeType (id : NodeId) : LowerM TypeId := do
  let node ← inTree (·.node id)
  match node.ty with
  | some ty => return ty
  | none => refuse (.missingType id node.kind.tag)

/-
  Put a node into the place of another, which may be the node
  where the pass began.
-/
def replace (old new : NodeId) : LowerM Unit := do
  Tree.replaceWith old new
  modify fun ⟨tree, cache, env, root⟩ =>
    ⟨tree, cache, env, if old = root then new else root⟩

end Workspace

end Lowering
