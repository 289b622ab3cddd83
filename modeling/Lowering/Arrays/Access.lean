import Lowering.Tree.Walk
import Lowering.Arrays.Call

/-
  This file defines the lowering of what is done with the
  elements and the length of an array.

  An element is read by a function of the array's class, or
  reached through the pointer that another function answers
  when the element is assigned to. A plain assignment to an
  element that is no value primitive is one call that takes
  the array, the index and the value; where the value can be
  handed over retained, the call consumes it. The length of an
  array is a field of its class.

  Key definitions include:
    * `Arrays.ElementAccess`
    * `Arrays.elementAccess`
    * `Arrays.lowerAccess`
    * `Arrays.storeFunction`
    * `Arrays.lowerAssignment`
    * `Arrays.SizeAccess`
    * `Arrays.sizeAccess`
    * `Arrays.lowerLength`
-/

namespace Lowering

namespace Arrays

open Symbols
open Workspace (inTree nodeType replace)

------------------------------------------------------------
-- Elements
------------------------------------------------------------

/- The symbols of an access to an element. -/
structure ElementAccess where
  function : FunctionRef
  /- The type of the call. -/
  ty : TypeId
  /-
    The type of the element, where the call answers a pointer
    to it.
  -/
  target : Option TypeId := none
  deriving DecidableEq, Inhabited, Repr

/- Choose the symbols of an access to an element of a type. -/
def elementAccess
    (table : BindingTable)
    (component : TypeId)
    (assigned : Bool) : SymbolM ElementAccess := do
  let cls ← Symbols.arrayClass component
  let clsName ← ask (·.elementName cls)
  let (name, ty, declared) ←
    if assigned then
      let pointer ← Cache.pointerType component
      pure (s!"{clsName}_GetRef", pointer, pointer)
    else if ← ask (·.isPrimitive component) then
      pure (s!"{clsName}_Get", component, component)
    else
      pure (s!"{clsName}_Get", component, (← environment).idType)
  let classType ← Environment.classType cls
  let int ← Environment.intType table
  let name ← Cache.intern name
  let function : FunctionRef :=
    { name
      returnType := declared
      declaring := cls
      params := [classType, int] }
  let target := if assigned then some component else none
  return { function, ty, target }

/- Build an access to an element, with copies of its operands. -/
def ElementAccess.build
    (access : ElementAccess)
    (array index : NodeId) : TreeM NodeId := do
  let array ← Tree.deepCopy array
  let index ← Tree.deepCopy index
  let call ← functionCall access.function access.ty [array, index]
  match access.target with
  | some component =>
    Tree.alloc (.prefixOperation .dereference call)
      (some component) none
  | none => return call

/- Replace an element access by a call of the array's class. -/
def lowerAccess
    (table : BindingTable)
    (node : NodeId) : LowerM Unit := do
  match (← inTree (·.node node)).kind with
  | .arrayAccess array index =>
    let component ← nodeType node
    let assigned ← inTree (·.isAssigned node)
    let access ← elementAccess table component assigned
    let element ← access.build array index
    replace node element
  | _ => return

------------------------------------------------------------
-- Assignment
------------------------------------------------------------

/-
  Choose the function that stores an object, by whether it
  consumes the object.
-/
def storeFunction
    (table : BindingTable)
    (consumes : Bool) : SymbolM FunctionRef := do
  let text :=
    if consumes then
      "IOSObjectArray_SetAndConsume"
    else
      "IOSObjectArray_Set"
  let env ← environment
  let arrayType ← Environment.classType env.objectArray
  let int ← Environment.intType table
  let name ← Cache.intern text
  return {
    name
    returnType := env.idType
    declaring := env.objectArray
    params := [arrayType, int, env.idType] }

/-
  Replace a plain assignment to an element that is no value
  primitive, and have the call that takes its place walked.

  This is done before the children are walked: the value must
  be asked for a retained result before it is lowered itself.
  All other assignments are left to the lowering of what they
  assign to.
-/
def lowerAssignment
    (table : BindingTable)
    (node : NodeId) : LowerM Descent := do
  let .assignment op lhs rhs := (← inTree (·.node node)).kind
    | return .children
  let .arrayAccess array index := (← inTree (·.node lhs)).kind
    | return .children
  let component ← nodeType lhs
  if ← ask (·.isPrimitive component) then
    return .children
  if op ≠ .assign then
    return .children
  let value ← Tree.take rhs
  let retained ← Tree.retainResult value
  let function ← storeFunction table retained.isSome
  let array ← Tree.take array
  let index ← Tree.take index
  let call ← functionCall function component [array, index, value]
  replace node call
  return .instead call

------------------------------------------------------------
-- Length
------------------------------------------------------------

/- The operand and the name of a member access. -/
def memberAccess? : NodeKind NodeId → Option (NodeId × NodeId)
  | .fieldAccess expression name => some (expression, name)
  | .qualifiedName qualifier name => some (qualifier, name)
  | _ => none

/- Whether an identifier reads `length`. -/
def isLength (identifier : Name) : SymbolM Bool :=
  return (← ask (·.nameText identifier)) = "length"

/- Whether a node is the simple name `length`. -/
def isLengthName (name : NodeId) : LowerM Bool := do
  match (← inTree (·.node name)).kind with
  | .simpleName identifier => isLength identifier
  | _ => return false

/- The component of the array that a node denotes, if any. -/
def operandComponent? (operand : NodeId) : LowerM (Option TypeId) := do
  match (← inTree (·.node operand)).ty with
  | some ty => ask (·.componentType ty)
  | none => return none

/- The symbols of an access to the size of an array. -/
structure SizeAccess where
  field : ElementId
  name : Name
  int : TypeId
  deriving DecidableEq, Inhabited, Repr

/- Choose the symbols of an access to the size of an array. -/
def sizeAccess
    (table : BindingTable)
    (component : TypeId) : SymbolM SizeAccess := do
  let cls ← Symbols.arrayClass component
  let field ← sizeField table cls
  let int ← Environment.intType table
  let data ← ask (·.element field)
  return { field, name := data.name, int }

/- Build an access to the size of an array, which is moved. -/
def SizeAccess.build
    (access : SizeAccess)
    (array : NodeId) : TreeM NodeId := do
  let array ← Tree.take array
  let name ← Tree.simpleName access.name (some access.field)
    (some access.int)
  Tree.alloc (.fieldAccess array name)
    (some access.int) (some access.field)

/- Replace the length of an array by the field for its size. -/
def lowerLength
    (table : BindingTable)
    (node : NodeId) : LowerM Unit := do
  let some (operand, name) :=
      memberAccess? (← inTree (·.node node)).kind
    | return
  if ← isLengthName name then
    let some component ← operandComponent? operand
      | return
    let access ← sizeAccess table component
    let size ← access.build operand
    replace node size

end Arrays

end Lowering
