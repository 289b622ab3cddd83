import Lowering.Arrays.Call

/-
  This file defines the lowering of type tests against arrays
  of objects. The runtime has one class for all of them, so
  the test asks the class object of the array type.

  Key definitions include:
    * `Arrays.isObjectArray`
    * `Arrays.TypeTest`
    * `Arrays.typeTest`
    * `Arrays.lowerTypeTest`
-/

namespace Lowering

namespace Arrays

open Symbols
open Workspace (inTree nodeType replace)

/- Whether a type is an array over no value primitive. -/
def isObjectArray (ty : TypeId) : SymbolM Bool := do
  match ← ask (·.componentType ty) with
  | some component => return !(← ask (·.isPrimitive component))
  | none => return false

/- The symbols of a test against an array of objects. -/
structure TypeTest where
  method : ElementId
  boolean : TypeId
  object : ClassObject
  deriving DecidableEq, Inhabited, Repr

/- Choose the symbols of a test against an array type. -/
def typeTest
    (table : BindingTable)
    (ty : TypeId) : SymbolM TypeTest := do
  let env ← environment
  let boolean ← Environment.booleanType table
  let method ← runtimeMethod env.iosClass "isInstance" boolean
    .onlyPublic [("object", env.idType)]
  let object ← classObject ty
  return { method, boolean, object }

/- Build a type test of a value, which is moved. -/
def TypeTest.build
    (test : TypeTest)
    (value : NodeId) : TreeM NodeId := do
  let receiver ← test.object.build
  let value ← Tree.take value
  Tree.alloc
    (.methodInvocation (some receiver) [value])
    (some test.boolean) (some test.method)

/- Replace a type test against an array of objects. -/
def lowerTypeTest
    (table : BindingTable)
    (node : NodeId) : LowerM Unit := do
  match (← inTree (·.node node)).kind with
  | .instanceOf expression tested =>
    let ty ← nodeType tested
    if ← isObjectArray ty then
      let test ← typeTest table ty
      let call ← test.build expression
      replace node call
  | _ => return

end Arrays

end Lowering
