import Lowering.Workspace
import Lowering.Cache.Display

/-
  This file defines the pieces that lowered array code is made
  of: names of runtime classes, class objects, and calls of
  static methods and of plain functions.

  The symbols of a piece are chosen before the piece is built,
  so each piece comes as a record of its symbols and a step
  that builds its nodes.

  Key definitions include:
    * `Arrays.componentOf`
    * `Arrays.ClassName`
    * `Arrays.ClassObject`
    * `Arrays.StaticCall`
    * `Arrays.functionCall`
-/

namespace Lowering

namespace Arrays

open Symbols

------------------------------------------------------------
-- Types Of Constructs
------------------------------------------------------------

/- The component of the array type of a node. -/
def componentOf (node : NodeId) (array : TypeId) : SymbolM TypeId := do
  match ← ask (·.componentType array) with
  | some component => return component
  | none =>
    let text ← ask (·.display array)
    refuse (.notAnArray node text)

/- The runtime class of arrays over a component. -/
def arrayClass (component : TypeId) : LowerM ElementId :=
  (Symbols.arrayClass component : SymbolM ElementId)

------------------------------------------------------------
-- Names Of Classes
------------------------------------------------------------

/- The symbols of the name of a runtime class. -/
structure ClassName where
  cls : ElementId
  name : Name
  /- The declared type of the class. -/
  ty : TypeId
  deriving DecidableEq, Inhabited, Repr

/- The name of a runtime class, which receives static calls. -/
def className (cls : ElementId) : SymbolM ClassName := do
  let data ← ask (·.element cls)
  let ty ← Environment.classType cls
  return { cls, name := data.name, ty }

/- Build the name of a runtime class. -/
def ClassName.build (receiver : ClassName) : TreeM NodeId :=
  Tree.simpleName receiver.name (some receiver.cls)
    (some receiver.ty)

------------------------------------------------------------
-- Class Objects
------------------------------------------------------------

/- The symbols of the class object of a type. -/
structure ClassObject where
  literal : TypeId
  /- The type of class objects. -/
  ty : TypeId
  deriving DecidableEq, Inhabited, Repr

/- The class object of a type. -/
def classObject (literal : TypeId) : SymbolM ClassObject := do
  let ty ← (← environment).iosClassType
  return { literal, ty }

/- Build the class object of a type. -/
def ClassObject.build (object : ClassObject) : TreeM NodeId :=
  Tree.alloc (.typeLiteral object.literal) (some object.ty) none

------------------------------------------------------------
-- Calls
------------------------------------------------------------

/- The symbols of the call of a static method. -/
structure StaticCall where
  method : ElementId
  receiver : ClassName
  /- The type of the result. -/
  ty : TypeId
  deriving DecidableEq, Inhabited, Repr

/- Build the call of a static method of a runtime class. -/
def StaticCall.build
    (call : StaticCall)
    (arguments : List NodeId) : TreeM NodeId := do
  let receiver ← call.receiver.build
  Tree.alloc
    (.methodInvocation (some receiver) arguments)
    (some call.ty) (some call.method)

/- Build the call of a plain function of the runtime. -/
def functionCall
    (function : FunctionRef)
    (ty : TypeId)
    (arguments : List NodeId) : TreeM NodeId :=
  Tree.alloc
    (.functionInvocation function arguments false)
    (some ty) none

end Arrays

end Lowering
