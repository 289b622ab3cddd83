import Lowering.Options
import Lowering.Arrays.Call

/-
  This file defines the lowering of array creations to calls
  of static factories.

  The selector of a factory tells what is created: from the
  elements of an initializer (`arrayWithInts:count:`), of one
  length (`arrayWithLength:`), or of several lengths
  (`arrayWithDimensions:lengths:`). It begins with `newArray`
  when the result is to be retained, and it ends in `type:`
  when the innermost component is no value primitive, in which
  case the class object of the component is the last argument.

  Key definitions include:
    * `Arrays.CreationForm`
    * `Arrays.CreationForm.selector`
    * `Arrays.Factory`
    * `Arrays.initializedFactory`
    * `Arrays.lengthFactory`
    * `Arrays.lengthsFactory`
    * `Arrays.lowerCreation`
-/

namespace Lowering

namespace Arrays

open Symbols
open Workspace (inTree nodeType replace)

------------------------------------------------------------
-- Selectors
------------------------------------------------------------

/- What the new array is made of. -/
inductive CreationForm
  /- Elements, named by the plural of their sort. -/
  | elements (category : String)
  | length
  | lengths
  deriving DecidableEq, Inhabited, Repr

namespace CreationForm

/- The part of a selector that tells the form. -/
def body : CreationForm → String
  | elements category => s!"With{category}:count:"
  | length => "WithLength:"
  | lengths => "WithDimensions:lengths:"

/- The selector of the factory for a form. -/
def selector
    (form : CreationForm)
    (retained primitive : Bool) : String :=
  let start := if retained then "newArray" else "array"
  let stop := if primitive then "" else "type:"
  start ++ form.body ++ stop

end CreationForm

------------------------------------------------------------
-- Factories
------------------------------------------------------------

/- The symbols of the call of a factory. -/
structure Factory where
  call : StaticCall
  /- The type of lengths and counts. -/
  int : TypeId
  /- The last argument, where there is one. -/
  object : Option ClassObject
  deriving DecidableEq, Inhabited, Repr

/-
  The parameters of a factory: those of its form, and a class
  object where the component is no value primitive.
-/
def factoryParams
    (params : List (String × TypeId))
    (primitive : Bool) : SymbolM (List (String × TypeId)) := do
  if primitive then
    return params
  else
    let classType ← (← environment).iosClassType
    return params ++ [("type", classType)]

/-
  Choose the symbols of the last argument of a factory: the
  class object of a component that is no value primitive.
-/
def factoryObject
    (component : TypeId)
    (primitive : Bool) : SymbolM (Option ClassObject) := do
  if primitive then
    return none
  else
    return some (← classObject component)

/- Build the call of a factory from the arguments of its form. -/
def Factory.build
    (factory : Factory)
    (arguments : List NodeId) : TreeM NodeId := do
  match factory.object with
  | some object =>
    let object ← object.build
    factory.call.build (arguments ++ [object])
  | none => factory.call.build arguments

------------------------------------------------------------
-- The Three Forms
------------------------------------------------------------

/- Choose the factory of arrays of given elements. -/
def initializedFactory
    (table : BindingTable)
    (node : NodeId)
    (array : TypeId)
    (retained : Bool) : SymbolM Factory := do
  let component ← componentOf node array
  let primitive ← ask (·.isPrimitive component)
  let cls ← Symbols.arrayClass component
  let category ←
    if primitive then
      (CacheM.inspect (·.categoryName component) : CacheM String)
    else
      pure "Objects"
  let selector :=
    (CreationForm.elements category).selector retained primitive
  let values ← Cache.pointerType component
  let int ← Environment.intType table
  let params ←
    factoryParams [("values", values), ("count", int)] primitive
  let classType ← Environment.classType cls
  let method ←
    runtimeMethod cls selector classType .publicStatic params
  let object ← factoryObject component primitive
  let receiver ← className cls
  return { call := { method, receiver, ty := array }, int, object }

/- Build an array of given elements, which are copied. -/
def Factory.buildInitialized
    (factory : Factory)
    (elements : List NodeId) : TreeM NodeId := do
  let copies ← elements.mapM Tree.deepCopy
  let values ← Tree.alloc (.arrayInitializer copies)
    (some factory.call.ty) none
  let count ← Tree.numberLiteral elements.length factory.int
  factory.build [values, count]

/- Choose the factory of arrays of one length. -/
def lengthFactory
    (table : BindingTable)
    (node : NodeId)
    (array : TypeId)
    (retained : Bool) : SymbolM Factory := do
  let component ← componentOf node array
  let primitive ← ask (·.isPrimitive component)
  let cls ← Symbols.arrayClass component
  let selector := CreationForm.length.selector retained primitive
  let int ← Environment.intType table
  let params ← factoryParams [("length", int)] primitive
  let classType ← Environment.classType cls
  let method ←
    runtimeMethod cls selector classType .publicStatic params
  let object ← factoryObject component primitive
  let receiver ← className cls
  return { call := { method, receiver, ty := array }, int, object }

/- Build an array of one length, which is copied. -/
def Factory.buildOfLength
    (factory : Factory)
    (length : NodeId) : TreeM NodeId := do
  let length ← Tree.deepCopy length
  factory.build [length]

/-
  The component that is left when an array type is indexed a
  number of times.
-/
def innermostComponent
    (node : NodeId)
    (array : TypeId)
    (dimensions : Nat) : Nat → SymbolM TypeId
  | 0 => return array
  | depth + 1 => do
    let outer ← innermostComponent node array dimensions depth
    match ← ask (·.componentType outer) with
    | some component => return component
    | none =>
      let text ← ask (·.display array)
      refuse (.dimensionMismatch node dimensions text)

/- The symbols of the factory of nested arrays. -/
structure NestedFactory extends Factory where
  /- The type of the list of lengths. -/
  lengths : TypeId
  deriving DecidableEq, Inhabited, Repr

/- Choose the factory of nested arrays of several lengths. -/
def lengthsFactory
    (table : BindingTable)
    (node : NodeId)
    (array : TypeId)
    (dimensions : Nat)
    (retained : Bool) : SymbolM NestedFactory := do
  let component ←
    innermostComponent node array dimensions dimensions
  let primitive ← ask (·.isPrimitive component)
  let cls ← Symbols.arrayClass component
  let selector := CreationForm.lengths.selector retained primitive
  let int ← Environment.intType table
  let lengthsType ← Cache.pointerType int
  let params ← factoryParams
    [("dimensions", int), ("dimensionLengths", lengthsType)]
    primitive
  let arrayType ←
    Environment.classType (← environment).objectArray
  let method ←
    runtimeMethod cls selector arrayType .publicStatic params
  let lengths ← Environment.arrayType table int
  let object ← factoryObject component primitive
  let receiver ← className cls
  return {
    call := { method, receiver, ty := array }
    int
    object
    lengths }

/- Build nested arrays of several lengths, which are copied. -/
def NestedFactory.build
    (factory : NestedFactory)
    (dimensions : List NodeId) : TreeM NodeId := do
  let count ← Tree.numberLiteral dimensions.length factory.int
  let copies ← dimensions.mapM Tree.deepCopy
  let lengths ← Tree.alloc (.arrayInitializer copies)
    (some factory.lengths) none
  factory.toFactory.build [count, lengths]

------------------------------------------------------------
-- Lowering
------------------------------------------------------------

/- Replace an array creation by the call of a factory. -/
def lowerCreation
    (table : BindingTable)
    (options : Options)
    (node : NodeId) : LowerM Unit := do
  match (← inTree (·.node node)).kind with
  | .arrayCreation dimensions initializer marked =>
    let array ← nodeType node
    let retained := marked || options.useArc
    let call ←
      match initializer, dimensions with
      | some initializer, _ =>
        let elements ← inTree (·.list initializer .expressions)
        let factory ← initializedFactory table node array retained
        factory.buildInitialized elements
      | none, [] =>
        refuse (.missingOperand node .arrayCreation
          "dimensions or initializer")
      | none, [length] =>
        let factory ← lengthFactory table node array retained
        factory.buildOfLength length
      | none, _ =>
        let factory ← lengthsFactory table node array
          dimensions.length retained
        factory.build dimensions
    replace node call
  | _ => return

end Arrays

end Lowering
