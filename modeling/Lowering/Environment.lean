import Lowering.Cache.Synthesis
import Lowering.Cache.Unwrap

/-
  This file defines the environment of a run: the generated
  elements of the runtime classes that lowered code calls, and
  the target scalar `id`.

  There is one array class for each value primitive and one
  for all other components. Runtime methods and the fields for
  the size of an array are made on first use and recorded
  here.

  Key definitions include:
    * `Environment`
    * `Environment.create`
    * `Environment.arrayClass`
    * `Environment.arrayType`
    * `RuntimeMembers.method`
    * `RuntimeMembers.sizeField`
-/

namespace Lowering

/- The runtime class of arrays over a value primitive. -/
def PrimitiveKind.arrayClassName : PrimitiveKind → String
  | boolean => "IOSBooleanArray"
  | byte => "IOSByteArray"
  | char => "IOSCharArray"
  | short => "IOSShortArray"
  | int => "IOSIntArray"
  | long => "IOSLongArray"
  | float => "IOSFloatArray"
  | double => "IOSDoubleArray"

/- The runtime members made so far, with the latest first. -/
structure RuntimeMembers where
  /- Methods by their class and selector. -/
  methods : List ((ElementId × Name) × ElementId) := []
  /- Size fields by their class. -/
  sizeFields : List (ElementId × ElementId) := []
  deriving DecidableEq, Inhabited, Repr

/- The runtime classes and the members made for them. -/
structure Environment where
  primitiveArrays : PrimitiveKind → ElementId
  objectArray : ElementId
  iosClass : ElementId
  idType : TypeId
  members : RuntimeMembers := {}

namespace Environment

------------------------------------------------------------
-- Creation
------------------------------------------------------------

/- Make the runtime classes, none of them with members. -/
def create : CacheM Environment := do
  let primitiveArrays ← PrimitiveKind.tabulateM fun kind =>
    Cache.newTypeElement kind.arrayClassName none .onlyPublic
  let objectArray ←
    Cache.newTypeElement "IOSObjectArray" none .onlyPublic
  let iosClass ← Cache.newTypeElement "IOSClass" none .onlyPublic
  let idType ← Cache.nativeType "id"
  return { primitiveArrays, objectArray, iosClass, idType }

------------------------------------------------------------
-- Classes And Types
------------------------------------------------------------

/- The runtime class of arrays over a component. -/
def arrayClass
    (env : Environment)
    (component : TypeId) : CacheM ElementId := do
  let kind ←
    CacheM.fatal (CacheM.inspect (·.primitiveKind component))
  match kind with
  | some kind => return env.primitiveArrays kind
  | none => return env.objectArray

/- The declared type of a runtime class. -/
def classType (cls : ElementId) : CacheM TypeId := do
  let data ← CacheM.fatal (CacheM.inspect (·.element cls))
  return data.ty.getD Cache.noType

/- The type of class objects. -/
def iosClassType (env : Environment) : CacheM TypeId :=
  classType env.iosClass

/- The type of the value primitive `int`. -/
def intType (table : BindingTable) : CacheM TypeId :=
  Cache.primitiveType table .int

/- The type of the value primitive `boolean`. -/
def booleanType (table : BindingTable) : CacheM TypeId :=
  Cache.primitiveType table .boolean

/-
  The array over a type: that of the host where it reported
  one, else a synthetic one.
-/
def arrayType
    (table : BindingTable)
    (component : TypeId) : CacheM TypeId := do
  let binding ← CacheM.fatal
    (CacheM.inspect (·.typeBindingOfType table component))
  let array :=
    match binding with
    | some (.host id) => table.findArrayOf? id
    | _ => none
  match array with
  | some id => CacheM.fatal (Cache.wrapHostType table id)
  | none => Cache.syntheticArrayType component

end Environment

------------------------------------------------------------
-- Runtime Members
------------------------------------------------------------

namespace RuntimeMembers

/-
  A method of a runtime class, made with its parameters when
  its selector is first used on the class.
-/
def method
    (members : RuntimeMembers)
    (cls : ElementId)
    (selector : String)
    (returnType : TypeId)
    (modifiers : Modifiers)
    (params : List (String × TypeId)) :
    CacheM (ElementId × RuntimeMembers) := do
  let key := (cls, ← Cache.intern selector)
  match members.methods.lookup key with
  | some method => return (method, members)
  | none =>
    let method ←
      Cache.newMethod selector cls returnType modifiers
    params.forM fun (name, ty) => do
      let _ ← CacheM.fatal (Cache.newParameter method name ty)
    let methods := (key, method) :: members.methods
    return (method, { members with methods })

/- The field for the size of the arrays of a class. -/
def sizeField
    (members : RuntimeMembers)
    (table : BindingTable)
    (cls : ElementId) :
    CacheM (ElementId × RuntimeMembers) := do
  match members.sizeFields.lookup cls with
  | some field => return (field, members)
  | none =>
    let int ← Environment.intType table
    let field ← Cache.newField "size" int cls .onlyPublic
    let sizeFields := (cls, field) :: members.sizeFields
    return (field, { members with sizeFields })

end RuntimeMembers

end Lowering
