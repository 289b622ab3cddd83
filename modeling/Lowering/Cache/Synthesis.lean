import Lowering.Cache.WrapType

/-
  This file defines generated elements, which passes make for
  things that exist only in the target program: runtime
  classes with their methods and fields.

  No binding leads to a generated element. Its own binding is
  made up when it is unwrapped.

  Key definitions include:
    * `Cache.newTypeElement`
    * `Cache.newMethod`
    * `Cache.newParameter`
    * `Cache.newField`
    * `Cache.executableTypeOf`
-/

namespace Lowering

namespace Cache

------------------------------------------------------------
-- Types And Fields
------------------------------------------------------------

/- A generated class with a declared type of its own. -/
def newTypeElement
    (text : String)
    (enclosing : Option ElementId)
    (modifiers : Modifiers) : CacheM ElementId := do
  let name ← intern text
  let element : ElementId := ⟨(← get).elements.next⟩
  let ty ← addType (.declared name) (.generated element)
  addElement {
    name
    kind := .type
    origin := .generated
    modifiers
    enclosing
    ty := some ty }

/- A generated field. -/
def newField
    (text : String)
    (ty : TypeId)
    (declaring : ElementId)
    (modifiers : Modifiers) : CacheM ElementId := do
  let name ← intern text
  addElement {
    name
    kind := .variable true
    origin := .generated
    modifiers
    enclosing := some declaring
    ty := some ty }

------------------------------------------------------------
-- Methods
------------------------------------------------------------

/- The name of a method: its selector up to the first colon. -/
def selectorHead (selector : String) : String :=
  String.ofList (selector.toList.takeWhile (· ≠ ':'))

/- A generated method, given by its full runtime selector. -/
def newMethod
    (selector : String)
    (declaring : ElementId)
    (returnType : TypeId)
    (modifiers : Modifiers) : CacheM ElementId := do
  let name ← intern (selectorHead selector)
  let selector ← intern selector
  addElement {
    name
    kind := .executable (some selector) [] returnType
    origin := .generated
    modifiers
    enclosing := some declaring }

/-
  Append a parameter to a method. The executable type that was
  made for the method is out of date.
-/
def newParameter
    (method : ElementId)
    (text : String)
    (ty : TypeId) : CacheM ElementId := do
  let _ ← CacheM.inspect (·.elementOf .executable method)
  let name ← intern text
  let param ← addElement {
    name
    kind := .variable false
    origin := .generated
    enclosing := some method
    ty := some ty }
  modifyElement method (.parameter param)
  forgetExecutable method
  return param

------------------------------------------------------------
-- Executable Types
------------------------------------------------------------

/- The type of a parameter; it has none only by mistake. -/
def parameterType (param : ElementId) : CacheM TypeId := do
  let data ← CacheM.inspect (·.element param)
  return data.ty.getD noType

/-
  The executable type of a method. A host method has its own;
  a generated one has its type made of its parameters, and it
  is remembered until a parameter is added.
-/
def executableTypeOf (method : ElementId) : CacheM TypeId := do
  let data ← CacheM.inspect (·.elementOf .executable method)
  match data.kind, data.ty with
  | _, some ty => return ty
  | .executable _ parameters returnType, none =>
    match (← get).executables.lookup method with
    | some ty => return ty
    | none =>
      let params ← parameters.mapM parameterType
      let ty ←
        addType (.executable params returnType) (.generated method)
      rememberExecutable method ty
      return ty
  | _, none => throw ((← get).wrongElementKind data .executable)

end Cache

end Lowering
