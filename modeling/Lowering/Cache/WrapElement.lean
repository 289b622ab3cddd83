import Lowering.Cache.WrapType

/-
  This file defines how bindings become elements.

  An element is made once for each host binding. A method has
  two wrappers of its own that know nothing of each other: its
  element and its executable type. The bindings of generated
  elements lead straight back to those elements.

  Key definitions include:
    * `Cache.hostElement?`
    * `Cache.simpleName`
    * `Cache.wrapUses`
    * `Cache.wrapHostElement`
    * `Cache.packageElement`
    * `Cache.wrapType`
    * `Cache.wrapElement`
    * `Cache.wrapElementOf`
    * `Cache.wrapPackageDeclaration`
-/

namespace Lowering

namespace Cache

------------------------------------------------------------
-- Parts Of An Element
------------------------------------------------------------

/- The element that wraps a host binding. -/
def hostElement?
    (cache : Cache)
    (id : BindingId) : Option ElementId :=
  cache.wrappedElements.get? id

/- The last segment of a qualified name. -/
def simpleName (qualified : String) : String :=
  let segment := qualified.toList.reverse.takeWhile (· ≠ '.')
  String.ofList segment.reverse

/- An annotation use, with its type wrapped. -/
def wrapUse
    (table : BindingTable)
    (id : BindingId) : CacheM AnnotationUse := do
  let annotationType ← consult (table.annotationType id)
  return ⟨id, ← wrapHostType table annotationType⟩

/- Annotation uses with their types wrapped, in order. -/
def wrapUses
    (table : BindingTable)
    (annotations : List BindingId) :
    CacheM (List AnnotationUse) :=
  annotations.mapM (wrapUse table)

------------------------------------------------------------
-- Host Elements
------------------------------------------------------------

/- The element that a type binding prescribes. -/
def describeType
    (table : BindingTable)
    (wrap : BindingId → CacheM ElementId)
    (id : BindingId)
    (binding : TypeBinding) : CacheM ElementData := do
  let name ← intern (simpleName binding.name)
  let enclosing ← binding.declaring.mapM wrap
  let ty ← wrapHostType table id
  let annotations ← wrapUses table binding.annotations
  return {
    name
    kind :=
      if binding.flags.isTypeVariable then .typeParameter else .type
    origin := .host id
    modifiers := binding.modifiers
    enclosing
    ty := some ty
    annotations }

/- The element that a method binding prescribes. -/
def describeMethod
    (table : BindingTable)
    (wrap : BindingId → CacheM ElementId)
    (id : BindingId)
    (binding : MethodBinding) : CacheM ElementData := do
  let enclosing ← binding.declaring.mapM wrap
  let ty ← wrapExecutable table id
  let returnType ← wrapReturnType table binding
  let name ← intern binding.name
  let annotations ← wrapUses table binding.annotations
  return {
    name
    kind := .executable none [] returnType
    origin := .host id
    modifiers := binding.modifiers
    enclosing
    ty := some ty
    annotations }

/- The element that a variable binding prescribes. -/
def describeVariable
    (table : BindingTable)
    (wrap : BindingId → CacheM ElementId)
    (id : BindingId)
    (binding : VariableBinding) : CacheM ElementData := do
  let ty ← binding.ty.mapM (wrapHostType table)
  let name ← intern binding.name
  let enclosing ← binding.declaring.mapM wrap
  let annotations ← wrapUses table binding.annotations
  return {
    name
    kind := .variable binding.isField
    origin := .host id
    modifiers := binding.modifiers
    enclosing
    ty
    annotations }

/- The element that a package binding prescribes. -/
def describePackage
    (id : BindingId)
    (text : String) : CacheM ElementData := do
  let name ← intern text
  return { name, kind := .package, origin := .host id }

/- The element that a host binding prescribes. -/
def describeHost
    (table : BindingTable)
    (wrap : BindingId → CacheM ElementId)
    (id : BindingId) : CacheM ElementData :=
  match table.get? id with
  | some (.type binding) => describeType table wrap id binding
  | some (.method binding) => describeMethod table wrap id binding
  | some (.variable binding) => describeVariable table wrap id binding
  | some (.package name) => describePackage id name
  | some (.annotationUse _) =>
    CacheM.refuse (.unknownElementBinding (table.describe id))
  | none => CacheM.refuse (.danglingBinding id)

/- Wrap a host binding, following declarers to a depth. -/
def wrapHostElementWithin
    (table : BindingTable) :
    Nat → BindingId → CacheM ElementId
  | 0, _ => throw (.fault .endless)
  | depth + 1, id => do
    match (← get).hostElement? id with
    | some element => return element
    | none =>
      let data ←
        describeHost table (wrapHostElementWithin table depth) id
      addElement data

/- The element of a host binding, made on first sight. -/
def wrapHostElement
    (table : BindingTable)
    (id : BindingId) : CacheM ElementId :=
  wrapHostElementWithin table (table.size + 1) id

------------------------------------------------------------
-- Bindings Of Any Sort
------------------------------------------------------------

/- The generated package with a name, one for each name. -/
def packageElement (name : Name) : CacheM ElementId := do
  match (← get).packages.get? name with
  | some element => return element
  | none => addElement { name, kind := .package, origin := .generated }

/- The type of a binding. -/
def wrapType
    (table : BindingTable) : Binding → CacheM TypeId
  | .host id => wrapHostType table id
  | .generated ⟨element, .type, name⟩ => do
    match (← CacheM.inspect (·.element element)).ty with
    | some ty => return ty
    | none =>
      let binding := Binding.generated ⟨element, .type, name⟩
      CacheM.refuse (.notATypeBinding (binding.describe table))
  | .nativeType name => synthesize (.native name)
  | .pointer pointee => do
    let pointee ← wrapType table pointee
    pointerType pointee
  | .pointerToUnbound => pointerType nullType
  | .generated binding =>
    CacheM.refuse
      (.notATypeBinding ((Binding.generated binding).describe table))
  | .generatedPackage name =>
    CacheM.refuse
      (.notATypeBinding ((Binding.generatedPackage name).describe table))

/- The element of a binding. -/
def wrapElement
    (table : BindingTable)
    (binding : Binding) : CacheM ElementId :=
  match binding with
  | .host id => wrapHostElement table id
  | .generated ⟨element, _, _⟩ => do
    let _ ← CacheM.inspect (·.element element)
    return element
  | .generatedPackage name => packageElement name
  | .nativeType _ | .pointer _ | .pointerToUnbound =>
    CacheM.refuse
      (.unknownElementBinding (binding.describe table))

/- The element of a binding, which must be of a family. -/
def wrapElementOf
    (table : BindingTable)
    (family : ElementFamily)
    (binding : Binding) : CacheM ElementId := do
  let element ← wrapElement table binding
  let _ ← CacheM.inspect (·.elementOf family element)
  return element

------------------------------------------------------------
-- Package Declarations
------------------------------------------------------------

/-
  The element of a package, given with the annotations of one
  of its declarations, which host package bindings lack. The
  first annotations that an element gets are its last.
-/
def wrapPackageDeclaration
    (table : BindingTable)
    (id : BindingId)
    (annotations : List BindingId) : CacheM ElementId := do
  let element ← wrapElementOf table .package (.host id)
  let data ← CacheM.inspect (·.element element)
  if data.annotations.isEmpty && !annotations.isEmpty then
    let found ← wrapUses table annotations
    modifyElement element (.annotations found)
  return element

end Cache

end Lowering
