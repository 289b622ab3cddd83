import Lowering.Interner
import Lowering.Cache.Index
import Lowering.Cache.Violation
import Lowering.Cache.Wrapper

/-
  This file defines the binding cache, the state of one run
  of the compiler: the interned names and the live wrappers.

  The cache finds its wrappers by indexes: types, executable
  types and elements by the bindings that they wrap, types
  without a binding by their shape, and generated packages by
  their name. A wrapper is entered as it is pushed, so that an
  index never disagrees with the wrappers.

  The executable type of a generated method is no wrapper. It
  is remembered until the method gets a parameter, when it is
  out of date.

  Two types are fixed and outlive every reset: the absence of
  a type, and the type of `null`.

  Key definitions include:
    * `Cache`
    * `CacheM`
    * `CacheM.inspect`
    * `CacheM.fatal`
    * `Cache.reset`
    * `Cache.addType`
    * `Cache.addElement`
    * `Cache.typeData`
    * `Cache.element`
    * `Cache.nameText`
    * `Cache.componentType`
    * `Cache.primitiveKind`
-/

namespace Lowering

------------------------------------------------------------
-- The Cache
------------------------------------------------------------

/- Where there are no types, none are entered. -/
theorem lists_no_types
    {κ : Type}
    [DecidableEq κ]
    (key : TypeData → Option κ) :
    ({} : Index κ TypeId).Lists
      ({ base := 2 } : Generation TypeData) key TypeId.mk :=
  Index.lists_empty 2 key TypeId.mk

/- Where there are no elements, none are entered. -/
theorem lists_no_elements
    {κ : Type}
    [DecidableEq κ]
    (key : ElementData → Option κ) :
    ({} : Index κ ElementId).Lists
      ({ base := 0 } : Generation ElementData) key
      ElementId.mk :=
  Index.lists_empty 0 key ElementId.mk

/- The names and the live wrappers of one run. -/
structure Cache where
  names : Interner := {}
  types : Generation TypeData := { base := 2 }
  elements : Generation ElementData := { base := 0 }
  wrappedTypes : Index BindingId TypeId := {}
  wrappedMethods : Index BindingId TypeId := {}
  wrappedElements : Index BindingId ElementId := {}
  shapes : Index TypeKind TypeId := {}
  packages : Index Name ElementId := {}
  /- Executable types by their generated methods. -/
  executables : List (ElementId × TypeId) := []
  wrappedTypes_lists :
    wrappedTypes.Lists types TypeData.wrapped? TypeId.mk := by
      exact lists_no_types _
  wrappedMethods_lists :
    wrappedMethods.Lists types TypeData.wrappedMethod?
      TypeId.mk := by
        exact lists_no_types _
  wrappedElements_lists :
    wrappedElements.Lists elements ElementData.wrapped?
      ElementId.mk := by
        exact lists_no_elements _
  shapes_lists :
    shapes.Lists types TypeData.shape? TypeId.mk := by
      exact lists_no_types _
  packages_lists :
    packages.Lists elements ElementData.package?
      ElementId.mk := by
        exact lists_no_elements _
  deriving DecidableEq, Repr

instance : Inhabited Cache where
  default := {}

/-
  An operation on the cache. A failed operation keeps what it
  had done to the cache before it failed.
-/
abbrev CacheM := EStateM CacheError Cache

namespace CacheM

variable {α : Type}

/- Answer a question about the cache. -/
def inspect
    (question : Cache → Except CacheError α) : CacheM α :=
  fun cache =>
    match question cache with
    | .ok answer => .ok answer cache
    | .error error => .error error cache

/- The fatal form of an operation. -/
def fatal (operation : CacheM α) : CacheM α :=
  operation.adaptExcept CacheError.fatal

/- Refuse the input of an operation. -/
def refuse (cause : ContractViolation) : CacheM α :=
  throw (.violation cause)

end CacheM

namespace Cache

/- The type of things that have none, such as statements. -/
def noType : TypeId := ⟨0⟩

/- The type of the literal `null`. -/
def nullType : TypeId := ⟨1⟩

/-
  Drop every wrapper. Names are kept: they depend on nothing
  but their text.
-/
def reset (cache : Cache) : Cache where
  names := cache.names
  types := cache.types.restart
  elements := cache.elements.restart
  wrappedTypes_lists := Index.lists_empty _ _ _
  wrappedMethods_lists := Index.lists_empty _ _ _
  wrappedElements_lists := Index.lists_empty _ _ _
  shapes_lists := Index.lists_empty _ _ _
  packages_lists := Index.lists_empty _ _ _

------------------------------------------------------------
-- Names
------------------------------------------------------------

/- The name of a text. -/
def intern (text : String) : CacheM Name :=
  modifyGet fun cache =>
    let (name, names) := cache.names.intern text
    (name, { cache with names })

/- The name of a text that the host may have left out. -/
def internOptional : Option String → CacheM Name
  | some text => intern text
  | none => CacheM.refuse (.intern .nullName)

/- The text of a name of this cache. -/
def nameText
    (cache : Cache)
    (name : Name) : Except CacheError String :=
  (cache.names.lookup name).mapError
    fun fault => .fault (.foreignName fault)

------------------------------------------------------------
-- Types
------------------------------------------------------------

/- The type at a handle, if the handle is live. -/
def type? (cache : Cache) (ty : TypeId) : Option TypeData :=
  if ty = noType then
    some ⟨.noType, .synthetic⟩
  else if ty = nullType then
    some ⟨.nullType, .synthetic⟩
  else
    cache.types.get? ty.raw

/- The type at a handle that must be live. -/
def typeData
    (cache : Cache)
    (ty : TypeId) : Except CacheError TypeData :=
  match cache.type? ty with
  | some data => .ok data
  | none => .error (.violation (.staleHandle (toString ty)))

/- The cache with one more type. -/
def pushType (cache : Cache) (data : TypeData) : Cache :=
  { cache with
    types := cache.types.push data
    wrappedTypes :=
      cache.wrappedTypes.enter data.wrapped? ⟨cache.types.next⟩
    wrappedMethods :=
      cache.wrappedMethods.enter data.wrappedMethod?
        ⟨cache.types.next⟩
    shapes := cache.shapes.enter data.shape? ⟨cache.types.next⟩
    wrappedTypes_lists := cache.wrappedTypes_lists.push data
    wrappedMethods_lists := cache.wrappedMethods_lists.push data
    shapes_lists := cache.shapes_lists.push data }

/- Make a new type. -/
def addType
    (kind : TypeKind)
    (origin : TypeOrigin) : CacheM TypeId :=
  modifyGet fun cache =>
    (⟨cache.types.next⟩, cache.pushType ⟨kind, origin⟩)

/- The least live type with a property. -/
def findType?
    (cache : Cache)
    (property : TypeData → Bool) : Option TypeId :=
  (cache.types.find? property).map (⟨·⟩)

/- The number of live types, the fixed ones not counted. -/
def typeCount (cache : Cache) : Nat :=
  cache.types.size

------------------------------------------------------------
-- Elements
------------------------------------------------------------

/- The element at a handle that must be live. -/
def element
    (cache : Cache)
    (id : ElementId) : Except CacheError ElementData :=
  match cache.elements.get? id.raw with
  | some data => .ok data
  | none => .error (.violation (.staleHandle (toString id)))

/- The cache with one more element. -/
def pushElement (cache : Cache) (data : ElementData) : Cache :=
  { cache with
    elements := cache.elements.push data
    wrappedElements :=
      cache.wrappedElements.enter data.wrapped?
        ⟨cache.elements.next⟩
    packages :=
      cache.packages.enter data.package? ⟨cache.elements.next⟩
    wrappedElements_lists := cache.wrappedElements_lists.push data
    packages_lists := cache.packages_lists.push data }

/- The cache with a live element changed. -/
def editElement
    (cache : Cache)
    (id : ElementId)
    (edit : ElementEdit) : Cache :=
  { cache with
    elements := cache.elements.modify id.raw edit.apply
    wrappedElements_lists :=
      cache.wrappedElements_lists.modify edit.wrapped id.raw
    packages_lists :=
      cache.packages_lists.modify edit.package id.raw }

/- Make a new element. -/
def addElement (data : ElementData) : CacheM ElementId :=
  modifyGet fun cache =>
    (⟨cache.elements.next⟩, cache.pushElement data)

/- Change a live element. -/
def modifyElement
    (id : ElementId)
    (edit : ElementEdit) : CacheM Unit :=
  modify (·.editElement id edit)

/- The least live element with a property. -/
def findElement?
    (cache : Cache)
    (property : ElementData → Bool) : Option ElementId :=
  (cache.elements.find? property).map (⟨·⟩)

/- The number of live elements. -/
def elementCount (cache : Cache) : Nat :=
  cache.elements.size

/- The text of the name of an element. -/
def elementName
    (cache : Cache)
    (id : ElementId) : Except CacheError String := do
  let data ← cache.element id
  cache.nameText data.name

/-
  The failure of an element to belong to the family that the
  caller insists on.
-/
def wrongElementKind
    (cache : Cache)
    (data : ElementData)
    (expected : ElementFamily) : CacheError :=
  match cache.nameText data.name with
  | .ok name =>
    .violation
      (.wrongElementKind name expected.label data.kind.describe)
  | .error error => error

/- The element at a handle, which must belong to a family. -/
def elementOf
    (cache : Cache)
    (family : ElementFamily)
    (id : ElementId) : Except CacheError ElementData := do
  let data ← cache.element id
  if family.accepts data.kind then
    return data
  else
    throw (cache.wrongElementKind data family)

------------------------------------------------------------
-- Executable Types Of Generated Methods
------------------------------------------------------------

/- Remember the executable type of a method. -/
def rememberExecutable
    (method : ElementId)
    (ty : TypeId) : CacheM Unit :=
  modify fun cache =>
    { cache with executables := (method, ty) :: cache.executables }

/- Forget the executable type of a method. -/
def forgetExecutable (method : ElementId) : CacheM Unit :=
  modify fun cache =>
    { cache with
      executables := cache.executables.filter (·.1 ≠ method) }

------------------------------------------------------------
-- Questions About Types
------------------------------------------------------------

/- The component of an array type. -/
def componentType
    (cache : Cache)
    (ty : TypeId) : Except CacheError (Option TypeId) :=
  return (← cache.typeData ty).kind.component?

/- The value primitive that a type is. -/
def primitiveKind
    (cache : Cache)
    (ty : TypeId) : Except CacheError (Option PrimitiveKind) :=
  return (← cache.typeData ty).kind.primitive?

/- Whether a type is an array. -/
def isArray
    (cache : Cache)
    (ty : TypeId) : Except CacheError Bool :=
  return (← cache.typeData ty).kind.isArray

/- Whether a type is a value primitive. -/
def isPrimitive
    (cache : Cache)
    (ty : TypeId) : Except CacheError Bool :=
  return (← cache.typeData ty).kind.isPrimitive

end Cache

end Lowering
