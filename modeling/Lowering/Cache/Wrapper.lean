import Lowering.Handle
import Lowering.Primitive
import Lowering.Binding.Flags

/-
  This file defines the wrappers that the binding cache makes
  of bindings: types and elements.

  The handle of a wrapper is its identity. A wrapper records
  its origin: the host binding it wraps, the generated element
  it belongs to, or nothing beyond its own shape.

  Key definitions include:
    * `TypeKind`
    * `TypeOrigin`
    * `TypeData`
    * `ElementKind`
    * `ElementOrigin`
    * `AnnotationUse`
    * `ElementData`
    * `ElementEdit`
    * `ElementFamily`
-/

namespace Lowering

------------------------------------------------------------
-- Types
------------------------------------------------------------

/- The variants of a static type. -/
inductive TypeKind
  | array (component : TypeId)
  | declared (name : Name)
  | primitive (kind : PrimitiveKind)
  | typeVariable (name : Name)
  | wildcard (bound : Option TypeId)
  | intersection (bounds : List TypeId)
  | executable (params : List TypeId) (returnType : TypeId)
  /- A target scalar, known only by its spelling. -/
  | native (name : Name)
  | pointer (pointee : TypeId)
  | noType
  | nullType
  deriving DecidableEq, Inhabited, Repr

namespace TypeKind

/- Whether the type is an array. -/
def isArray : TypeKind → Bool
  | array _ => true
  | _ => false

/- Whether the type is a value primitive. -/
def isPrimitive : TypeKind → Bool
  | primitive _ => true
  | _ => false

/- Whether the type is that of a method. -/
def isExecutable : TypeKind → Bool
  | executable _ _ => true
  | _ => false

/- The component of an array. -/
def component? : TypeKind → Option TypeId
  | array component => some component
  | _ => none

/- The value primitive that the type is. -/
def primitive? : TypeKind → Option PrimitiveKind
  | primitive kind => some kind
  | _ => none

end TypeKind

/- What a type stands for. -/
inductive TypeOrigin
  /- A type binding, or a method binding for its own type. -/
  | host (id : BindingId)
  /- The type of a generated type or method. -/
  | generated (element : ElementId)
  /- A shape that no binding or element stands behind. -/
  | synthetic
  deriving DecidableEq, Inhabited, Repr

/- A type with its origin. -/
structure TypeData where
  kind : TypeKind
  origin : TypeOrigin
  deriving DecidableEq, Inhabited, Repr

namespace TypeData

/- The type binding that a type wraps. -/
def wrapped? : TypeData → Option BindingId
  | ⟨kind, .host id⟩ => if kind.isExecutable then none else some id
  | _ => none

/- The method binding that an executable type wraps. -/
def wrappedMethod? : TypeData → Option BindingId
  | ⟨kind, .host id⟩ => if kind.isExecutable then some id else none
  | _ => none

/- The shape of a type that nothing else stands behind. -/
def shape? : TypeData → Option TypeKind
  | ⟨kind, .synthetic⟩ => some kind
  | _ => none

end TypeData

------------------------------------------------------------
-- Elements
------------------------------------------------------------

/- The variants of a program entity. -/
inductive ElementKind
  | type
  /-
    A method. Generated runtime methods have a full selector
    and parameter elements; a host method has its parameters
    only in its executable type.
  -/
  | executable
      (selector : Option Name)
      (parameters : List ElementId)
      (returnType : TypeId)
  | variable (isField : Bool)
  | package
  | typeParameter
  deriving DecidableEq, Inhabited, Repr

namespace ElementKind

/- The words for a variant in reports. -/
def describe : ElementKind → String
  | .type => "type"
  | .executable _ _ _ => "executable"
  | .variable _ => "variable"
  | .package => "package"
  | .typeParameter => "type parameter"

/- Append a parameter to a method. -/
def addParameter
    (param : ElementId) : ElementKind → ElementKind
  | executable selector parameters returnType =>
    executable selector (parameters ++ [param]) returnType
  | kind => kind

end ElementKind

/- What an element stands for. -/
inductive ElementOrigin
  | host (id : BindingId)
  | generated
  deriving DecidableEq, Inhabited, Repr

/- An annotation on an element. -/
structure AnnotationUse where
  binding : BindingId
  annotationType : TypeId
  deriving DecidableEq, Inhabited, Repr

/- A program entity with its origin. -/
structure ElementData where
  name : Name
  kind : ElementKind
  origin : ElementOrigin
  modifiers : Modifiers := {}
  enclosing : Option ElementId := none
  /-
    The type of a type element, the type of a variable, or
    the executable type of a host method. A generated method
    has its executable type made on demand.
  -/
  ty : Option TypeId := none
  annotations : List AnnotationUse := []
  deriving DecidableEq, Inhabited, Repr

namespace ElementData

/- The host binding that an element wraps. -/
def wrapped? (data : ElementData) : Option BindingId :=
  match data.origin with
  | .host id => some id
  | .generated => none

/- The name of a generated package. -/
def package? (data : ElementData) : Option Name :=
  match data.origin, data.kind with
  | .generated, .package => some data.name
  | _, _ => none

end ElementData

/-
  A change of an element that leaves what it is found by: the
  binding that it wraps, or its name as a package.
-/
structure ElementEdit where
  apply : ElementData → ElementData
  wrapped : ∀ data, (apply data).wrapped? = data.wrapped?
  package : ∀ data, (apply data).package? = data.package?

namespace ElementEdit

/- A parameter is appended to a method. -/
def parameter (param : ElementId) : ElementEdit where
  apply data := { data with kind := data.kind.addParameter param }
  wrapped _ := rfl
  package data := by
    rcases data with ⟨name, kind, origin⟩
    cases origin <;> cases kind <;> rfl

/- An element gets its annotations. -/
def annotations (uses : List AnnotationUse) : ElementEdit where
  apply data := { data with annotations := uses }
  wrapped _ := rfl
  package _ := rfl

end ElementEdit

------------------------------------------------------------
-- Element Families
------------------------------------------------------------

/- The families of elements that a caller may insist on. -/
inductive ElementFamily
  | type
  | executable
  | variable
  | package
  deriving DecidableEq, Inhabited, Repr

namespace ElementFamily

/- The word for a family in reports. -/
def label : ElementFamily → String
  | .type => "type"
  | .executable => "executable"
  | .variable => "variable"
  | .package => "package"

/- The variants of a family; a type parameter is a type. -/
def accepts : ElementFamily → ElementKind → Bool
  | .type, .type => true
  | .type, .typeParameter => true
  | .executable, .executable _ _ _ => true
  | .variable, .variable _ => true
  | .package, .package => true
  | _, _ => false

end ElementFamily

end Lowering
