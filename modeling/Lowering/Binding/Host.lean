import Lowering.Handle
import Lowering.Primitive
import Lowering.Binding.Flags

/-
  This file defines host bindings: the facts about program
  entities that the host analyzer reports, one binding for
  each type, method, variable, package and annotation use.

  The compiler never changes a binding. It reads facts from
  it and uses its handle as a key.

  Key definitions include:
    * `TypeBinding`
    * `TypeBinding.declared`
    * `TypeBinding.primitive`
    * `TypeBinding.arrayOf`
    * `MethodBinding`
    * `VariableBinding`
    * `HostBinding`
    * `HostBinding.describe`
-/

namespace Lowering

------------------------------------------------------------
-- Type Bindings
------------------------------------------------------------

/- What the host reports about a type. -/
structure TypeBinding where
  /- The qualified source name, such as `java.lang.String`. -/
  name : String
  /- The binary descriptor, such as `Ljava/lang/String;`. -/
  binaryName : String
  flags : TypeFlags := {}
  /- The element type of an array. -/
  component : Option BindingId := none
  /- Members of an intersection, or a wildcard's bound. -/
  bounds : List BindingId := []
  /- The enclosing type or package. -/
  declaring : Option BindingId := none
  modifiers : Modifiers := {}
  annotations : List BindingId := []
  deriving DecidableEq, Inhabited, Repr

namespace TypeBinding

/- A class or interface, given by its qualified name. -/
def declared (qualified : String) : TypeBinding :=
  let path := qualified.map fun c => if c = '.' then '/' else c
  { name := qualified, binaryName := s!"L{path};" }

/- A value primitive. -/
def primitive (kind : PrimitiveKind) : TypeBinding :=
  { name := kind.keyword
    binaryName := kind.descriptor.toString
    flags := { isPrimitive := true } }

/- The type `void`, which the host reports as a primitive. -/
def void : TypeBinding :=
  { name := "void"
    binaryName := "V"
    flags := { isPrimitive := true } }

/- A target scalar, which the host reports as a primitive. -/
def native (name : String) : TypeBinding :=
  { name
    binaryName := name
    flags := { isPrimitive := true, isNative := true } }

/- A type variable. -/
def typeVariable (name : String) : TypeBinding :=
  { name
    binaryName := s!"T{name};"
    flags := { isTypeVariable := true } }

/- A wildcard with an optional bound. -/
def wildcard (bound : Option BindingId) : TypeBinding :=
  { name := "?"
    binaryName := "*"
    flags := { isWildcard := true }
    bounds := bound.toList }

/- The intersection of some types. -/
def intersection (bounds : List BindingId) : TypeBinding :=
  { name := ""
    binaryName := ""
    flags := { isIntersection := true }
    bounds }

/-
  The array over a component, whose two spellings are built
  from those of the component.
-/
def arrayOf
    (component : BindingId)
    (name binaryName : String) : TypeBinding :=
  { name := s!"{name}[]"
    binaryName := s!"[{binaryName}"
    flags := { isArray := true }
    component := some component }

end TypeBinding

------------------------------------------------------------
-- Other Bindings
------------------------------------------------------------

/-
  What the host reports about a method. A constructor has no
  return type.
-/
structure MethodBinding where
  name : String
  declaring : Option BindingId := none
  returnType : Option BindingId := none
  parameterTypes : List BindingId := []
  modifiers : Modifiers := {}
  annotations : List BindingId := []
  deriving DecidableEq, Inhabited, Repr

/-
  What the host reports about a field, a parameter or a local
  variable.
-/
structure VariableBinding where
  name : String
  ty : Option BindingId := none
  declaring : Option BindingId := none
  isField : Bool := false
  modifiers : Modifiers := {}
  annotations : List BindingId := []
  deriving DecidableEq, Inhabited, Repr

------------------------------------------------------------
-- Host Bindings
------------------------------------------------------------

/- One binding of any family. -/
inductive HostBinding
  | type (binding : TypeBinding)
  | method (binding : MethodBinding)
  | variable (binding : VariableBinding)
  | package (name : String)
  | annotationUse (annotationType : BindingId)
  deriving DecidableEq, Inhabited, Repr

namespace HostBinding

/- The word for the family of a binding. -/
def family : HostBinding → String
  | .type _ => "type"
  | .method _ => "method"
  | .variable _ => "variable"
  | .package _ => "package"
  | .annotationUse _ => "annotation"

/- The name of a binding; an annotation use has only a sign. -/
def name : HostBinding → String
  | .type binding => binding.name
  | .method binding => binding.name
  | .variable binding => binding.name
  | .package name => name
  | .annotationUse _ => "@"

/- The words by which diagnostics speak of a binding. -/
def describe
    (binding : HostBinding)
    (id : BindingId) : String :=
  s!"{binding.family} binding `{binding.name}` ({id})"

end HostBinding

end Lowering
