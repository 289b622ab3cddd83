import Lowering.Binding.Table

/-
  This file defines bindings as the cache takes and gives
  them: host bindings, and the bindings that the compiler
  makes up for generated elements and target types.

  Key definitions include:
    * `MemberFamily`
    * `GeneratedBinding`
    * `Binding`
    * `Binding.isGenerated`
    * `Binding.describe`
-/

namespace Lowering

/- The families of elements whose bindings are made up. -/
inductive MemberFamily
  | type
  | method
  | variable
  deriving DecidableEq, Inhabited, Repr

namespace MemberFamily

/- The spelling of a family in descriptions. -/
def label : MemberFamily → String
  | .type => "Type"
  | .method => "Method"
  | .variable => "Variable"

end MemberFamily

/- The binding that stands for a generated element. -/
structure GeneratedBinding where
  element : ElementId
  family : MemberFamily
  name : Name
  deriving DecidableEq, Inhabited, Repr

/- A binding that the cache takes or gives. -/
inductive Binding
  /- A binding of the host analyzer. -/
  | host (id : BindingId)
  /- The binding of a generated type, method or variable. -/
  | generated (binding : GeneratedBinding)
  /- The binding of a generated package. -/
  | generatedPackage (name : Name)
  /- A target type known only by its spelling. -/
  | nativeType (name : Name)
  /- A pointer to the type of another binding. -/
  | pointer (pointee : Binding)
  /- A pointer to a type that no binding stands for. -/
  | pointerToUnbound
  deriving DecidableEq, Inhabited, Repr

namespace Binding

/- Whether the compiler made the binding up. -/
def isGenerated : Binding → Bool
  | host _ => false
  | _ => true

/- The words for a binding, read with the host's table. -/
def describe (table : BindingTable) : Binding → String
  | host id => table.describe id
  | generated binding =>
    s!"generated {binding.family.label} binding for {binding.element}"
  | generatedPackage name => s!"generated package binding {name}"
  | nativeType name => s!"native type binding {name}"
  | pointer pointee =>
    let target := pointee.describe table
    s!"pointer to {target}"
  | pointerToUnbound => "pointer to an unresolved type"

end Binding

end Lowering
