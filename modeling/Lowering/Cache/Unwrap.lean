import Lowering.Cache.WrapType

/-
  This file defines how wrappers lead back to bindings.

  A wrapper of a host binding gives back that binding. For a
  generated element a binding is made up from the element. A
  synthetic type has a binding only where its shape has one: a
  synthetic array is bound as soon as the host has reported an
  array over the same component.

  Key definitions include:
    * `Cache.unwrap`
    * `Cache.unwrapOf`
    * `Cache.standsForType`
    * `Cache.bindingOfType`
    * `Cache.typeBindingOfType`
-/

namespace Lowering

namespace Cache

------------------------------------------------------------
-- Elements
------------------------------------------------------------

/- The binding that a generated element of a kind has. -/
def generatedBinding
    (element : ElementId)
    (name : Name) : ElementKind → Binding
  | .type | .typeParameter => .generated ⟨element, .type, name⟩
  | .executable _ _ _ => .generated ⟨element, .method, name⟩
  | .variable _ => .generated ⟨element, .variable, name⟩
  | .package => .generatedPackage name

/- The binding that an element stands for. -/
def unwrap
    (cache : Cache)
    (element : ElementId) : Except CacheError Binding := do
  let data ← cache.element element
  match data.origin with
  | .host id => return .host id
  | .generated =>
    return generatedBinding element data.name data.kind

/- The binding of an element, which must be of a family. -/
def unwrapOf
    (cache : Cache)
    (family : ElementFamily)
    (element : ElementId) : Except CacheError Binding := do
  let _ ← cache.elementOf family element
  cache.unwrap element

/- The host bindings of the annotations of an element. -/
def unwrapAnnotations
    (cache : Cache)
    (element : ElementId) : Except CacheError (List Binding) := do
  let data ← cache.element element
  return data.annotations.map (.host ·.binding)

------------------------------------------------------------
-- Types
------------------------------------------------------------

/- Whether a binding is one of a type. -/
def standsForType
    (table : BindingTable) : Binding → Bool
  | .host id =>
    match table.get? id with
    | some (.type _) => true
    | _ => false
  | .generated binding => binding.family = .type
  | .generatedPackage _ => false
  | .nativeType _ | .pointer _ | .pointerToUnbound => true

/- The binding behind a type, read to a depth. -/
def bindingOfTypeWithin
    (cache : Cache)
    (table : BindingTable) :
    Nat → TypeId → Except CacheError (Option Binding)
  | 0, _ => .error (.fault .endless)
  | depth + 1, ty => do
    let data ← cache.typeData ty
    match data.kind, data.origin with
    | .native name, _ => return some (.nativeType name)
    | .pointer pointee, _ => do
      let target ← bindingOfTypeWithin cache table depth pointee
      match target.filter (standsForType table) with
      | some binding => return some (.pointer binding)
      | none => return some .pointerToUnbound
    | _, .host id => return some (.host id)
    | .executable _ _, .generated method => do
      let owner ← cache.element method
      return some (.generated ⟨method, .method, owner.name⟩)
    | _, .generated element => do
      let owner ← cache.element element
      return some (.generated ⟨element, .type, owner.name⟩)
    | .noType, .synthetic => return some (.host BindingTable.void)
    | .array component, .synthetic => do
      let found ← bindingOfTypeWithin cache table depth component
      match found.filter (standsForType table) with
      | some (.host id) =>
        return (table.findArrayOf? id).map .host
      | _ => return none
    | _, .synthetic => return none

/-
  The binding behind a type; for the executable type of a
  method it is the binding of the method.
-/
def bindingOfType
    (cache : Cache)
    (table : BindingTable)
    (ty : TypeId) : Except CacheError (Option Binding) :=
  cache.bindingOfTypeWithin table (cache.types.size + 1) ty

/- The binding behind a type, if it is one of a type. -/
def typeBindingOfType
    (cache : Cache)
    (table : BindingTable)
    (ty : TypeId) : Except CacheError (Option Binding) :=
  return (← cache.bindingOfType table ty).filter
    (standsForType table)

end Cache

end Lowering
