import Lowering.Binding.Basic
import Lowering.Cache.Basic

/-
  This file defines how host type bindings become types.

  A binding is wrapped once: while its wrapper is live, asking
  again gives the same handle and changes nothing. Wrapping
  follows the references of a binding first, so the types that
  a type is made of are older than the type itself.

  The references of bindings are followed to a depth that no
  table without circular bindings exceeds.

  Key definitions include:
    * `BindingTable.typeBinding`
    * `Cache.typeOf?`
    * `Cache.executableOf?`
    * `Cache.kindOfType`
    * `Cache.wrapHostType`
    * `Cache.wrapExecutable`
    * `Cache.synthesize`
-/

namespace Lowering

------------------------------------------------------------
-- Reading The Table
------------------------------------------------------------

/- The type binding at a handle. -/
def BindingTable.typeBinding
    (table : BindingTable)
    (id : BindingId) : Except ContractViolation TypeBinding :=
  match table.get? id with
  | some (.type binding) => .ok binding
  | some binding =>
    .error (.notATypeBinding (binding.describe id))
  | none => .error (.danglingBinding id)

/- The method binding at a handle. -/
def BindingTable.methodBinding
    (table : BindingTable)
    (id : BindingId) : Except ContractViolation MethodBinding :=
  match table.get? id with
  | some (.method binding) => .ok binding
  | _ => .error (.notAMethodBinding (table.describe id))

/- The annotation type of the annotation use at a handle. -/
def BindingTable.annotationType
    (table : BindingTable)
    (id : BindingId) : Except ContractViolation BindingId :=
  match table.get? id with
  | some (.annotationUse annotationType) => .ok annotationType
  | _ => .error (.notAnAnnotationBinding (table.describe id))

namespace Cache

/- Read the table, refusing what it does not allow. -/
def consult
    {α : Type} :
    Except ContractViolation α → CacheM α
  | .ok answer => pure answer
  | .error cause => CacheM.refuse cause

------------------------------------------------------------
-- Live Wrappers
------------------------------------------------------------

/-
  The type that wraps a type binding. The executable type of
  a method has its binding as origin too, and is kept apart.
-/
def typeOf?
    (cache : Cache)
    (id : BindingId) : Option TypeId :=
  cache.wrappedTypes.get? id

/- The executable type that wraps a method binding. -/
def executableOf?
    (cache : Cache)
    (id : BindingId) : Option TypeId :=
  cache.wrappedMethods.get? id

------------------------------------------------------------
-- Type Bindings
------------------------------------------------------------

/-
  The primitive that a binary name describes: the name is one
  descriptor letter and nothing else.
-/
def primitiveOfBinaryName?
    (binaryName : String) : Option PrimitiveKind :=
  match binaryName.toList with
  | [letter] => PrimitiveKind.ofDescriptor? letter
  | _ => none

/-
  The kind of type that a binding prescribes. The first flag
  that applies decides: array, intersection, primitive (where
  target scalars come before `void`, and `void` before the
  value primitives), type variable, wildcard. A binding with
  none of them is a class or an interface.
-/
def kindOfType
    (table : BindingTable)
    (wrap : BindingId → CacheM TypeId)
    (id : BindingId)
    (binding : TypeBinding) : CacheM TypeKind :=
  if binding.flags.isArray then
    match binding.component with
    | some component => .array <$> wrap component
    | none =>
      CacheM.refuse (.malformedArrayBinding (table.describe id))
  else if binding.flags.isIntersection then
    .intersection <$> binding.bounds.mapM wrap
  else if binding.flags.isPrimitive then
    if binding.flags.isNative then
      .native <$> intern binding.name
    else if binding.binaryName = "V" then
      pure .noType
    else
      match primitiveOfBinaryName? binding.binaryName with
      | some kind => pure (.primitive kind)
      | none => CacheM.refuse (.notPrimitive binding.name)
  else if binding.flags.isTypeVariable then
    .typeVariable <$> intern binding.name
  else if binding.flags.isWildcard then
    .wildcard <$> binding.bounds.head?.mapM wrap
  else
    .declared <$> intern binding.name

/- Wrap a type binding, following references to a depth. -/
def wrapHostTypeWithin
    (table : BindingTable) :
    Nat → BindingId → CacheM TypeId
  | 0, _ => throw (.fault .endless)
  | depth + 1, id => do
    match (← get).typeOf? id with
    | some ty => return ty
    | none =>
      let binding ← consult (table.typeBinding id)
      let kind ←
        kindOfType table (wrapHostTypeWithin table depth) id binding
      addType kind (.host id)

/- The type of a host type binding, made on first sight. -/
def wrapHostType
    (table : BindingTable)
    (id : BindingId) : CacheM TypeId :=
  wrapHostTypeWithin table (table.size + 1) id

------------------------------------------------------------
-- Method Bindings
------------------------------------------------------------

/-
  The return type of a method binding; a constructor has none.
-/
def wrapReturnType
    (table : BindingTable)
    (binding : MethodBinding) : CacheM TypeId :=
  match binding.returnType with
  | some id => wrapHostType table id
  | none => pure noType

/- The executable type of a host method binding. -/
def wrapExecutable
    (table : BindingTable)
    (id : BindingId) : CacheM TypeId := do
  match (← get).executableOf? id with
  | some ty => return ty
  | none =>
    let binding ← consult (table.methodBinding id)
    let params ← binding.parameterTypes.mapM (wrapHostType table)
    let returnType ← wrapReturnType table binding
    addType (.executable params returnType) (.host id)

------------------------------------------------------------
-- Synthetic Types
------------------------------------------------------------

/-
  The type of a shape that no binding stands behind. Equal
  shapes share one type.
-/
def synthesize (kind : TypeKind) : CacheM TypeId := do
  match (← get).shapes.get? kind with
  | some ty => return ty
  | none => addType kind .synthetic

/- The target scalar with a given spelling. -/
def nativeType (text : String) : CacheM TypeId := do
  let name ← intern text
  synthesize (.native name)

/- The pointer to a type. -/
def pointerType (pointee : TypeId) : CacheM TypeId :=
  synthesize (.pointer pointee)

/- The array over a type, with no host binding behind it. -/
def syntheticArrayType (component : TypeId) : CacheM TypeId :=
  synthesize (.array component)

/- The type of a value primitive. -/
def primitiveType
    (table : BindingTable)
    (kind : PrimitiveKind) : CacheM TypeId :=
  CacheM.fatal (wrapHostType table (BindingTable.primitive kind))

end Cache

end Lowering
