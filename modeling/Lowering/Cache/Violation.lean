import Lowering.Interner

/-
  This file defines how operations of the binding cache fail.

  A contract violation says that the host analyzer or an
  earlier pass handed the cache something that the binding
  model does not allow; the caller may handle it. A fault ends
  the run. An operation in its fatal form turns its violations
  into faults.

  Key definitions include:
    * `ContractViolation`
    * `ContractViolation.label`
    * `ContractViolation.message`
    * `CacheFault`
    * `CacheFault.message`
    * `CacheError`
    * `CacheError.fatal`
-/

namespace Lowering

------------------------------------------------------------
-- Contract Violations
------------------------------------------------------------

/- What was wrong with the input of a cache operation. -/
inductive ContractViolation
  | unknownElementBinding (binding : String)
  | notATypeBinding (binding : String)
  | notAMethodBinding (binding : String)
  | notAPackageBinding (binding : String)
  | notAnAnnotationBinding (binding : String)
  | danglingBinding (id : BindingId)
  | staleHandle (handle : String)
  | wrongElementKind (name expected found : String)
  | malformedArrayBinding (binding : String)
  | notPrimitive (name : String)
  | handleSpaceExhausted (base : Nat)
  | intern (cause : InternError)
  deriving DecidableEq, Repr

namespace ContractViolation

/- The word for the cause; a reason within is in brackets. -/
def label : ContractViolation → String
  | unknownElementBinding _ => "UnknownElementBinding"
  | notATypeBinding _ => "NotATypeBinding"
  | notAMethodBinding _ => "NotAMethodBinding"
  | notAPackageBinding _ => "NotAPackageBinding"
  | notAnAnnotationBinding _ => "NotAnAnnotationBinding"
  | danglingBinding _ => "DanglingBinding"
  | staleHandle _ => "StaleHandle"
  | wrongElementKind _ _ _ => "WrongElementKind"
  | malformedArrayBinding _ => "MalformedArrayBinding"
  | notPrimitive _ => "NotPrimitive"
  | handleSpaceExhausted _ => "HandleSpaceExhausted"
  | intern cause =>
    let reason := cause.label
    s!"Intern({reason})"

/- The report on a contract violation. -/
def message : ContractViolation → String
  | unknownElementBinding binding => s!"no element kind for {binding}"
  | notATypeBinding binding => s!"{binding} is not a type binding"
  | notAMethodBinding binding => s!"{binding} is not a method binding"
  | notAPackageBinding binding => s!"{binding} is not a package binding"
  | notAnAnnotationBinding binding =>
    s!"{binding} is not an annotation binding"
  | danglingBinding id => s!"binding {id} is not in the binding table"
  | staleHandle handle =>
    s!"{handle} does not belong to the current cache generation"
  | wrongElementKind name expected found =>
    s!"expected a {expected} element, found {found} element `{name}`"
  | malformedArrayBinding binding =>
    s!"array binding {binding} has no component type"
  | notPrimitive name => s!"`{name}` is not a primitive type"
  | handleSpaceExhausted base =>
    s!"wrapper handle space exhausted at base {base}"
  | intern cause => cause.message

end ContractViolation

------------------------------------------------------------
-- Faults
------------------------------------------------------------

/- What ends a run inside the binding cache. -/
inductive CacheFault
  /- A violation met by an operation in its fatal form. -/
  | contract (violation : ContractViolation)
  /- A name that another interner issued. -/
  | foreignName (fault : ForeignName)
  /- Bindings or types that contain themselves. -/
  | endless
  deriving DecidableEq, Repr

namespace CacheFault

/- The report on a fault. -/
def message : CacheFault → String
  | contract violation =>
    let cause := violation.message
    s!"binding cache contract violation: {cause}"
  | foreignName fault => fault.message
  | endless => "the definition of a type contains itself"

end CacheFault

------------------------------------------------------------
-- Errors
------------------------------------------------------------

/- Why a cache operation has no answer. -/
inductive CacheError
  | violation (cause : ContractViolation)
  | fault (cause : CacheFault)
  deriving DecidableEq, Repr

namespace CacheError

/- The same failure when no caller may handle it. -/
def fatal : CacheError → CacheError
  | violation cause => fault (.contract cause)
  | fault cause => fault cause

end CacheError

end Lowering
