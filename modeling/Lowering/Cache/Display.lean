import Lowering.Cache.Basic

/-
  This file defines how types are written in reports, in the
  manner of source code, and which word of a runtime selector
  a type contributes.

  Key definitions include:
    * `Cache.display`
    * `Cache.categoryName`
-/

namespace Lowering

namespace Cache

------------------------------------------------------------
-- Display
------------------------------------------------------------

/- The text of a type, read to a depth. -/
def displayWithin
    (cache : Cache) :
    Nat → TypeId → Except CacheError String
  | 0, _ => .error (.fault .endless)
  | depth + 1, ty =>
    match cache.type? ty with
    | none => return s!"<stale {ty}>"
    | some data =>
      match data.kind with
      | .array component => do
        let text ← displayWithin cache depth component
        return s!"{text}[]"
      | .declared name => cache.nameText name
      | .typeVariable name => cache.nameText name
      | .native name => cache.nameText name
      | .primitive kind => return kind.keyword
      | .wildcard none => return "?"
      | .wildcard (some bound) => do
        let text ← displayWithin cache depth bound
        return s!"? extends {text}"
      | .intersection bounds => do
        let texts ← bounds.mapM (displayWithin cache depth)
        return " & ".intercalate texts
      | .executable params returnType => do
        let texts ← params.mapM (displayWithin cache depth)
        let result ← displayWithin cache depth returnType
        let list := ", ".intercalate texts
        return s!"({list}) -> {result}"
      | .pointer pointee => do
        let text ← displayWithin cache depth pointee
        return s!"{text} *"
      | .noType => return "void"
      | .nullType => return "null"

/- The text of a type, in the manner of source code. -/
def display
    (cache : Cache)
    (ty : TypeId) : Except CacheError String :=
  cache.displayWithin (cache.types.size + 1) ty

------------------------------------------------------------
-- Selector Words
------------------------------------------------------------

/-
  The plural of a value primitive, as it stands in runtime
  array selectors. Only the want of a primitive is refused; a
  handle that is not live is a fault.
-/
def categoryName
    (cache : Cache)
    (ty : TypeId) : Except CacheError String := do
  let kind ← (cache.primitiveKind ty).mapError CacheError.fatal
  match kind with
  | some kind => return kind.category
  | none =>
    let name ← cache.display ty
    throw (.violation (.notPrimitive name))

end Cache

end Lowering
