/-
  This file defines the flags of a type binding and the
  modifiers of a declaration. Both are sets of independent
  facts, written as one Boolean for each fact.

  Key definitions include:
    * `TypeFlags`
    * `TypeFlags.words`
    * `TypeFlags.union`
    * `Modifiers`
    * `Modifiers.words`
    * `Modifiers.publicStatic`
-/

namespace Lowering

------------------------------------------------------------
-- Type Flags
------------------------------------------------------------

/-
  Facts about a type binding. Several may hold at once; which
  of them decides the type that is made of the binding is
  settled where the binding is wrapped.
-/
structure TypeFlags where
  isArray : Bool := false
  isIntersection : Bool := false
  isPrimitive : Bool := false
  /- A scalar that only the target language knows. -/
  isNative : Bool := false
  isTypeVariable : Bool := false
  isWildcard : Bool := false
  isInterface : Bool := false
  isEnum : Bool := false
  deriving DecidableEq, Inhabited, Repr

namespace TypeFlags

/- Each fact with its word, in the fixed order. -/
def facts (flags : TypeFlags) : List (String × Bool) :=
  [("ARRAY", flags.isArray),
    ("INTERSECTION", flags.isIntersection),
    ("PRIMITIVE", flags.isPrimitive),
    ("NATIVE", flags.isNative),
    ("TYPE_VARIABLE", flags.isTypeVariable),
    ("WILDCARD", flags.isWildcard),
    ("INTERFACE", flags.isInterface),
    ("ENUM", flags.isEnum)]

/- The words of the facts that hold, in the fixed order. -/
def words (flags : TypeFlags) : List String :=
  (flags.facts.filter (·.2)).map (·.1)

/- The facts whose words are among the given ones. -/
def ofWords (words : List String) : TypeFlags where
  isArray := words.contains "ARRAY"
  isIntersection := words.contains "INTERSECTION"
  isPrimitive := words.contains "PRIMITIVE"
  isNative := words.contains "NATIVE"
  isTypeVariable := words.contains "TYPE_VARIABLE"
  isWildcard := words.contains "WILDCARD"
  isInterface := words.contains "INTERFACE"
  isEnum := words.contains "ENUM"

/- The facts that hold in either of two sets. -/
def union (flags others : TypeFlags) : TypeFlags where
  isArray := flags.isArray || others.isArray
  isIntersection := flags.isIntersection || others.isIntersection
  isPrimitive := flags.isPrimitive || others.isPrimitive
  isNative := flags.isNative || others.isNative
  isTypeVariable := flags.isTypeVariable || others.isTypeVariable
  isWildcard := flags.isWildcard || others.isWildcard
  isInterface := flags.isInterface || others.isInterface
  isEnum := flags.isEnum || others.isEnum

end TypeFlags

------------------------------------------------------------
-- Modifiers
------------------------------------------------------------

/- The modifiers of a declaration. -/
structure Modifiers where
  isPublic : Bool := false
  isPrivate : Bool := false
  isProtected : Bool := false
  isStatic : Bool := false
  isFinal : Bool := false
  isAbstract : Bool := false
  deriving DecidableEq, Inhabited, Repr

namespace Modifiers

/- Each modifier with its word, in the fixed order. -/
def facts (modifiers : Modifiers) : List (String × Bool) :=
  [("PUBLIC", modifiers.isPublic),
    ("PRIVATE", modifiers.isPrivate),
    ("PROTECTED", modifiers.isProtected),
    ("STATIC", modifiers.isStatic),
    ("FINAL", modifiers.isFinal),
    ("ABSTRACT", modifiers.isAbstract)]

/- The words of the modifiers present, in the fixed order. -/
def words (modifiers : Modifiers) : List String :=
  (modifiers.facts.filter (·.2)).map (·.1)

/- The modifiers whose words are among the given ones. -/
def ofWords (words : List String) : Modifiers where
  isPublic := words.contains "PUBLIC"
  isPrivate := words.contains "PRIVATE"
  isProtected := words.contains "PROTECTED"
  isStatic := words.contains "STATIC"
  isFinal := words.contains "FINAL"
  isAbstract := words.contains "ABSTRACT"

/- No modifier at all. -/
def none : Modifiers := {}

/- The one modifier `public`. -/
def onlyPublic : Modifiers := { isPublic := true }

/- The modifiers `public` and `static`. -/
def publicStatic : Modifiers :=
  { isPublic := true, isStatic := true }

end Modifiers

end Lowering
