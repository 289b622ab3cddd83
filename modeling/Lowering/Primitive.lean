/-
  This file defines the eight value primitives and their
  spellings: the keyword of source code, the one-letter
  descriptor of binary names, and the plural that runtime
  factory selectors are made of.

  The type `void` is not among them.

  Key definitions include:
    * `PrimitiveKind`
    * `PrimitiveKind.all`
    * `PrimitiveKind.index`
    * `PrimitiveKind.descriptor`
    * `PrimitiveKind.ofDescriptor?`
    * `PrimitiveKind.keyword`
    * `PrimitiveKind.category`
    * `PrimitiveKind.tabulateM`
-/

namespace Lowering

/- The value primitives. -/
inductive PrimitiveKind
  | boolean
  | byte
  | char
  | short
  | int
  | long
  | float
  | double
  deriving DecidableEq, Inhabited, Repr

namespace PrimitiveKind

------------------------------------------------------------
-- Enumeration
------------------------------------------------------------

/- The primitives in their fixed order. -/
def all : List PrimitiveKind :=
  [boolean, byte, char, short, int, long, float, double]

/- The place of a primitive in the fixed order. -/
def index : PrimitiveKind → Nat
  | boolean => 0
  | byte => 1
  | char => 2
  | short => 3
  | int => 4
  | long => 5
  | float => 6
  | double => 7

/-
  Run an action once per primitive, in the fixed order, and
  keep the results as a function of the primitive.
-/
def tabulateM
    {m : Type → Type}
    [Monad m]
    {α : Type}
    (act : PrimitiveKind → m α) : m (PrimitiveKind → α) := do
  let forBoolean ← act boolean
  let forByte ← act byte
  let forChar ← act char
  let forShort ← act short
  let forInt ← act int
  let forLong ← act long
  let forFloat ← act float
  let forDouble ← act double
  return fun
    | boolean => forBoolean
    | byte => forByte
    | char => forChar
    | short => forShort
    | int => forInt
    | long => forLong
    | float => forFloat
    | double => forDouble

------------------------------------------------------------
-- Spellings
------------------------------------------------------------

/- The one-letter binary descriptor. -/
def descriptor : PrimitiveKind → Char
  | boolean => 'Z'
  | byte => 'B'
  | char => 'C'
  | short => 'S'
  | int => 'I'
  | long => 'J'
  | float => 'F'
  | double => 'D'

/- The primitive that a letter describes. -/
def ofDescriptor? (letter : Char) : Option PrimitiveKind :=
  all.find? (·.descriptor = letter)

/- The source keyword. -/
def keyword : PrimitiveKind → String
  | boolean => "boolean"
  | byte => "byte"
  | char => "char"
  | short => "short"
  | int => "int"
  | long => "long"
  | float => "float"
  | double => "double"

/- The primitive with a given source keyword. -/
def ofKeyword? (word : String) : Option PrimitiveKind :=
  all.find? (·.keyword = word)

/- The plural used in runtime factory selectors. -/
def category : PrimitiveKind → String
  | boolean => "Booleans"
  | byte => "Bytes"
  | char => "Chars"
  | short => "Shorts"
  | int => "Ints"
  | long => "Longs"
  | float => "Floats"
  | double => "Doubles"

end PrimitiveKind

end Lowering
