import Lowering.Handle

/-
  This file defines interners, which number the texts they are
  given in the order of first sight.

  The empty text is always `Name.empty` and is never stored;
  the other texts are numbered from one. An interner only
  grows, so a name keeps its text for good, and a name whose
  number is beyond the texts seen so far was issued elsewhere.

  Key definitions include:
    * `InternError`
    * `ForeignName`
    * `Interner`
    * `Interner.find?`
    * `Interner.intern`
    * `Interner.internOptional`
    * `Interner.text?`
    * `Interner.lookup`
-/

namespace Lowering

------------------------------------------------------------
-- Refusals And Faults
------------------------------------------------------------

/- Why a text could not be interned. -/
inductive InternError
  | nullName
  | overflow (count : Nat)
  deriving DecidableEq, Repr

namespace InternError

/- The word for the reason. -/
def label : InternError → String
  | nullName => "NullName"
  | overflow _ => "Overflow"

/- The report on a text that could not be interned. -/
def message : InternError → String
  | nullName => "null name passed to the name interner"
  | overflow count =>
    s!"name interner exceeded capacity: {count} names"

end InternError

/- The fault of asking an interner for a name it never gave. -/
structure ForeignName where
  name : Name
  deriving DecidableEq, Repr

namespace ForeignName

/- The report on a foreign name. -/
def message (fault : ForeignName) : String :=
  s!"foreign {fault.name} looked up in interner"

end ForeignName

------------------------------------------------------------
-- Interners
------------------------------------------------------------

/- Without texts there are no names. -/
theorem lookup_no_names (text : String) :
    ([] : List (String × Name)).lookup text =
      ((#[] : Array String).findIdx? (· == text)).map
        (⟨· + 1⟩) := by
  rw [Array.findIdx?_empty]
  rfl

/-
  The texts seen so far, where name `n` is the text at `n - 1`,
  and the map back from each text to its name.
-/
structure Interner where
  texts : Array String := #[]
  names : List (String × Name) := []
  /- The map has each stored text, under its place. -/
  indexed : ∀ text, names.lookup text =
    (texts.findIdx? (· == text)).map (⟨· + 1⟩) := by
      exact lookup_no_names
  deriving DecidableEq, Repr

instance : Inhabited Interner where
  default := {}

namespace Interner

/- The name of a text that has been seen. -/
def find?
    (interner : Interner)
    (text : String) : Option Name :=
  if text = "" then
    some Name.empty
  else
    interner.names.lookup text

/- Store a text under the next name. -/
def store
    (interner : Interner)
    (text : String) : Interner where
  texts := interner.texts.push text
  names :=
    interner.names ++ [(text, ⟨interner.texts.size + 1⟩)]
  indexed := by
    intro other
    rw [List.lookup_append, Array.findIdx?_push,
      interner.indexed, Option.map_or]
    congr 1
    by_cases hText : other = text
    · simp [hText]
    · simp [List.lookup_cons, beq_eq_false_iff_ne.mpr hText,
        Ne.symm hText]

/- The name of a text, a new one on first sight. -/
def intern
    (interner : Interner)
    (text : String) : Name × Interner :=
  match interner.find? text with
  | some name => (name, interner)
  | none =>
    (⟨interner.texts.size + 1⟩, interner.store text)

/- Intern a text that the host may have failed to supply. -/
def internOptional
    (interner : Interner) :
    Option String → Except InternError (Name × Interner)
  | some text => .ok (interner.intern text)
  | none => .error .nullName

/- The text of a name, if this interner knows it. -/
def text?
    (interner : Interner)
    (name : Name) : Option String :=
  match name.raw with
  | 0 => some ""
  | index + 1 => interner.texts[index]?

/- The text of a name that this interner must know. -/
def lookup
    (interner : Interner)
    (name : Name) : Except ForeignName String :=
  match interner.text? name with
  | some text => .ok text
  | none => .error ⟨name⟩

/- The number of texts seen, the empty one not counted. -/
def size (interner : Interner) : Nat :=
  interner.texts.size

end Interner

end Lowering
