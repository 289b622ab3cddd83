/-
  This file defines the handles by which the compiler
  addresses everything it hands out: types, elements, host
  bindings, tree nodes and interned names.

  A handle is a number in a type of its own, so that a type
  handle can never be taken for an element handle. Two handles
  denote the same thing exactly when their numbers agree, and
  they are ordered by that number.

  Key definitions include:
    * `TypeId`
    * `ElementId`
    * `BindingId`
    * `NodeId`
    * `Name`
    * `Name.empty`
-/

namespace Lowering

------------------------------------------------------------
-- Types And Elements
------------------------------------------------------------

/- The identity of a type. -/
structure TypeId where
  raw : Nat
  deriving DecidableEq, Inhabited, Repr

instance : Ord TypeId where
  compare a b := compare a.raw b.raw

instance : ToString TypeId where
  toString id := s!"TypeId({id.raw})"

/- The identity of an element, a named program entity. -/
structure ElementId where
  raw : Nat
  deriving DecidableEq, Inhabited, Repr

instance : Ord ElementId where
  compare a b := compare a.raw b.raw

instance : ToString ElementId where
  toString id := s!"ElementId({id.raw})"

------------------------------------------------------------
-- Host Bindings
------------------------------------------------------------

/- The identity of a binding made by the host analyzer. -/
structure BindingId where
  raw : Nat
  deriving DecidableEq, Inhabited, Repr

instance : Ord BindingId where
  compare a b := compare a.raw b.raw

instance : ToString BindingId where
  toString id := s!"BindingId({id.raw})"

------------------------------------------------------------
-- Tree Nodes
------------------------------------------------------------

/- The place of a node in its tree. -/
structure NodeId where
  raw : Nat
  deriving DecidableEq, Inhabited, Repr

instance : Ord NodeId where
  compare a b := compare a.raw b.raw

instance : ToString NodeId where
  toString id := s!"NodeId({id.raw})"

------------------------------------------------------------
-- Names
------------------------------------------------------------

/-
  An interned identifier. It stands for a text only together
  with the interner that issued it.
-/
structure Name where
  raw : Nat
  deriving DecidableEq, Inhabited, Repr

namespace Name

/- The name of the empty text in every interner. -/
def empty : Name := ⟨0⟩

instance : Ord Name where
  compare a b := compare a.raw b.raw

instance : ToString Name where
  toString name := s!"Name({name.raw})"

end Name

end Lowering
