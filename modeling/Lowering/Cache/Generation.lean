/-
  This file defines generations, append-only stores whose
  handles are never used twice.

  The items of a generation have consecutive handles from its
  base on. Starting the next generation drops all items and
  moves the base past every handle issued so far, so a handle
  of an earlier generation is never live again.

  Key definitions include:
    * `Generation`
    * `Generation.next`
    * `Generation.get?`
    * `Generation.find?`
    * `Generation.push`
    * `Generation.modify`
    * `Generation.restart`
-/

namespace Lowering

/- The live items and the handle of the first of them. -/
structure Generation (α : Type) where
  base : Nat
  items : Array α := #[]
  deriving DecidableEq, Inhabited, Repr

namespace Generation

variable {α : Type}

------------------------------------------------------------
-- Reading
------------------------------------------------------------

/- The number of live items. -/
def size (generation : Generation α) : Nat :=
  generation.items.size

/- The handle that the next item will get. -/
def next (generation : Generation α) : Nat :=
  generation.base + generation.items.size

/- The live item at a handle. -/
def get?
    (generation : Generation α)
    (handle : Nat) : Option α :=
  if handle < generation.base then
    none
  else
    generation.items[handle - generation.base]?

/- The least handle of a live item with a property. -/
def find?
    (generation : Generation α)
    (property : α → Bool) : Option Nat :=
  (generation.items.findIdx? property).map
    (generation.base + ·)

------------------------------------------------------------
-- Changing
------------------------------------------------------------

/- Append an item. -/
def push
    (generation : Generation α)
    (item : α) : Generation α :=
  ⟨generation.base, generation.items.push item⟩

/- Change the item at a handle; a dead handle has none. -/
def modify
    (generation : Generation α)
    (handle : Nat)
    (change : α → α) : Generation α :=
  if handle < generation.base then
    generation
  else
    ⟨generation.base,
      generation.items.modify (handle - generation.base) change⟩

/- Drop every item and go on past their handles. -/
def restart (generation : Generation α) : Generation α :=
  ⟨generation.next, #[]⟩

end Generation

end Lowering
