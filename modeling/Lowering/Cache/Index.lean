import Lowering.Cache.Generation

/-
  This file defines indexes, the maps that lead from what a
  wrapper wraps to the handle of the wrapper.

  An index is kept beside a generation: an item that is pushed
  is entered under its key, and starting the next generation
  clears the index. Of two entries for one key the older one
  counts, so an index answers with the least handle of a live
  item that has the key.

  Key definitions include:
    * `Index`
    * `Index.get?`
    * `Index.enter`
    * `Index.Lists`
-/

namespace Lowering

/- Handles by their keys, with the oldest first. -/
structure Index (κ η : Type) where
  entries : List (κ × η) := []
  deriving DecidableEq, Inhabited, Repr

namespace Index

variable {α κ η : Type} [DecidableEq κ]

/- The handle of a key. -/
def get?
    (index : Index κ η)
    (key : κ) : Option η :=
  index.entries.lookup key

/- Enter a handle under its key; an item may have none. -/
def enter
    (index : Index κ η)
    (key : Option κ)
    (handle : η) : Index κ η :=
  ⟨index.entries ++ key.toList.map (·, handle)⟩

/- An index has the live items that have keys, and no others. -/
def Lists
    (index : Index κ η)
    (items : Generation α)
    (key : α → Option κ)
    (handle : Nat → η) : Prop :=
  ∀ wanted, index.get? wanted =
    (items.find? (key · = some wanted)).map handle

variable {index : Index κ η}
variable {items : Generation α}
variable {key : α → Option κ}
variable {handle : Nat → η}

/- Without items there are no entries. -/
theorem lists_empty
    (base : Nat)
    (key : α → Option κ)
    (handle : Nat → η) :
    Lists ({} : Index κ η) ⟨base, #[]⟩ key handle := by
  intro wanted
  simp [get?, Generation.find?]

/- What is pushed is entered. -/
theorem Lists.push
    (hLists : index.Lists items key handle)
    (item : α) :
    (index.enter (key item) (handle items.next)).Lists
      (items.push item) key handle := by
  intro wanted
  have hFind : (items.push item).find? (key · = some wanted) =
      (items.find? (key · = some wanted)).or
        (if key item = some wanted then
          some items.next
        else
          none) := by
    unfold Generation.find? Generation.push Generation.next
    rw [Array.findIdx?_push, Option.map_or]
    congr 1
    by_cases hKey : key item = some wanted <;> simp [hKey]
  rw [hFind, Option.map_or, ← hLists wanted]
  unfold get? enter
  rw [List.lookup_append]
  congr 1
  cases hKey : key item with
  | none => rfl
  | some found =>
      by_cases hSame : wanted = found
      · simp [hSame]
      · simp [List.lookup_cons, beq_eq_false_iff_ne.mpr hSame,
          Ne.symm hSame]

/- A change that keeps the keys keeps the entries. -/
theorem Lists.modify
    (hLists : index.Lists items key handle)
    {change : α → α}
    (hKeeps : ∀ item, key (change item) = key item)
    (place : Nat) :
    index.Lists (items.modify place change) key handle := by
  intro wanted
  rw [hLists wanted]
  unfold Generation.find? Generation.modify
  split
  · rfl
  · have hKeys :
        (items.items.modify (place - items.base) change).map key =
          items.items.map key := by
      apply Array.ext
      · simp
      · intro i _ _
        simp [Array.getElem_modify, apply_ite key, hKeeps]
    have hFind : ∀ stored : Array α,
        stored.findIdx? (key · = some wanted) =
          (stored.map key).findIdx? (· = some wanted) := by
      intro stored
      rw [Array.findIdx?_map]
      rfl
    rw [hFind, hFind, hKeys]

end Index

end Lowering
