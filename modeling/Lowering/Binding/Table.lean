import Lowering.Binding.Host

/-
  This file defines the binding table, the append-only list of
  everything the host analyzer has reported.

  Every table begins with the same nine bindings, the eight
  value primitives and `void`, so that all tables agree on
  their handles. They are part of the type: a table stores
  only what was added behind them.

  Key definitions include:
    * `BindingTable`
    * `BindingTable.get?`
    * `BindingTable.add`
    * `BindingTable.findArrayOf?`
    * `BindingTable.arrayOf`
    * `BindingTable.primitive`
    * `BindingTable.void`
-/

namespace Lowering

/- The host bindings, less the nine that every table has. -/
structure BindingTable where
  added : Array HostBinding := #[]
  deriving DecidableEq, Inhabited, Repr

namespace BindingTable

------------------------------------------------------------
-- Fixed Bindings
------------------------------------------------------------

/- The bindings at the front of every table. -/
def fixed : List HostBinding :=
  PrimitiveKind.all.map (.type ∘ TypeBinding.primitive) ++
    [.type TypeBinding.void]

/- The binding of a value primitive. -/
def primitive (kind : PrimitiveKind) : BindingId :=
  ⟨kind.index⟩

/- The binding of `void`. -/
def void : BindingId := ⟨8⟩

------------------------------------------------------------
-- Reading
------------------------------------------------------------

/- The number of bindings in the table. -/
def size (table : BindingTable) : Nat :=
  fixed.length + table.added.size

/- The binding at a handle, if the table has one there. -/
def get?
    (table : BindingTable)
    (id : BindingId) : Option HostBinding :=
  if id.raw < fixed.length then
    fixed[id.raw]?
  else
    table.added[id.raw - fixed.length]?

/- Whether a binding is an array over a component. -/
def isArrayOver
    (component : BindingId) : HostBinding → Bool
  | .type binding =>
    binding.flags.isArray && binding.component = some component
  | _ => false

/-
  The first array over a component. None of the fixed
  bindings is an array, so only added ones are searched.
-/
def findArrayOf?
    (table : BindingTable)
    (component : BindingId) : Option BindingId :=
  (table.added.findIdx? (isArrayOver component)).map
    fun index => ⟨fixed.length + index⟩

/- The words for the binding at a handle. -/
def describe
    (table : BindingTable)
    (id : BindingId) : String :=
  match table.get? id with
  | some binding => binding.describe id
  | none => s!"dangling {id}"

------------------------------------------------------------
-- Growing
------------------------------------------------------------

/- Append a binding. -/
def add
    (table : BindingTable)
    (binding : HostBinding) : BindingId × BindingTable :=
  (⟨table.size⟩, ⟨table.added.push binding⟩)

/-
  The array over a component, appended if the table has none.
  A component that is not a type is spelled with a question
  mark.
-/
def arrayOf
    (table : BindingTable)
    (component : BindingId) : BindingId × BindingTable :=
  match table.findArrayOf? component with
  | some array => (array, table)
  | none =>
    let (name, binaryName) :=
      match table.get? component with
      | some (.type binding) => (binding.name, binding.binaryName)
      | _ => ("?", "?")
    table.add (.type (.arrayOf component name binaryName))

end BindingTable

end Lowering
