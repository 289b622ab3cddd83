import Lowering.Proofs.Cache.Steps
import Lowering.Proofs.Cache.Traced

/-
  This file proves that the binding behind a type only becomes
  more definite. As the table grows, a shape of array finds the
  array of the host, and a pointer to it finds what it points
  to; what was found once stays.

  An array that is reported twice has two bindings. The first
  one is found, and is found for ever.

  Key definitions include:
    * `Binding.Refines`
    * `Binding.isBound`

  Main results:
    * `Binding.Refines.eq_of_isBound`
    * `BindingTable.findArrayOf?_add`
    * `Cache.typeBindingOfType_later`
    * `Cache.type_bindings_only_resolve`
-/

namespace Lowering

------------------------------------------------------------
-- Bindings That Are More Definite
------------------------------------------------------------

namespace Binding

/-
  A binding that is the same, but for a pointer to what was not
  bound at its core, which may point to something.
-/
inductive Refines : Binding → Binding → Prop
  | same (binding : Binding) : Refines binding binding
  | bound (pointee : Binding) :
      Refines .pointerToUnbound (.pointer pointee)
  | pointer
      {first second : Binding}
      (pointee : Refines first second) :
      Refines (.pointer first) (.pointer second)

/- Whether all that a binding points to is bound. -/
def isBound : Binding → Bool
  | pointer pointee => pointee.isBound
  | pointerToUnbound => false
  | _ => true

/- What is bound is as definite as can be. -/
theorem Refines.eq_of_isBound
    {first second : Binding}
    (hRefines : first.Refines second)
    (hBound : first.isBound = true) :
    second = first := by
  induction hRefines with
  | same binding => rfl
  | bound pointee => cases hBound
  | pointer _ ih => rw [ih hBound]

/- A binding of the host is bound. -/
theorem Refines.eq_host
    {id : BindingId}
    {second : Binding}
    (hRefines : (Binding.host id).Refines second) :
    second = .host id :=
  hRefines.eq_of_isBound rfl

end Binding

------------------------------------------------------------
-- Arrays Of A Growing Table
------------------------------------------------------------

namespace BindingTable

variable {table : BindingTable}
variable {component array : BindingId}

/- An array that is found is found before any that is added. -/
theorem findArrayOf?_add
    (hFound : table.findArrayOf? component = some array)
    (binding : HostBinding) :
    (table.add binding).2.findArrayOf? component =
      some array := by
  unfold findArrayOf? at hFound ⊢
  rcases Option.map_eq_some_iff.mp hFound with
    ⟨index, hIndex, rfl⟩
  unfold add
  simp only [Array.findIdx?_push, hIndex, Option.some_or,
    Option.map_some]

/- An array that is found is given, and nothing is added. -/
theorem arrayOf_of_findArrayOf?
    (hFound : table.findArrayOf? component = some array) :
    table.arrayOf component = (array, table) := by
  unfold arrayOf
  rw [hFound]

/- Where there is an array there is a first one. -/
theorem exists_findArrayOf?
    (hSome : ∃ other, table.ArrayOver component other) :
    ∃ array, table.findArrayOf? component = some array := by
  cases hFound : table.findArrayOf? component with
  | some array => exact ⟨array, rfl⟩
  | none =>
      rcases hSome with ⟨other, hOther⟩
      exact absurd hOther
        (findArrayOf?_eq_none_iff.mp hFound other)

end BindingTable

namespace Cache

variable {table table' : BindingTable}
variable {cache after : Cache}

/- The array that is found stays the same as the table grows. -/
theorem Later.findArrayOf?
    {before after : BindingTable × Cache}
    (hLater : Later before after)
    {component array : BindingId}
    (hFound : before.1.findArrayOf? component = some array) :
    after.1.findArrayOf? component = some array :=
  hLater.keeps
    (fun table _ => table.findArrayOf? component = some array)
    (fun _ _ _ hArray => hArray)
    (fun _ _ binding hArray =>
      BindingTable.findArrayOf?_add hArray binding) hFound

/- Asking for an array adds a binding or nothing. -/
theorem later_arrayOf
    (table : BindingTable)
    (cache : Cache)
    (component : BindingId) :
    Later (table, cache) ((table.arrayOf component).2, cache) := by
  cases hFound : table.findArrayOf? component with
  | some array =>
      rw [BindingTable.arrayOf_of_findArrayOf? hFound]
      exact .same _ _
  | none =>
      unfold BindingTable.arrayOf
      rw [hFound]
      exact .add _ (.same _ _)

------------------------------------------------------------
-- Types In A Growing Table
------------------------------------------------------------

section Growth

variable {target target' : Option Binding}

/- One answer is more definite than another, if that is one. -/
private def Sharpens
    (table table' : BindingTable)
    (found found' : Option Binding) : Prop :=
  ∀ binding,
    found.filter (standsForType table) = some binding →
      ∃ binding',
        found'.filter (standsForType table') = some binding' ∧
          binding.Refines binding'

/- What is found in a table is found in one that has grown. -/
private structure Extends
    (table table' : BindingTable) : Prop where
  get : ∀ id host,
    table.get? id = some host → table'.get? id = some host
  array : ∀ component array,
    table.findArrayOf? component = some array →
      table'.findArrayOf? component = some array

private theorem Later.extends
    {before after : BindingTable × Cache}
    (hLater : Later before after) :
    Extends before.1 after.1 where
  get _ _ := hLater.get?
  array _ _ := hLater.findArrayOf?

/- A binding of a type stays one as the table grows. -/
private theorem sharpens_same
    (hTable : Extends table table')
    (found : Option Binding) :
    Sharpens table table' found found := by
  intro binding hFound
  rcases Option.filter_eq_some_iff.mp hFound with
    ⟨rfl, hStands⟩
  refine ⟨binding, Option.filter_eq_some_iff.mpr ⟨rfl, ?_⟩,
    .same binding⟩
  cases binding with
  | host id =>
      rcases standsForType_host_iff.mp hStands with
        ⟨bound, hGet⟩
      exact standsForType_host_iff.mpr
        ⟨bound, hTable.get id _ hGet⟩
  | _ => exact hStands

/- A pointer is as definite as what it points to. -/
private theorem sharpens_pointerBinding
    (hTarget : Sharpens table table' target target') :
    Sharpens table table'
      (some (pointerBinding table target))
      (some (pointerBinding table' target')) := by
  intro binding hFound
  cases (Option.filter_eq_some_iff.mp hFound).1
  refine ⟨pointerBinding table' target', ?_, ?_⟩
  · apply Option.filter_eq_some_iff.mpr ⟨rfl, ?_⟩
    unfold pointerBinding
    split <;> rfl
  · unfold pointerBinding
    cases hOld : target.filter (standsForType table) with
    | some pointee =>
        rcases hTarget pointee hOld with
          ⟨pointee', hNew, hRefines⟩
        rw [hNew]
        exact .pointer hRefines
    | none =>
        cases target'.filter (standsForType table') with
        | some pointee => exact .bound pointee
        | none => exact .same _

/- The array of the host stays the one that was found. -/
private theorem sharpens_arrayBinding
    (hTable : Extends table table')
    (hTarget : Sharpens table table' target target') :
    Sharpens table table' (arrayBinding table target)
      (arrayBinding table' target') := by
  intro binding hFound
  rcases sharpens_same hTable _ binding hFound with
    ⟨binding', hStill, hRefines⟩
  refine ⟨binding', ?_, hRefines⟩
  have hArray := (Option.filter_eq_some_iff.mp hFound).1
  unfold arrayBinding at hArray
  split at hArray
  · next id hOld =>
    rcases Option.map_eq_some_iff.mp hArray with
      ⟨array, hFirst, rfl⟩
    rcases hTarget (.host id) hOld with ⟨other, hNew, hSame⟩
    cases hSame.eq_host
    have hAgain : arrayBinding table' target' =
        arrayBinding table target := by
      unfold arrayBinding
      simp only [hNew, hOld, hFirst,
        hTable.array id array hFirst]
    rw [hAgain]
    exact hStill
  · cases hArray

/-
  What stands behind a type over a table that has grown is more
  definite than what stood there.
-/
private theorem Traced.sharpens
    (hTable : Extends table table')
    {ty : TypeId}
    {found : Option Binding}
    (hTraced : Traced table cache ty found) :
    ∃ found', Traced table' cache ty found' ∧
      Sharpens table table' found found' := by
  have hSame := sharpens_same hTable
  induction hTraced with
  | scalar hType => exact ⟨_, .scalar hType, hSame _⟩
  | pointer hType _ ih =>
      rcases ih with ⟨target', hTarget, hSharpens⟩
      exact ⟨_, .pointer hType hTarget,
        sharpens_pointerBinding hSharpens⟩
  | host hType hScalar hPointer =>
      exact ⟨_, .host hType hScalar hPointer, hSame _⟩
  | method hType hOwner =>
      exact ⟨_, .method hType hOwner, hSame _⟩
  | «class» hType hScalar hPointer hMethod hOwner =>
      exact ⟨_, .class hType hScalar hPointer hMethod hOwner,
        hSame _⟩
  | void hType => exact ⟨_, .void hType, hSame _⟩
  | array hType _ ih =>
      rcases ih with ⟨target', hTarget, hSharpens⟩
      exact ⟨_, .array hType hTarget,
        sharpens_arrayBinding hTable hSharpens⟩
  | unbound hType hScalar hPointer hArray hSome =>
      exact ⟨_, .unbound hType hScalar hPointer hArray hSome,
        hSame _⟩

end Growth

------------------------------------------------------------
-- Bindings Of Types
------------------------------------------------------------

/- The binding of a type is what stands behind it, if of one. -/
private theorem typeBindingOfType_eq_ok_iff
    {ty : TypeId}
    {answer : Option Binding} :
    cache.typeBindingOfType table ty = .ok answer ↔
      ∃ found, Traced table cache ty found ∧
        found.filter (standsForType table) = answer := by
  unfold typeBindingOfType
  constructor
  · intro hRun
    rcases bind_eq_ok hRun with ⟨found, hFound, hPure⟩
    cases hPure
    exact ⟨found, bindingOfType_eq_ok_iff.mp hFound, rfl⟩
  · rintro ⟨found, hTraced, rfl⟩
    rw [bind_ok hTraced.bindingOfType]
    rfl

/- An answer that was given is given later, more definite. -/
theorem typeBindingOfType_later
    {before after : BindingTable × Cache}
    (hLater : Later before after)
    {ty : TypeId}
    {binding : Binding}
    (hFound : before.2.typeBindingOfType before.1 ty =
      .ok (some binding)) :
    ∃ binding',
      after.2.typeBindingOfType after.1 ty =
          .ok (some binding') ∧
        binding.Refines binding' := by
  rcases typeBindingOfType_eq_ok_iff.mp hFound with
    ⟨found, hTraced, hBinding⟩
  rcases (hTraced.mono hLater.grown).sharpens hLater.extends with
    ⟨found', hTraced', hSharpens⟩
  rcases hSharpens binding hBinding with
    ⟨binding', hBinding', hRefines⟩
  exact ⟨binding', typeBindingOfType_eq_ok_iff.mpr
    ⟨found', hTraced', hBinding'⟩, hRefines⟩

/- A shape of array is bound as the array of its component. -/
theorem typeBindingOfType_array
    {array component : TypeId}
    {id : BindingId}
    (hType : cache.typeData array =
      .ok ⟨.array component, .synthetic⟩)
    (hComponent : cache.typeBindingOfType table component =
      .ok (some (.host id))) :
    cache.typeBindingOfType table array =
      .ok ((table.findArrayOf? id).map .host) := by
  rcases typeBindingOfType_eq_ok_iff.mp hComponent with
    ⟨found, hTraced, hBinding⟩
  apply typeBindingOfType_eq_ok_iff.mpr
  refine ⟨_, .array (typeData_eq_ok_iff.mp hType) hTraced, ?_⟩
  unfold arrayBinding
  rw [hBinding]
  simp only []
  cases hFirst : table.findArrayOf? id with
  | none => rfl
  | some found =>
      rcases (BindingTable.findArrayOf?_eq_some_iff.mp
        hFirst).isArray with ⟨binding, hGet, _⟩
      exact filter_host hGet

/-
  Whatever is done to the cache but a reset, and whatever the
  table gets besides: a type that stood for a binding stands
  for it later, but for a pointer to what was not bound, which
  may point to something by then. A shape of array whose
  component stands for a binding of the host stands for nothing
  as long as the table has no array over that binding, and for
  the first one from then on. That one is found and given for
  ever, and giving it adds nothing. Giving an array is itself
  one of the things that may be done.
-/
theorem type_bindings_only_resolve
    {before after : BindingTable × Cache}
    (hLater : Later before after) :
    (∀ ty binding,
      before.2.typeBindingOfType before.1 ty =
          .ok (some binding) →
        ∃ binding',
          after.2.typeBindingOfType after.1 ty =
              .ok (some binding') ∧
            binding.Refines binding' ∧
            (binding.isBound = true → binding' = binding)) ∧
    (∀ array component id,
      before.2.typeData array =
          .ok ⟨.array component, .synthetic⟩ →
        before.2.typeBindingOfType before.1 component =
            .ok (some (.host id)) →
          ((∀ other, ¬ after.1.ArrayOver id other) →
            after.2.typeBindingOfType after.1 array =
              .ok none) ∧
          ((∃ other, after.1.ArrayOver id other) →
            ∃ found, after.1.FirstArrayOver id found ∧
              ∀ last, Later after last →
                last.2.typeBindingOfType last.1 array =
                    .ok (some (.host found)) ∧
                  last.1.findArrayOf? id = some found ∧
                  last.1.arrayOf id = (found, last.1))) ∧
    ∀ id, Later after ((after.1.arrayOf id).2, after.2) := by
  refine ⟨?_, ?_, fun id => later_arrayOf _ _ id⟩
  · intro ty binding hFound
    rcases typeBindingOfType_later hLater hFound with
      ⟨binding', hFound', hRefines⟩
    exact ⟨binding', hFound', hRefines, hRefines.eq_of_isBound⟩
  · intro array component id hType hComponent
    have hArray : ∀ last, Later before last →
        last.2.typeBindingOfType last.1 array =
          .ok ((last.1.findArrayOf? id).map .host) := by
      intro last hLast
      have hStill := typeData_eq_ok_iff.mpr (hLast.grown.type?
        (typeData_eq_ok_iff.mp hType))
      rcases typeBindingOfType_later hLast hComponent with
        ⟨binding, hBinding, hRefines⟩
      rw [hRefines.eq_host] at hBinding
      exact typeBindingOfType_array hStill hBinding
    constructor
    · intro hNone
      rw [hArray after hLater,
        BindingTable.findArrayOf?_eq_none_iff.mpr hNone]
      rfl
    · intro hSome
      rcases BindingTable.exists_findArrayOf? hSome with
        ⟨found, hFound⟩
      refine ⟨found,
        BindingTable.findArrayOf?_eq_some_iff.mp hFound, ?_⟩
      intro last hLast
      have hStill := hLast.findArrayOf? hFound
      refine ⟨?_, hStill,
        BindingTable.arrayOf_of_findArrayOf? hStill⟩
      rw [hArray last (hLater.trans hLast), hStill]
      rfl

/- A table with a class. -/
def classTable : BindingTable :=
  ⟨#[.type { name := "A", binaryName := "LA;" }]⟩

/- A shape of array over the class, and a pointer to it. -/
def shapedArray : Cache :=
  performAll classTable
    [.wrapType (.host ⟨9⟩), .syntheticArrayType ⟨2⟩,
      .pointerType ⟨3⟩] {}

/- The array of the host, which was asked for twice. -/
def givenTwice : BindingTable :=
  ((classTable.arrayOf ⟨9⟩).2.arrayOf ⟨9⟩).2

/- When the host has the array, the pointer points to it. -/
theorem type_bindings_only_resolve_pointer :
    shapedArray.typeBindingOfType classTable ⟨4⟩ =
        .ok (some .pointerToUnbound) ∧
      (∃ binding,
        shapedArray.typeBindingOfType givenTwice ⟨4⟩ =
            .ok (some binding) ∧
          Binding.pointerToUnbound.Refines binding) ∧
      shapedArray.typeBindingOfType givenTwice ⟨3⟩ =
        .ok (some (.host ⟨10⟩)) ∧
      givenTwice.arrayOf ⟨9⟩ = (⟨10⟩, givenTwice) := by
  have hLater : Later (classTable, shapedArray)
      (givenTwice, shapedArray) :=
    (later_arrayOf _ _ ⟨9⟩).trans (later_arrayOf _ _ ⟨9⟩)
  have hClass : shapedArray.type? ⟨2⟩ =
      some ⟨.declared ⟨1⟩, .host ⟨9⟩⟩ := by
    decide +kernel
  have hShape : shapedArray.type? ⟨3⟩ =
      some ⟨.array ⟨2⟩, .synthetic⟩ := by
    decide +kernel
  have hPointer : shapedArray.type? ⟨4⟩ =
      some ⟨.pointer ⟨3⟩, .synthetic⟩ := by
    decide +kernel
  have hTraced : Traced classTable shapedArray ⟨2⟩
      (some (.host ⟨9⟩)) :=
    .host hClass (by simp) (by simp)
  have hComponent :
      shapedArray.typeBindingOfType classTable ⟨2⟩ =
        .ok (some (.host ⟨9⟩)) :=
    typeBindingOfType_eq_ok_iff.mpr
      ⟨_, hTraced, by decide +kernel⟩
  have hBefore : shapedArray.typeBindingOfType classTable ⟨4⟩ =
      .ok (some .pointerToUnbound) :=
    typeBindingOfType_eq_ok_iff.mpr
      ⟨_, .pointer hPointer (.array hShape hTraced),
        by decide +kernel⟩
  rcases type_bindings_only_resolve hLater with
    ⟨hTypes, hArrays, _⟩
  rcases hArrays ⟨3⟩ ⟨2⟩ ⟨9⟩
    (typeData_eq_ok_iff.mpr hShape) hComponent with ⟨_, hHas⟩
  have hFirst : givenTwice.findArrayOf? ⟨9⟩ = some ⟨10⟩ := by
    decide +kernel
  rcases hHas ⟨⟨10⟩, (BindingTable.findArrayOf?_eq_some_iff.mp
    hFirst).isArray⟩ with ⟨found, _, hLast⟩
  rcases hLast _ (.same _ _) with ⟨hArray, hFound, hGiven⟩
  cases hFirst.symm.trans hFound
  rcases hTypes _ _ hBefore with
    ⟨binding, hBinding, hRefines, _⟩
  exact ⟨hBefore, ⟨binding, hBinding, hRefines⟩, hArray, hGiven⟩

end Cache

end Lowering
