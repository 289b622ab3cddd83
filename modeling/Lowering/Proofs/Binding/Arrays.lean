import Lowering.Binding.Table

/-
  This file proves what the search for an array binding finds:
  the first binding of the table that is an array over the
  component.

  Key definitions include:
    * `BindingTable.ArrayOver`
    * `BindingTable.FirstArrayOver`

  Main results:
    * `BindingTable.findArrayOf?_eq_some_iff`
    * `BindingTable.findArrayOf?_eq_none_iff`
-/

namespace Lowering

namespace BindingTable

variable {table : BindingTable}

/- A binding of the table is an array over a component. -/
def ArrayOver
    (table : BindingTable)
    (component array : BindingId) : Prop :=
  ∃ binding,
    table.get? array = some (.type binding) ∧
      binding.flags.isArray = true ∧
      binding.component = some component

/- No array over the component stands before this one. -/
structure FirstArrayOver
    (table : BindingTable)
    (component array : BindingId) : Prop where
  isArray : table.ArrayOver component array
  first : ∀ other, table.ArrayOver component other →
    array.raw ≤ other.raw

private theorem isArrayOver_iff
    {component : BindingId}
    {host : HostBinding} :
    isArrayOver component host = true ↔
      ∃ binding, host = .type binding ∧
        binding.flags.isArray = true ∧
        binding.component = some component := by
  cases host with
  | type binding => simp [isArrayOver]
  | _ => simp [isArrayOver]

private theorem isArrayOver_fixed
    (component : BindingId)
    {host : HostBinding}
    (hFixed : host ∈ fixed) :
    isArrayOver component host = false := by
  have hNone : ∀ binding : TypeBinding,
      binding.flags.isArray = false →
        isArrayOver component (.type binding) = false := by
    intro binding hFlag
    simp [isArrayOver, hFlag]
  unfold fixed at hFixed
  rcases List.mem_append.mp hFixed with hPrimitive | hVoid
  · rcases List.mem_map.mp hPrimitive with ⟨kind, _, rfl⟩
    exact hNone _ rfl
  · rw [List.mem_singleton.mp hVoid]
    exact hNone _ rfl

/- An array is one of the bindings that were added. -/
private theorem arrayOver_iff
    {component array : BindingId} :
    table.ArrayOver component array ↔
      ∃ index host,
        array = ⟨fixed.length + index⟩ ∧
          table.added[index]? = some host ∧
          isArrayOver component host = true := by
  constructor
  · rintro ⟨binding, hGet, hArray⟩
    have hOver : isArrayOver component (.type binding) = true :=
      isArrayOver_iff.mpr ⟨binding, rfl, hArray⟩
    unfold get? at hGet
    split at hGet
    · have hFixed := isArrayOver_fixed component
        (List.mem_of_getElem? hGet)
      rw [hFixed] at hOver
      cases hOver
    · next hAdded =>
      refine ⟨array.raw - fixed.length, _, ?_, hGet, hOver⟩
      rw [Nat.add_sub_of_le (Nat.le_of_not_lt hAdded)]
  · rintro ⟨index, host, rfl, hAdded, hOver⟩
    rcases isArrayOver_iff.mp hOver with ⟨binding, rfl, hArray⟩
    refine ⟨binding, ?_, hArray⟩
    unfold get?
    rw [if_neg (by simp), Nat.add_sub_cancel_left]
    exact hAdded

/- What is found is the first array over the component. -/
theorem findArrayOf?_eq_some_iff
    {component array : BindingId} :
    table.findArrayOf? component = some array ↔
      table.FirstArrayOver component array := by
  unfold findArrayOf?
  rw [Option.map_eq_some_iff]
  constructor
  · rintro ⟨index, hIndex, rfl⟩
    rcases Array.findIdx?_eq_some_iff_getElem.mp hIndex with
      ⟨hBound, hOver, hLess⟩
    constructor
    · exact arrayOver_iff.mpr ⟨index, _, rfl,
        Array.getElem?_eq_getElem hBound, hOver⟩
    · intro other hOther
      rcases arrayOver_iff.mp hOther with
        ⟨index', host, rfl, hAdded, hOver'⟩
      rcases Array.getElem?_eq_some_iff.mp hAdded with
        ⟨hBound', rfl⟩
      apply Nat.add_le_add_left
      apply Nat.le_of_not_lt
      intro hBefore
      exact hLess index' hBefore hOver'
  · rintro ⟨hArray, hFirst⟩
    rcases arrayOver_iff.mp hArray with
      ⟨index, host, rfl, hAdded, hOver⟩
    rcases Array.getElem?_eq_some_iff.mp hAdded with
      ⟨hBound, rfl⟩
    refine ⟨index, ?_, rfl⟩
    apply Array.findIdx?_eq_some_iff_getElem.mpr
    refine ⟨hBound, hOver, ?_⟩
    intro other hLess hOther
    have hBefore := hFirst ⟨fixed.length + other⟩
      (arrayOver_iff.mpr ⟨other, _, rfl,
        Array.getElem?_eq_getElem (by omega), hOther⟩)
    simp only at hBefore
    omega

/- Nothing is found only if there is no such array. -/
theorem findArrayOf?_eq_none_iff
    {component : BindingId} :
    table.findArrayOf? component = none ↔
      ∀ array, ¬ table.ArrayOver component array := by
  constructor
  · intro hNone array hArray
    rcases arrayOver_iff.mp hArray with
      ⟨index, host, _, hAdded, hOver⟩
    unfold findArrayOf? at hNone
    rw [Option.map_eq_none_iff,
      Array.findIdx?_eq_none_iff] at hNone
    rw [hNone _ (Array.mem_of_getElem? hAdded)] at hOver
    cases hOver
  · intro hNone
    cases hFound : table.findArrayOf? component with
    | none => rfl
    | some array =>
        exact absurd (findArrayOf?_eq_some_iff.mp hFound).isArray
          (hNone array)

end BindingTable

end Lowering
