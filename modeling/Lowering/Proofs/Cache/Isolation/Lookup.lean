import Lowering.Proofs.Cache.Isolation.Twins

/-
  This file proves that twins answer alike when they are
  looked up in: a handle is live in both or in neither, and
  what is sought by its data is found in both or in neither,
  at the same handle.

  What is sought is told from other data by comparing it, so
  the same data has to be equal to the same. For names this
  takes that no text has two of them.

  Main results:
    * `Cache.Twins.SameKind.eq_iff`
    * `Cache.Twins.Parallel.type?`
    * `Cache.Twins.Parallel.element?`
    * `Cache.Twins.Parallel.findType?`
    * `Cache.Twins.Parallel.findElement?`
    * `Cache.Twins.Parallel.lookup`
-/

namespace Lowering

namespace Cache

namespace Twins

variable {twins : Twins}

------------------------------------------------------------
-- Equal Data
------------------------------------------------------------

theorem SameName.eq_iff
    (hParallel : twins.Parallel)
    {name name' other other' : Name}
    (hFirst : twins.SameName name name')
    (hSecond : twins.SameName other other') :
    name = other ↔ name' = other' := by
  rcases hFirst with ⟨text, hText, hText'⟩
  rcases hSecond with ⟨found, hFound, hFound'⟩
  constructor
  · rintro rfl
    cases hText.symm.trans hFound
    exact hParallel.freshNames _ _ _ hText' hFound'
  · rintro rfl
    cases hText'.symm.trans hFound'
    exact hParallel.usedNames _ _ _ hText hFound

theorem SameType.eq_iff
    {ty ty' other other' : TypeId}
    (hFirst : twins.SameType ty ty')
    (hSecond : twins.SameType other other') :
    ty = other ↔ ty' = other' := by
  rw [hFirst.1, hSecond.1, Offset.type_eq_iff]

theorem SameElement.eq_iff
    {id id' other other' : ElementId}
    (hFirst : twins.SameElement id id')
    (hSecond : twins.SameElement other other') :
    id = other ↔ id' = other' := by
  unfold SameElement at hFirst hSecond
  rw [hFirst, hSecond, Offset.element_eq_iff]

private theorem sameTypes_eq_iff
    {types types' others others' : List TypeId}
    (hFirst : List.Forall₂ twins.SameType types types')
    (hSecond : List.Forall₂ twins.SameType others others') :
    types = others ↔ types' = others' := by
  have hUnique : Relator.BiUnique twins.SameType :=
    ⟨fun _ _ _ hLeft hRight => (hLeft.eq_iff hRight).mpr rfl,
      fun _ _ _ hLeft hRight => (hLeft.eq_iff hRight).mp rfl⟩
  exact Relator.rel_eq hUnique.forall₂ hFirst hSecond

private theorem sameBound_eq_iff
    {bound bound' other other' : Option TypeId}
    (hFirst : Option.Rel twins.SameType bound bound')
    (hSecond : Option.Rel twins.SameType other other') :
    bound = other ↔ bound' = other' := by
  cases hFirst with
  | none => cases hSecond <;> simp
  | some hType =>
      cases hSecond with
      | none => simp
      | some hOther => simp [hType.eq_iff hOther]

/- Kinds are equal if the same kinds are. -/
theorem SameKind.eq_iff
    (hParallel : twins.Parallel)
    {kind kind' other other' : TypeKind}
    (hFirst : twins.SameKind kind kind')
    (hSecond : twins.SameKind other other') :
    kind = other ↔ kind' = other' := by
  cases hFirst with
  | array hComponent =>
      cases hSecond with
      | array hOther => simp [hComponent.eq_iff hOther]
      | _ => simp
  | declared hName =>
      cases hSecond with
      | declared hOther => simp [hName.eq_iff hParallel hOther]
      | _ => simp
  | primitive kind =>
      cases hSecond with
      | primitive other => simp
      | _ => simp
  | typeVariable hName =>
      cases hSecond with
      | typeVariable hOther =>
          simp [hName.eq_iff hParallel hOther]
      | _ => simp
  | wildcard hBound =>
      cases hSecond with
      | wildcard hOther => simp [sameBound_eq_iff hBound hOther]
      | _ => simp
  | intersection hBounds =>
      cases hSecond with
      | intersection hOthers =>
          simp [sameTypes_eq_iff hBounds hOthers]
      | _ => simp
  | executable hParams hReturn =>
      cases hSecond with
      | executable hOthers hOther =>
          simp [sameTypes_eq_iff hParams hOthers,
            hReturn.eq_iff hOther]
      | _ => simp
  | native hName =>
      cases hSecond with
      | native hOther => simp [hName.eq_iff hParallel hOther]
      | _ => simp
  | pointer hPointee =>
      cases hSecond with
      | pointer hOther => simp [hPointee.eq_iff hOther]
      | _ => simp
  | noType => cases hSecond <;> simp
  | nullType => cases hSecond <;> simp

theorem SameOrigin.eq_iff
    {origin origin' other other' : TypeOrigin}
    (hFirst : twins.SameOrigin origin origin')
    (hSecond : twins.SameOrigin other other') :
    origin = other ↔ origin' = other' := by
  cases hFirst with
  | host id => cases hSecond <;> simp
  | generated hElement =>
      cases hSecond with
      | generated hOther => simp [hElement.eq_iff hOther]
      | _ => simp
  | synthetic => cases hSecond <;> simp

theorem SameTypeData.eq_iff
    (hParallel : twins.Parallel)
    {data data' other other' : TypeData}
    (hFirst : twins.SameTypeData data data')
    (hSecond : twins.SameTypeData other other') :
    data = other ↔ data' = other' := by
  rw [TypeData.mk.injEq, TypeData.mk.injEq,
    hFirst.kind.eq_iff hParallel hSecond.kind,
    hFirst.origin.eq_iff hSecond.origin]

------------------------------------------------------------
-- Questions To Kinds
------------------------------------------------------------

namespace SameKind

variable {kind kind' : TypeKind}
variable (hSame : twins.SameKind kind kind')

include hSame

theorem isExecutable :
    kind.isExecutable = kind'.isExecutable := by
  cases hSame <;> rfl

theorem isArray : kind.isArray = kind'.isArray := by
  cases hSame <;> rfl

theorem isPrimitive : kind.isPrimitive = kind'.isPrimitive := by
  cases hSame <;> rfl

theorem primitive? : kind.primitive? = kind'.primitive? := by
  cases hSame <;> rfl

theorem component? :
    Option.Rel twins.SameType kind.component?
      kind'.component? := by
  cases hSame with
  | array hComponent => exact .some hComponent
  | _ => exact .none

end SameKind

namespace SameElementKind

variable {kind kind' : ElementKind}
variable (hSame : twins.SameElementKind kind kind')

include hSame

theorem accepts (family : ElementFamily) :
    family.accepts kind = family.accepts kind' := by
  cases hSame <;> cases family <;> rfl

theorem describe : kind.describe = kind'.describe := by
  cases hSame <;> rfl

theorem isPackage : kind = .package ↔ kind' = .package := by
  cases hSame <;> simp

end SameElementKind

------------------------------------------------------------
-- Live Handles
------------------------------------------------------------

/- The handles of live types stay below the next one. -/
theorem sameType_of_get?
    (hParallel : twins.Parallel)
    {handle : Nat}
    {data : TypeData}
    (hType : twins.fresh.types.get? handle = some data) :
    twins.SameType ⟨handle + twins.offset.types⟩ ⟨handle⟩ := by
  have hBounds := Generation.bounds_of_get? hType
  rw [hParallel.base] at hBounds
  refine ⟨?_, hBounds.2⟩
  unfold Offset.type
  rw [if_neg (Nat.not_lt.mpr hBounds.1)]

/- The same type has the same data. -/
theorem Parallel.type?
    (hParallel : twins.Parallel)
    {ty ty' : TypeId}
    (hSame : twins.SameType ty ty') :
    ∃ data data',
      twins.used.type? ty = some data ∧
        twins.fresh.type? ty' = some data' ∧
        twins.SameTypeData data data' := by
  rcases hSame with ⟨rfl, hNext⟩
  unfold Offset.type
  by_cases hFixed : ty'.raw < 2
  · rw [if_pos hFixed]
    have hCases : ty' = noType ∨ ty' = nullType := by
      rcases ty' with ⟨raw⟩
      simp only at hFixed
      rcases Nat.lt_or_ge raw 1 with hZero | hOne
      · left
        exact congrArg TypeId.mk (by omega)
      · right
        exact congrArg TypeId.mk (by omega)
    rcases hCases with rfl | rfl
    · exact ⟨_, _, rfl, rfl, .noType, .synthetic⟩
    · exact ⟨_, _, rfl, rfl, .nullType, .synthetic⟩
  · rw [if_neg hFixed]
    have hLive : ∃ data',
        twins.fresh.types.get? ty'.raw = some data' :=
      Generation.exists_get?
        (hParallel.base ▸ Nat.not_lt.mp hFixed) hNext
    rcases hLive with ⟨data', hData'⟩
    rcases hParallel.types.of_fresh hData' with
      ⟨data, hData, hSame⟩
    have hBase := hParallel.base
    have hUsed := hParallel.types.base
    refine ⟨data, data', ?_, ?_, hSame⟩
    · exact (type?_eq_some_iff (by omega)).mpr
        (Or.inr (Or.inr hData))
    · exact (type?_eq_some_iff (by omega)).mpr
        (Or.inr (Or.inr hData'))

theorem Parallel.element?
    (hParallel : twins.Parallel)
    {id id' : ElementId}
    (hSame : twins.SameElement id id') :
    Option.Rel twins.SameElementData
      (twins.used.elements.get? id.raw)
      (twins.fresh.elements.get? id'.raw) := by
  have hRaw : id.raw = id'.raw + twins.offset.elements :=
    congrArg ElementId.raw hSame
  rw [hRaw]
  cases hFresh : twins.fresh.elements.get? id'.raw with
  | some data' =>
      rcases hParallel.elements.of_fresh hFresh with
        ⟨data, hData, hSame⟩
      rw [hData]
      exact .some hSame
  | none =>
      cases hUsed : twins.used.elements.get?
          (id'.raw + twins.offset.elements) with
      | none => exact .none
      | some data =>
          rcases hParallel.elements.of_used hUsed with
            ⟨data', hData', _⟩
          cases hFresh.symm.trans hData'

------------------------------------------------------------
-- Searching
------------------------------------------------------------

/- What is sought by the same data is found alike. -/
theorem Parallel.findType?
    (hParallel : twins.Parallel)
    {property property' : TypeData → Bool}
    (hProperty : ∀ data data', twins.SameTypeData data data' →
      property data = property' data') :
    Option.Rel twins.SameType (twins.used.findType? property)
      (twins.fresh.findType? property') := by
  unfold Cache.findType?
  rw [hParallel.types.find? hProperty]
  cases hFind : twins.fresh.types.find? property' with
  | none => exact .none
  | some handle =>
      rcases (Generation.find?_eq_some_iff.mp hFind).1 with
        ⟨data, hData, _⟩
      exact .some (sameType_of_get? hParallel hData)

theorem Parallel.findElement?
    (hParallel : twins.Parallel)
    {property property' : ElementData → Bool}
    (hProperty : ∀ data data',
      twins.SameElementData data data' →
        property data = property' data') :
    Option.Rel twins.SameElement
      (twins.used.findElement? property)
      (twins.fresh.findElement? property') := by
  unfold Cache.findElement?
  rw [hParallel.elements.find? hProperty]
  cases twins.fresh.elements.find? property' with
  | none => exact .none
  | some handle => exact .some rfl

theorem Parallel.typeOf?
    (hParallel : twins.Parallel)
    (id : BindingId) :
    Option.Rel twins.SameType (twins.used.typeOf? id)
      (twins.fresh.typeOf? id) := by
  rw [typeOf?_eq, typeOf?_eq]
  apply hParallel.findType?
  intro data data' hSame
  rw [hSame.kind.isExecutable,
    decide_eq_decide.mpr (hSame.origin.eq_iff (.host id))]

theorem Parallel.executableOf?
    (hParallel : twins.Parallel)
    (id : BindingId) :
    Option.Rel twins.SameType (twins.used.executableOf? id)
      (twins.fresh.executableOf? id) := by
  rw [executableOf?_eq, executableOf?_eq]
  apply hParallel.findType?
  intro data data' hSame
  rw [hSame.kind.isExecutable,
    decide_eq_decide.mpr (hSame.origin.eq_iff (.host id))]

/- The same type is remembered of the same method. -/
theorem Parallel.lookup
    (hParallel : twins.Parallel)
    {method method' : ElementId}
    (hMethod : twins.SameElement method method') :
    Option.Rel twins.SameType
      (twins.used.executables.lookup method)
      (twins.fresh.executables.lookup method') := by
  have hSame := hParallel.executables
  generalize twins.used.executables = memos at hSame
  generalize twins.fresh.executables = memos' at hSame
  induction hSame with
  | nil => exact .none
  | @cons memo memo' memos memos' hMemo _ ih =>
      rw [List.lookup_cons, List.lookup_cons]
      have hEqual := hMethod.eq_iff hMemo.method
      by_cases hFound : method' = memo'.1
      · rw [beq_iff_eq.mpr (hEqual.mpr hFound),
          beq_iff_eq.mpr hFound]
        exact .some hMemo.type
      · rw [beq_eq_false_iff_ne.mpr (mt hEqual.mp hFound),
          beq_eq_false_iff_ne.mpr hFound]
        exact ih

theorem Parallel.hostElement?
    (hParallel : twins.Parallel)
    (id : BindingId) :
    Option.Rel twins.SameElement (twins.used.hostElement? id)
      (twins.fresh.hostElement? id) := by
  rw [hostElement?_eq, hostElement?_eq]
  apply hParallel.findElement?
  intro data data' hSame
  rw [hSame.origin]

end Twins

end Cache

end Lowering
