import Lowering.Cache.Unwrap
import Lowering.Proofs.Cache.Coherence
import Lowering.Proofs.Cache.Refusal
import Lowering.Proofs.Binding.Arrays

/-
  This file states what stands behind a type without a depth,
  as a relation that follows what pointers point to and the
  components of synthetic arrays, and nothing else. It proves
  that the search for the binding of a type finds exactly what
  is so traced.

  What is followed to an end does not lead back to itself,
  whatever other types may do, so the depth suffices. The
  search answers if and only if all that it meets is live and
  there is an end.

  Key definitions include:
    * `Cache.Traced`
    * `Cache.Grounded`
    * `Cache.Represents`

  Main results:
    * `Cache.bindingOfType_eq_ok_iff`
    * `Cache.Traced.mono`
    * `Cache.grounded_iff`
    * `Cache.Traced.represents_iff`
-/

namespace Lowering

/- The type that is followed to find the binding of a type. -/
def TypeData.target? : TypeData → Option TypeId
  | ⟨.pointer pointee, _⟩ => some pointee
  | ⟨.array component, .synthetic⟩ => some component
  | _ => none

namespace Cache

variable {table : BindingTable}
variable {cache after : Cache}

------------------------------------------------------------
-- Tracing Types
------------------------------------------------------------

/- The binding of a pointer, by that of what it points to. -/
def pointerBinding
    (table : BindingTable)
    (target : Option Binding) : Binding :=
  match target.filter (standsForType table) with
  | some binding => .pointer binding
  | none => .pointerToUnbound

/- The binding of a shape of array, by that of its component. -/
def arrayBinding
    (table : BindingTable)
    (target : Option Binding) : Option Binding :=
  match target.filter (standsForType table) with
  | some (.host id) => (table.findArrayOf? id).map .host
  | _ => none

/-
  What stands behind a type: the spelling of a target scalar;
  what a pointer points to; a binding of the host; a generated
  method or class; `void` behind the lack of a type; the array
  of the host behind a shape of array; nothing behind other
  shapes.
-/
inductive Traced
    (table : BindingTable)
    (cache : Cache) : TypeId → Option Binding → Prop
  | scalar
      {ty : TypeId}
      {name : Name}
      {origin : TypeOrigin}
      (typed : cache.type? ty = some ⟨.native name, origin⟩) :
      Traced table cache ty (some (.nativeType name))
  | pointer
      {ty pointee : TypeId}
      {origin : TypeOrigin}
      {target : Option Binding}
      (typed : cache.type? ty = some ⟨.pointer pointee, origin⟩)
      (traced : Traced table cache pointee target) :
      Traced table cache ty
        (some (pointerBinding table target))
  | host
      {ty : TypeId}
      {kind : TypeKind}
      {id : BindingId}
      (typed : cache.type? ty = some ⟨kind, .host id⟩)
      (noScalar : ∀ name, kind ≠ .native name)
      (noPointer : ∀ pointee, kind ≠ .pointer pointee) :
      Traced table cache ty (some (.host id))
  | method
      {ty : TypeId}
      {params : List TypeId}
      {returnType : TypeId}
      {element : ElementId}
      {data : ElementData}
      (typed : cache.type? ty =
        some ⟨.executable params returnType,
          .generated element⟩)
      (owner : cache.element element = .ok data) :
      Traced table cache ty
        (some (.generated ⟨element, .method, data.name⟩))
  | class
      {ty : TypeId}
      {kind : TypeKind}
      {element : ElementId}
      {data : ElementData}
      (typed : cache.type? ty = some ⟨kind, .generated element⟩)
      (noScalar : ∀ name, kind ≠ .native name)
      (noPointer : ∀ pointee, kind ≠ .pointer pointee)
      (noMethod : ∀ params returnType,
        kind ≠ .executable params returnType)
      (owner : cache.element element = .ok data) :
      Traced table cache ty
        (some (.generated ⟨element, .type, data.name⟩))
  | void
      {ty : TypeId}
      (typed : cache.type? ty = some ⟨.noType, .synthetic⟩) :
      Traced table cache ty (some (.host BindingTable.void))
  | array
      {ty component : TypeId}
      {target : Option Binding}
      (typed : cache.type? ty =
        some ⟨.array component, .synthetic⟩)
      (traced : Traced table cache component target) :
      Traced table cache ty (arrayBinding table target)
  | unbound
      {ty : TypeId}
      {kind : TypeKind}
      (typed : cache.type? ty = some ⟨kind, .synthetic⟩)
      (noScalar : ∀ name, kind ≠ .native name)
      (noPointer : ∀ pointee, kind ≠ .pointer pointee)
      (noArray : ∀ component, kind ≠ .array component)
      (someType : kind ≠ .noType) :
      Traced table cache ty none

/- Nothing stands behind the type of `null`. -/
theorem Traced.null : Traced table cache nullType none :=
  .unbound rfl (by simp) (by simp) (by simp) (by simp)

/- A type, with the one that is followed to find its binding. -/
private def Aims
    (cache : Cache)
    (ty target : TypeId) : Prop :=
  ∃ data, cache.type? ty = some data ∧
    data.target? = some target

private theorem Aims.madeOf
    {ty target : TypeId}
    (hAims : cache.Aims ty target) :
    cache.MadeOf ty target := by
  rcases hAims with ⟨data, hType, hTarget⟩
  refine ⟨data, hType, ?_⟩
  unfold TypeData.target? at hTarget
  split at hTarget
  · cases hTarget
    exact List.mem_cons_self
  · cases hTarget
    exact List.mem_cons_self
  · cases hTarget

------------------------------------------------------------
-- Grounded Types
------------------------------------------------------------

/-
  All that is followed from a type to find its binding is
  live, and there is an end to it.
-/
inductive Grounded (cache : Cache) : TypeId → Prop
  | intro
      {ty : TypeId}
      {data : TypeData}
      (typed : cache.type? ty = some data)
      (target : ∀ target, data.target? = some target →
        Grounded cache target) :
      Grounded cache ty

private theorem Traced.grounded
    {ty : TypeId}
    {found : Option Binding}
    (hTraced : Traced table cache ty found) :
    cache.Grounded ty := by
  have hEnd : ∀ {ty : TypeId} {data : TypeData},
      cache.type? ty = some data → data.target? = none →
        cache.Grounded ty := by
    intro ty data hType hNone
    refine .intro hType ?_
    intro target hTarget
    rw [hNone] at hTarget
    cases hTarget
  have hOther : ∀ {kind : TypeKind} {origin : TypeOrigin},
      (∀ pointee, kind ≠ .pointer pointee) →
        (origin = .synthetic →
          ∀ component, kind ≠ .array component) →
          TypeData.target? ⟨kind, origin⟩ = none := by
    intro kind origin hPointer hArray
    unfold TypeData.target?
    split
    · next hData =>
      cases hData
      exact absurd rfl (hPointer _)
    · next hData =>
      cases hData
      exact absurd rfl (hArray rfl _)
    · rfl
  induction hTraced with
  | scalar hType => exact hEnd hType rfl
  | pointer hType _ ih =>
      refine .intro hType ?_
      rintro target ⟨rfl⟩
      exact ih
  | host hType _ hPointer =>
      exact hEnd hType (hOther hPointer (by simp))
  | method hType _ => exact hEnd hType rfl
  | «class» hType _ hPointer _ _ =>
      exact hEnd hType (hOther hPointer (by simp))
  | void hType => exact hEnd hType rfl
  | array hType _ ih =>
      refine .intro hType ?_
      rintro target ⟨rfl⟩
      exact ih
  | unbound hType _ hPointer hArray _ =>
      exact hEnd hType (hOther hPointer fun _ => hArray)

/- A type that is followed to an end has no way back. -/
private theorem Grounded.not_cycle
    {ty : TypeId}
    (hGrounded : cache.Grounded ty) :
    ¬ Relation.TransGen cache.Aims ty ty := by
  induction hGrounded with
  | @intro ty data hType _ ih =>
      intro hCycle
      rcases Relation.TransGen.head'_iff.mp hCycle with
        ⟨target, ⟨data', hData, hTarget⟩, hRest⟩
      cases hType.symm.trans hData
      exact ih target hTarget
        (Relation.TransGen.tail' hRest ⟨data, hType, hTarget⟩)

/- A type that is of something is not one of the fixed ones. -/
private theorem stored_of_type?
    {ty : TypeId}
    {data : TypeData}
    (hType : cache.type? ty = some data)
    (hOrigin : data.origin ≠ .synthetic) :
    cache.types.get? ty.raw = some data := by
  unfold Cache.type? at hType
  split at hType
  · cases hType
    exact absurd rfl hOrigin
  · split at hType
    · cases hType
      exact absurd rfl hOrigin
    · exact hType

/-
  Behind a type from which all is live there stands something
  or nothing, if generated elements are live as their types.
-/
private theorem Grounded.traced
    (hOwned : cache.Owned)
    {ty : TypeId}
    (hGrounded : cache.Grounded ty) :
    ∃ found, Traced table cache ty found := by
  induction hGrounded with
  | @intro ty data hType _ ih =>
      rcases data with ⟨kind, origin⟩
      by_cases hScalar : ∃ name, kind = .native name
      · rcases hScalar with ⟨name, rfl⟩
        exact ⟨_, .scalar hType⟩
      by_cases hPointer : ∃ pointee, kind = .pointer pointee
      · rcases hPointer with ⟨pointee, rfl⟩
        rcases ih pointee rfl with ⟨target, hTarget⟩
        exact ⟨_, .pointer hType hTarget⟩
      rw [not_exists] at hScalar hPointer
      cases origin with
      | host id => exact ⟨_, .host hType hScalar hPointer⟩
      | generated element =>
          rcases hOwned _ _ element (stored_of_type? hType
            (by simp)) rfl with ⟨owner, hOwner⟩
          have hOwner := element_eq_ok_iff.mpr hOwner
          by_cases hMethod : ∃ params returnType,
              kind = .executable params returnType
          · rcases hMethod with ⟨params, returnType, rfl⟩
            exact ⟨_, .method hType hOwner⟩
          · refine ⟨_, .class hType hScalar hPointer ?_ hOwner⟩
            intro params returnType hKind
            exact hMethod ⟨params, returnType, hKind⟩
      | synthetic =>
          by_cases hArray : ∃ component, kind = .array component
          · rcases hArray with ⟨component, rfl⟩
            rcases ih component rfl with ⟨target, hTarget⟩
            exact ⟨_, .array hType hTarget⟩
          by_cases hNone : kind = .noType
          · subst hNone
            exact ⟨_, .void hType⟩
          · rw [not_exists] at hArray
            exact ⟨_, .unbound hType hScalar hPointer hArray
              hNone⟩

/- What is live all along is traced, and nothing else is. -/
theorem grounded_iff
    (table : BindingTable)
    (hOwned : cache.Owned)
    {ty : TypeId} :
    cache.Grounded ty ↔
      ∃ found, Traced table cache ty found :=
  ⟨Grounded.traced hOwned,
    fun ⟨_, hTraced⟩ => hTraced.grounded⟩

------------------------------------------------------------
-- Finding What Is Traced
------------------------------------------------------------

/- What is traced is found one level deeper than its target. -/
private theorem bindingOfTypeWithin_traced
    {depth : Nat}
    {ty : TypeId}
    (hTargets : ∀ target, cache.Aims ty target →
      ∀ found, Traced table cache target found →
        cache.bindingOfTypeWithin table depth target =
          .ok found)
    {found : Option Binding}
    (hTraced : Traced table cache ty found) :
    cache.bindingOfTypeWithin table (depth + 1) ty =
      .ok found := by
  unfold bindingOfTypeWithin
  cases hTraced with
  | scalar hType =>
      rw [typeData_eq_ok_iff.mpr hType]
      rfl
  | @pointer _ _ _ target hType hTarget =>
      have hWithin := hTargets _ ⟨_, hType, rfl⟩ _ hTarget
      rw [bind_ok (typeData_eq_ok_iff.mpr hType)]
      simp only [bind_ok hWithin]
      unfold pointerBinding
      cases target.filter (standsForType table) <;> rfl
  | @host _ kind id hType hScalar hPointer =>
      rw [typeData_eq_ok_iff.mpr hType]
      cases kind with
      | native name => exact absurd rfl (hScalar name)
      | pointer pointee => exact absurd rfl (hPointer pointee)
      | _ => rfl
  | method hType hOwner =>
      rw [bind_ok (typeData_eq_ok_iff.mpr hType)]
      simp only [bind_ok hOwner]
      rfl
  | @«class» _ kind _ _ hType hScalar hPointer hMethod hOwner =>
      rw [bind_ok (typeData_eq_ok_iff.mpr hType)]
      cases kind with
      | native name => exact absurd rfl (hScalar name)
      | pointer pointee => exact absurd rfl (hPointer pointee)
      | executable params returnType =>
          exact absurd rfl (hMethod params returnType)
      | _ =>
          simp only [bind_ok hOwner]
          rfl
  | void hType =>
      rw [typeData_eq_ok_iff.mpr hType]
      rfl
  | @array _ _ target hType hTarget =>
      have hWithin := hTargets _ ⟨_, hType, rfl⟩ _ hTarget
      rw [bind_ok (typeData_eq_ok_iff.mpr hType)]
      simp only [bind_ok hWithin]
      unfold arrayBinding
      cases target.filter (standsForType table) with
      | none => rfl
      | some binding => cases binding <;> rfl
  | @unbound _ kind hType hScalar hPointer hArray hSome =>
      rw [typeData_eq_ok_iff.mpr hType]
      cases kind with
      | native name => exact absurd rfl (hScalar name)
      | pointer pointee => exact absurd rfl (hPointer pointee)
      | array component => exact absurd rfl (hArray component)
      | noType => exact absurd rfl hSome
      | _ => rfl

/- What is traced is found. -/
theorem Traced.bindingOfType
    {ty : TypeId}
    {found : Option Binding}
    (hTraced : Traced table cache ty found) :
    cache.bindingOfType table ty = .ok found := by
  have hAll : ∀ found, Traced table cache ty found →
      cache.bindingOfTypeWithin table (cache.types.size + 1)
        ty = .ok found := by
    apply induction_within_depth
      (R := fun ty target => cache.Aims ty target ∧
        cache.Grounded ty)
      (P := fun depth ty => ∀ found,
        Traced table cache ty found →
          cache.bindingOfTypeWithin table depth ty = .ok found)
      ?_ cache.typeIds ?_ ?_ _ cache.card_typeIds_lt ty
    · intro ty hCycle
      rcases Relation.TransGen.head'_iff.mp hCycle with
        ⟨_, ⟨_, hGrounded⟩, _⟩
      apply hGrounded.not_cycle
      exact Relation.TransGen.mono (fun _ _ hStep => hStep.1) _ _
        hCycle
    · exact fun _ _ hStep => mem_typeIds_of_madeOf hStep.1.madeOf
    · intro depth ty hTargets found hTraced
      apply bindingOfTypeWithin_traced ?_ hTraced
      intro target hAims found hTarget
      exact hTargets target ⟨hAims, hTraced.grounded⟩ found
        hTarget
  exact hAll found hTraced

/- What the search finds, to any depth, is traced. -/
private theorem traced_of_bindingOfTypeWithin
    {depth : Nat}
    {ty : TypeId}
    {found : Option Binding}
    (hFound : cache.bindingOfTypeWithin table depth ty =
      .ok found) :
    Traced table cache ty found := by
  induction depth generalizing ty found with
  | zero => cases hFound
  | succ depth ih =>
      unfold bindingOfTypeWithin at hFound
      rcases bind_eq_ok hFound with ⟨⟨kind, origin⟩, hData, hRest⟩
      have hType := typeData_eq_ok_iff.mp hData
      by_cases hScalar : ∃ name, kind = .native name
      · rcases hScalar with ⟨name, rfl⟩
        cases hRest
        exact .scalar hType
      by_cases hPointer : ∃ pointee, kind = .pointer pointee
      · rcases hPointer with ⟨pointee, rfl⟩
        rcases bind_eq_ok hRest with ⟨target, hTarget, hLast⟩
        have hSame : found = some (pointerBinding table target) := by
          unfold pointerBinding
          split at hLast <;> cases hLast <;> simp [*]
        rw [hSame]
        exact .pointer hType (ih hTarget)
      rw [not_exists] at hScalar hPointer
      cases origin with
      | host id =>
          have hSame : found = some (.host id) := by
            cases kind with
            | native name => exact absurd rfl (hScalar name)
            | pointer pointee => exact absurd rfl (hPointer _)
            | _ =>
                cases hRest
                rfl
          rw [hSame]
          exact .host hType hScalar hPointer
      | generated element =>
          cases kind with
          | native name => exact absurd rfl (hScalar name)
          | pointer pointee => exact absurd rfl (hPointer _)
          | executable params returnType =>
              rcases bind_eq_ok hRest with ⟨_, hOwner, hLast⟩
              cases hLast
              exact .method hType hOwner
          | _ =>
              rcases bind_eq_ok hRest with ⟨_, hOwner, hLast⟩
              cases hLast
              exact .class hType hScalar hPointer (by simp) hOwner
      | synthetic =>
          cases kind with
          | native name => exact absurd rfl (hScalar name)
          | pointer pointee => exact absurd rfl (hPointer _)
          | noType =>
              cases hRest
              exact .void hType
          | array component =>
              rcases bind_eq_ok hRest with
                ⟨target, hTarget, hLast⟩
              have hSame : found = arrayBinding table target := by
                unfold arrayBinding
                split at hLast <;> cases hLast <;> simp [*]
              rw [hSame]
              exact .array hType (ih hTarget)
          | _ =>
              cases hRest
              exact .unbound hType hScalar hPointer (by simp)
                (by simp)

/- The search finds what is traced, and nothing else. -/
theorem bindingOfType_eq_ok_iff
    {ty : TypeId}
    {found : Option Binding} :
    cache.bindingOfType table ty = .ok found ↔
      Traced table cache ty found :=
  ⟨traced_of_bindingOfTypeWithin, Traced.bindingOfType⟩

/- What is traced stays until the cache is reset. -/
theorem Traced.mono
    (hGrown : Grown cache after)
    {ty : TypeId}
    {found : Option Binding}
    (hTraced : Traced table cache ty found) :
    Traced table after ty found := by
  have hOwner : ∀ {element : ElementId} {data : ElementData},
      cache.element element = .ok data →
        ∃ data', after.element element = .ok data' ∧
          data'.name = data.name := by
    intro element data hElement
    rcases hGrown.element? (element_eq_ok_iff.mp hElement) with
      ⟨data', hData, hKept⟩
    exact ⟨data', element_eq_ok_iff.mpr hData, hKept.name⟩
  induction hTraced with
  | scalar hType => exact .scalar (hGrown.type? hType)
  | pointer hType _ ih => exact .pointer (hGrown.type? hType) ih
  | host hType hScalar hPointer =>
      exact .host (hGrown.type? hType) hScalar hPointer
  | method hType hElement =>
      rcases hOwner hElement with ⟨data, hData, hName⟩
      rw [← hName]
      exact .method (hGrown.type? hType) hData
  | «class» hType hScalar hPointer hMethod hElement =>
      rcases hOwner hElement with ⟨data, hData, hName⟩
      rw [← hName]
      exact .class (hGrown.type? hType) hScalar hPointer hMethod
        hData
  | void hType => exact .void (hGrown.type? hType)
  | array hType _ ih => exact .array (hGrown.type? hType) ih
  | unbound hType hScalar hPointer hArray hSome =>
      exact .unbound (hGrown.type? hType) hScalar hPointer hArray
        hSome

------------------------------------------------------------
-- Types That Stand For Bindings
------------------------------------------------------------

/- A scalar that is prescribed is spelled as its binding. -/
theorem find?_of_prescribed?
    {binding : TypeBinding}
    {kind : TypeKind}
    (hKind : cache.prescribed? binding = some kind) :
    (∀ pointee, kind ≠ .pointer pointee) ∧
    (∀ name, kind = .native name →
      cache.names.find? binding.name = some name) := by
  have hOther : ∀ {α : Type} {found : Option α}
      {build : α → TypeKind},
      (∀ item, (∀ pointee, build item ≠ .pointer pointee) ∧
        ∀ name, build item ≠ .native name) →
        found.map build = some kind →
          (∀ pointee, kind ≠ .pointer pointee) ∧
            ∀ name, kind = .native name →
              cache.names.find? binding.name = some name := by
    intro α found build hBuild hBuilt
    rcases Option.map_eq_some_iff.mp hBuilt with ⟨item, _, rfl⟩
    refine ⟨(hBuild item).1, fun name hEq => ?_⟩
    exact absurd hEq ((hBuild item).2 name)
  unfold prescribed? at hKind
  split at hKind
  · exact hOther (by simp) hKind
  · exact hOther (by simp) hKind
  · rcases Option.map_eq_some_iff.mp hKind with
      ⟨found, hFound, rfl⟩
    refine ⟨by simp, fun name hEq => ?_⟩
    cases hEq
    exact hFound
  · cases hKind
    simp
  · exact hOther (by simp) hKind
  · exact hOther (by simp) hKind
  · split at hKind
    · cases hKind
      simp
    · exact hOther (by simp) hKind
  · exact hOther (by simp) hKind

/- Wrappers of the host are no pointers. -/
private theorem Coherent.kind_ne_pointer
    (hCoherent : cache.Coherent table)
    {ty : TypeId}
    {kind : TypeKind}
    {id : BindingId}
    (hType : cache.type? ty = some ⟨kind, .host id⟩)
    (pointee : TypeId) :
    kind ≠ .pointer pointee := by
  have hStored := stored_of_type? hType (by simp)
  have hPrescribed := hCoherent _ _ id hStored rfl
  unfold prescribedOf? at hPrescribed
  split at hPrescribed
  · exact (find?_of_prescribed? hPrescribed).1 pointee
  · rcases exists_of_signature? hPrescribed with
      ⟨params, returnType, hKind, _⟩
    intro hPointer
    cases hKind.symm.trans hPointer
  · cases hPrescribed

/-
  A type stands for a type binding of the host: its wrapper
  does, unless it is a target scalar; the lack of a type
  stands for `void`; and a shape of array stands for the first
  array over what its component stands for.
-/
inductive Represents
    (table : BindingTable)
    (cache : Cache) : TypeId → BindingId → Prop
  | wrapper
      {ty : TypeId}
      {kind : TypeKind}
      {id : BindingId}
      {binding : TypeBinding}
      (typed : cache.type? ty = some ⟨kind, .host id⟩)
      (bound : table.get? id = some (.type binding))
      (noScalar : ∀ name, kind ≠ .native name) :
      Represents table cache ty id
  | void :
      Represents table cache noType BindingTable.void
  | array
      {ty component : TypeId}
      {id array : BindingId}
      (typed : cache.type? ty =
        some ⟨.array component, .synthetic⟩)
      (represents : Represents table cache component id)
      (first : table.FirstArrayOver id array) :
      Represents table cache ty array

theorem standsForType_host_iff
    {id : BindingId} :
    standsForType table (.host id) = true ↔
      ∃ binding, table.get? id = some (.type binding) := by
  simp only [standsForType]
  cases table.get? id with
  | none => simp
  | some host => cases host <;> simp

theorem filter_host
    {id : BindingId}
    {binding : TypeBinding}
    (hGet : table.get? id = some (.type binding)) :
    (some (Binding.host id)).filter (standsForType table) =
      some (.host id) := by
  rw [Option.filter_some,
    if_pos (standsForType_host_iff.mpr ⟨binding, hGet⟩)]

private theorem Traced.represents
    (hCanonical : cache.Canonical)
    {ty : TypeId}
    {found : Option Binding}
    (hTraced : Traced table cache ty found)
    {id : BindingId}
    (hFound : found.filter (standsForType table) =
      some (.host id)) :
    Represents table cache ty id := by
  induction hTraced generalizing id with
  | scalar _ => cases (Option.filter_eq_some_iff.mp hFound).1
  | @pointer _ _ _ target _ _ =>
      have hPointer := (Option.filter_eq_some_iff.mp hFound).1
      unfold pointerBinding at hPointer
      split at hPointer <;> cases hPointer
  | host hType hScalar _ =>
      rcases Option.filter_eq_some_iff.mp hFound with
        ⟨hSame, hStands⟩
      cases hSame
      rcases standsForType_host_iff.mp hStands with
        ⟨binding, hGet⟩
      exact .wrapper hType hGet hScalar
  | method _ _ => cases (Option.filter_eq_some_iff.mp hFound).1
  | «class» _ _ _ _ _ =>
      cases (Option.filter_eq_some_iff.mp hFound).1
  | void hType =>
      cases (Option.filter_eq_some_iff.mp hFound).1
      rw [hCanonical.types _ noType _ hType rfl]
      exact .void
  | array hType _ ih =>
      have hArray := (Option.filter_eq_some_iff.mp hFound).1
      unfold arrayBinding at hArray
      split at hArray
      · next other hTarget =>
        rcases Option.map_eq_some_iff.mp hArray with
          ⟨array, hFirst, hSame⟩
        cases hSame
        exact .array hType (ih hTarget)
          (BindingTable.findArrayOf?_eq_some_iff.mp hFirst)
      · cases hArray
  | unbound _ _ _ _ _ => cases hFound

private theorem Represents.filter_traced
    (hCoherent : cache.Coherent table)
    {ty : TypeId}
    {id : BindingId}
    (hRepresents : Represents table cache ty id)
    {found : Option Binding}
    (hTraced : Traced table cache ty found) :
    found.filter (standsForType table) = some (.host id) := by
  induction hRepresents generalizing found with
  | wrapper hType hGet hScalar =>
      cases hTraced with
      | scalar hOther =>
          cases hType.symm.trans hOther
          exact absurd rfl (hScalar _)
      | pointer hOther _ =>
          cases hType.symm.trans hOther
          exact absurd rfl (hCoherent.kind_ne_pointer hType _)
      | host hOther _ _ =>
          cases hType.symm.trans hOther
          exact filter_host hGet
      | method hOther _ => cases hType.symm.trans hOther
      | «class» hOther _ _ _ _ => cases hType.symm.trans hOther
      | void hOther => cases hType.symm.trans hOther
      | array hOther _ => cases hType.symm.trans hOther
      | unbound hOther _ _ _ _ => cases hType.symm.trans hOther
  | void =>
      have hType : cache.type? noType =
          some ⟨.noType, .synthetic⟩ := rfl
      cases hTraced with
      | scalar hOther => cases hType.symm.trans hOther
      | pointer hOther _ => cases hType.symm.trans hOther
      | host hOther _ _ => cases hType.symm.trans hOther
      | method hOther _ => cases hType.symm.trans hOther
      | «class» hOther _ _ _ _ => cases hType.symm.trans hOther
      | void _ => exact filter_host rfl
      | array hOther _ => cases hType.symm.trans hOther
      | unbound hOther _ _ _ hSome =>
          cases hType.symm.trans hOther
          exact absurd rfl hSome
  | array hType _ hFirst ih =>
      cases hTraced with
      | scalar hOther => cases hType.symm.trans hOther
      | pointer hOther _ => cases hType.symm.trans hOther
      | host hOther _ _ => cases hType.symm.trans hOther
      | method hOther _ => cases hType.symm.trans hOther
      | «class» hOther _ _ _ _ => cases hType.symm.trans hOther
      | void hOther => cases hType.symm.trans hOther
      | array hOther hTarget =>
          cases hType.symm.trans hOther
          rcases hFirst.isArray with ⟨binding, hGet, _⟩
          unfold arrayBinding
          rw [ih hTarget]
          simp only []
          rw [BindingTable.findArrayOf?_eq_some_iff.mpr hFirst]
          exact filter_host hGet
      | unbound hOther _ _ hArray _ =>
          cases hType.symm.trans hOther
          exact absurd rfl (hArray _)

/-
  The host binding behind a type is the one that it stands
  for.
-/
theorem Traced.represents_iff
    (hCanonical : cache.Canonical)
    (hCoherent : cache.Coherent table)
    {ty : TypeId}
    {found : Option Binding}
    (hTraced : Traced table cache ty found)
    (id : BindingId) :
    found.filter (standsForType table) = some (.host id) ↔
      Represents table cache ty id :=
  ⟨hTraced.represents hCanonical,
    fun hRepresents => hRepresents.filter_traced hCoherent hTraced⟩

------------------------------------------------------------
-- Wrapping What A Type Stands For
------------------------------------------------------------

/- The wrapper of a type binding is found by the binding. -/
theorem typeOf?_of_type?
    (hBase : 2 ≤ cache.types.base)
    (hCoherent : cache.Coherent table)
    (hCanonical : cache.Canonical)
    {ty : TypeId}
    {kind : TypeKind}
    {id : BindingId}
    {binding : TypeBinding}
    (hType : cache.type? ty = some ⟨kind, .host id⟩)
    (hGet : table.get? id = some (.type binding)) :
    cache.typeOf? id = some ty := by
  have hStored := stored_of_type? hType (by simp)
  have hKind := hCoherent _ _ id hStored rfl
  unfold prescribedOf? at hKind
  rw [hGet] at hKind
  cases hFound : cache.typeOf? id with
  | none =>
      rw [typeOf?_eq, findType?_eq_none_iff] at hFound
      have hNot := hFound _ _ hStored
      simp [isExecutable_of_prescribed? hKind] at hNot
  | some other =>
      rcases hCoherent.typeOf? hBase hFound with
        ⟨binding', kind', hGet', hData, hKind'⟩
      cases hGet.symm.trans hGet'
      cases hKind.symm.trans hKind'
      rw [hCanonical.types _ _ _ (typeData_eq_ok_iff.mp hData)
        hType]

/- An array over what can be wrapped can be wrapped. -/
theorem wrappable_arrayOver
    {component array : BindingId}
    (hComponent : table.Wrappable component)
    (hOver : table.ArrayOver component array) :
    table.Wrappable array := by
  rcases hOver with ⟨binding, hGet, hFlag, hOver⟩
  have hForm : binding.form = .array := by
    unfold TypeBinding.form
    rw [if_pos hFlag]
  refine .intro hGet ?_ ?_
  · unfold TypeBinding.Formed
    simp only [hForm, hOver, Option.isSome_some]
  · intro part hPart
    unfold TypeBinding.parts at hPart
    simp only [hForm, hOver, Option.toList_some,
      List.mem_singleton] at hPart
    rw [hPart]
    exact hComponent

/- What a type stands for can be wrapped. -/
theorem Represents.wrappable
    (hBase : 2 ≤ cache.types.base)
    (hAcyclic : table.Acyclic)
    (hCoherent : cache.Coherent table)
    (hCanonical : cache.Canonical)
    {ty : TypeId}
    {id : BindingId}
    (hRepresents : Represents table cache ty id) :
    table.Wrappable id := by
  induction hRepresents with
  | wrapper hType hGet _ =>
      exact hCoherent.wrappable hBase hAcyclic
        (typeOf?_of_type? hBase hCoherent hCanonical hType hGet)
  | void =>
      refine .intro rfl trivial ?_
      intro part hPart
      cases hPart
  | array _ _ hFirst ih =>
      exact wrappable_arrayOver ih hFirst.isArray

end Cache

end Lowering
