import Lowering.Cache.WrapType
import Lowering.Proofs.Cache.Change

/-
  This file states which kind of type a binding prescribes,
  given the wrappers and names that the cache has, and which
  bindings prescribe one at all. Both are read off the table:
  nothing is wrapped here.

  What is prescribed stays so while the cache and the table
  grow, for a wrapper that is there stays there.

  Key definitions include:
    * `TypeForm`
    * `TypeBinding.form`
    * `TypeBinding.parts`
    * `Cache.prescribed?`
    * `Cache.signature?`
    * `Cache.prescribedOf?`
    * `BindingTable.Wrappable`
    * `BindingTable.Refused`

  Main results:
    * `Cache.kindOfType_eq`
    * `Cache.prescribedOf?_mono`
    * `BindingTable.Wrappable.not_refused`
    * `BindingTable.Refused.unique`
-/

namespace Lowering

------------------------------------------------------------
-- Forms
------------------------------------------------------------

/- The forms that a type binding can have. -/
inductive TypeForm
  | array
  | intersection
  | native
  | void
  | primitive
  | typeVariable
  | wildcard
  | declared

/- The value primitive whose descriptor a binary name is. -/
def PrimitiveKind.ofBinaryName?
    (binaryName : String) : Option PrimitiveKind :=
  all.find? fun kind => binaryName = kind.descriptor.toString

namespace TypeBinding

/- The form of a binding: the first flag that applies decides. -/
def form (binding : TypeBinding) : TypeForm :=
  if binding.flags.isArray then .array
  else if binding.flags.isIntersection then .intersection
  else if binding.flags.isPrimitive then
    if binding.flags.isNative then .native
    else if binding.binaryName = "V" then .void
    else .primitive
  else if binding.flags.isTypeVariable then .typeVariable
  else if binding.flags.isWildcard then .wildcard
  else .declared

/- The bindings of which the kind of a binding is made. -/
def parts (binding : TypeBinding) : List BindingId :=
  match binding.form with
  | .array => binding.component.toList
  | .intersection => binding.bounds
  | .wildcard => binding.bounds.head?.toList
  | _ => []

/-
  A binding has what its form needs: an array a component, and
  a value primitive a binary name that is a descriptor.
-/
def Formed (binding : TypeBinding) : Prop :=
  match binding.form with
  | .array => binding.component.isSome
  | .primitive =>
    (PrimitiveKind.ofBinaryName? binding.binaryName).isSome
  | _ => True

end TypeBinding

namespace Cache

------------------------------------------------------------
-- Prescribed Kinds
------------------------------------------------------------

/-
  The kind that a type binding prescribes, given the types
  that wrap what it is made of.
-/
def prescribed?
    (cache : Cache)
    (binding : TypeBinding) : Option TypeKind :=
  match binding.form with
  | .array => (binding.component.bind cache.typeOf?).map .array
  | .intersection =>
    (binding.bounds.mapM cache.typeOf?).map .intersection
  | .native => (cache.names.find? binding.name).map .native
  | .void => some .noType
  | .primitive =>
    (PrimitiveKind.ofBinaryName? binding.binaryName).map
      .primitive
  | .typeVariable =>
    (cache.names.find? binding.name).map .typeVariable
  | .wildcard =>
    match binding.bounds with
    | [] => some (.wildcard none)
    | bound :: _ => (cache.typeOf? bound).map (.wildcard ∘ some)
  | .declared => (cache.names.find? binding.name).map .declared

/- The type that a method binding returns, if it is wrapped. -/
def returned?
    (cache : Cache)
    (binding : MethodBinding) : Option TypeId :=
  match binding.returnType with
  | none => some noType
  | some id => cache.typeOf? id

/- The kind of executable type that a method binding has. -/
def signature?
    (cache : Cache)
    (binding : MethodBinding) : Option TypeKind := do
  let params ← binding.parameterTypes.mapM cache.typeOf?
  let returnType ← cache.returned? binding
  return .executable params returnType

/- The kind of type that is made of a binding of the table. -/
def prescribedOf?
    (cache : Cache)
    (table : BindingTable)
    (id : BindingId) : Option TypeKind :=
  match table.get? id with
  | some (.type binding) => cache.prescribed? binding
  | some (.method binding) => cache.signature? binding
  | _ => none

/- A binary name is a descriptor or stands for no primitive. -/
theorem primitiveOfBinaryName?_eq (binaryName : String) :
    primitiveOfBinaryName? binaryName =
      PrimitiveKind.ofBinaryName? binaryName := by
  have hDescriptor : ∀ kind : PrimitiveKind,
      binaryName = kind.descriptor.toString ↔
        binaryName.toList = [kind.descriptor] := by
    intro kind
    rw [← String.toList_inj]
    simp [Char.toString]
  unfold primitiveOfBinaryName? PrimitiveKind.ofBinaryName?
  simp only [hDescriptor]
  cases hList : binaryName.toList with
  | nil => exact (List.find?_eq_none.mpr (by simp)).symm
  | cons letter letters =>
      cases letters with
      | nil =>
          unfold PrimitiveKind.ofDescriptor?
          simp [eq_comm]
      | cons other letters =>
          exact (List.find?_eq_none.mpr (by simp)).symm

/- What wrapping does with a binding of a form. -/
theorem kindOfType_eq
    (table : BindingTable)
    (wrap : BindingId → CacheM TypeId)
    (id : BindingId)
    (binding : TypeBinding) :
    kindOfType table wrap id binding =
      match binding.form with
      | .array =>
        match binding.component with
        | some component => .array <$> wrap component
        | none =>
          CacheM.refuse
            (.malformedArrayBinding (table.describe id))
      | .intersection =>
        .intersection <$> binding.bounds.mapM wrap
      | .native => .native <$> intern binding.name
      | .void => pure .noType
      | .primitive =>
        match
          PrimitiveKind.ofBinaryName? binding.binaryName with
        | some kind => pure (.primitive kind)
        | none => CacheM.refuse (.notPrimitive binding.name)
      | .typeVariable => .typeVariable <$> intern binding.name
      | .wildcard =>
        .wildcard <$> binding.bounds.head?.mapM wrap
      | .declared => .declared <$> intern binding.name := by
  unfold kindOfType TypeBinding.form
  rw [← primitiveOfBinaryName?_eq]
  split
  · rfl
  split
  · rfl
  split
  · split
    · rfl
    split <;> rfl
  split
  · rfl
  split <;> rfl

------------------------------------------------------------
-- Growth
------------------------------------------------------------

/- A list of answers that are kept is kept. -/
theorem mapM_mono
    {α β : Type}
    {find later : α → Option β}
    (hMono : ∀ item found,
      find item = some found → later item = some found)
    {items : List α}
    {all : List β}
    (hAll : items.mapM find = some all) :
    items.mapM later = some all := by
  induction items generalizing all with
  | nil => exact hAll
  | cons item items ih =>
      simp only [List.mapM_cons, Option.bind_eq_bind,
        Option.bind_eq_some_iff] at hAll ⊢
      rcases hAll with ⟨first, hFirst, rest, hRest, hPure⟩
      exact ⟨first, hMono _ _ hFirst, rest, ih hRest, hPure⟩

private theorem map_mono
    {α β : Type}
    {old new : Option α}
    {build : α → β}
    {built : β}
    (hMono : ∀ found, old = some found → new = some found)
    (hOld : old.map build = some built) :
    new.map build = some built := by
  rcases Option.map_eq_some_iff.mp hOld with
    ⟨found, hFound, hBuilt⟩
  rw [hMono found hFound, Option.map_some, hBuilt]

section Growth

variable {before after : Cache}

theorem mapM_typeOf?_mono
    (hGrown : Grown before after)
    {ids : List BindingId}
    {types : List TypeId}
    (hTypes : ids.mapM before.typeOf? = some types) :
    ids.mapM after.typeOf? = some types :=
  mapM_mono (fun _ _ => hGrown.typeOf?) hTypes

/- A kind that is prescribed stays prescribed. -/
theorem prescribed?_mono
    (hGrown : Grown before after)
    {binding : TypeBinding}
    {kind : TypeKind}
    (hKind : before.prescribed? binding = some kind) :
    after.prescribed? binding = some kind := by
  have hName : ∀ found,
      before.names.find? binding.name = some found →
        after.names.find? binding.name = some found :=
    fun _ => hGrown.names.find?
  unfold prescribed? at hKind ⊢
  cases hForm : binding.form with
  | array =>
      simp only [hForm] at hKind ⊢
      refine map_mono ?_ hKind
      intro ty hFound
      rcases Option.bind_eq_some_iff.mp hFound with
        ⟨component, hComponent, hType⟩
      exact Option.bind_eq_some_iff.mpr
        ⟨component, hComponent, hGrown.typeOf? hType⟩
  | intersection =>
      simp only [hForm] at hKind ⊢
      exact map_mono (fun _ => mapM_typeOf?_mono hGrown) hKind
  | native =>
      simp only [hForm] at hKind ⊢
      exact map_mono hName hKind
  | void =>
      simp only [hForm] at hKind ⊢
      exact hKind
  | primitive =>
      simp only [hForm] at hKind ⊢
      exact hKind
  | typeVariable =>
      simp only [hForm] at hKind ⊢
      exact map_mono hName hKind
  | wildcard =>
      simp only [hForm] at hKind ⊢
      cases hBounds : binding.bounds with
      | nil =>
          simp only [hBounds] at hKind
          exact hKind
      | cons bound bounds =>
          simp only [hBounds] at hKind
          exact map_mono (fun _ => hGrown.typeOf?) hKind
  | declared =>
      simp only [hForm] at hKind ⊢
      exact map_mono hName hKind

theorem returned?_mono
    (hGrown : Grown before after)
    {binding : MethodBinding}
    {ty : TypeId}
    (hReturn : before.returned? binding = some ty) :
    after.returned? binding = some ty := by
  unfold returned? at hReturn ⊢
  cases hType : binding.returnType with
  | none =>
      rw [hType] at hReturn
      exact hReturn
  | some id =>
      rw [hType] at hReturn
      exact hGrown.typeOf? hReturn

/- A signature that is prescribed stays prescribed. -/
theorem signature?_mono
    (hGrown : Grown before after)
    {binding : MethodBinding}
    {kind : TypeKind}
    (hKind : before.signature? binding = some kind) :
    after.signature? binding = some kind := by
  simp only [signature?, Option.bind_eq_bind,
    Option.bind_eq_some_iff] at hKind ⊢
  rcases hKind with ⟨params, hParams, returnType, hReturn, hPure⟩
  exact ⟨params, mapM_typeOf?_mono hGrown hParams,
    returnType, returned?_mono hGrown hReturn, hPure⟩

/- What a table prescribes, a grown one does too. -/
theorem prescribedOf?_mono
    {table table' : BindingTable}
    (hTable : ∀ id host,
      table.get? id = some host → table'.get? id = some host)
    (hGrown : Grown before after)
    {id : BindingId}
    {kind : TypeKind}
    (hKind : before.prescribedOf? table id = some kind) :
    after.prescribedOf? table' id = some kind := by
  unfold prescribedOf? at hKind ⊢
  cases hGet : table.get? id with
  | none =>
      rw [hGet] at hKind
      cases hKind
  | some host =>
      rw [hGet] at hKind
      rw [hTable id host hGet]
      cases host with
      | type binding => exact prescribed?_mono hGrown hKind
      | method binding => exact signature?_mono hGrown hKind
      | «variable» binding => cases hKind
      | package name => cases hKind
      | annotationUse type => cases hKind

end Growth

------------------------------------------------------------
-- What A Prescribed Kind Is Made Of
------------------------------------------------------------

section Parts

variable {cache : Cache}
variable {binding : TypeBinding}
variable {kind : TypeKind}

private theorem exists_of_mapM
    {α β : Type}
    {find : α → Option β}
    {items : List α}
    {all : List β}
    (hAll : items.mapM find = some all)
    {item : α}
    (hItem : item ∈ items) :
    ∃ found, find item = some found := by
  induction items generalizing all with
  | nil => cases hItem
  | cons first items ih =>
      simp only [List.mapM_cons, Option.bind_eq_bind,
        Option.bind_eq_some_iff] at hAll
      rcases hAll with ⟨found, hFirst, rest, hRest, _⟩
      rcases List.mem_cons.mp hItem with rfl | hOther
      · exact ⟨found, hFirst⟩
      · exact ih hRest hOther

/- A binding with a prescribed kind has what its form needs. -/
theorem formed_of_prescribed?
    (hKind : cache.prescribed? binding = some kind) :
    binding.Formed := by
  unfold prescribed? at hKind
  unfold TypeBinding.Formed
  cases hForm : binding.form with
  | array =>
      simp only [hForm, Option.map_eq_some_iff,
        Option.bind_eq_some_iff] at hKind ⊢
      rcases hKind with ⟨_, ⟨component, hComponent, _⟩, _⟩
      rw [hComponent]
      rfl
  | primitive =>
      simp only [hForm, Option.map_eq_some_iff] at hKind ⊢
      rcases hKind with ⟨primitive, hPrimitive, _⟩
      rw [hPrimitive]
      rfl
  | _ => trivial

/- What a prescribed kind is made of is wrapped. -/
theorem typeOf?_of_prescribed?
    (hKind : cache.prescribed? binding = some kind)
    {part : BindingId}
    (hPart : part ∈ binding.parts) :
    ∃ ty, cache.typeOf? part = some ty := by
  unfold prescribed? at hKind
  unfold TypeBinding.parts at hPart
  cases hForm : binding.form with
  | array =>
      simp only [hForm, Option.map_eq_some_iff,
        Option.bind_eq_some_iff] at hKind
      rcases hKind with ⟨ty, ⟨component, hComponent, hType⟩, _⟩
      simp only [hForm, hComponent, Option.toList_some,
        List.mem_singleton] at hPart
      exact ⟨ty, hPart ▸ hType⟩
  | intersection =>
      simp only [hForm, Option.map_eq_some_iff] at hKind hPart
      rcases hKind with ⟨types, hTypes, _⟩
      exact exists_of_mapM hTypes hPart
  | wildcard =>
      simp only [hForm] at hKind hPart
      cases hBounds : binding.bounds with
      | nil =>
          rw [hBounds] at hPart
          cases hPart
      | cons bound bounds =>
          simp only [hBounds, Option.map_eq_some_iff] at hKind
          rcases hKind with ⟨ty, hType, _⟩
          simp only [hBounds, List.head?_cons,
            Option.toList_some, List.mem_singleton] at hPart
          exact ⟨ty, hPart ▸ hType⟩
  | _ =>
      simp only [hForm] at hPart
      cases hPart

/- A prescribed kind is none of a method. -/
theorem isExecutable_of_prescribed?
    (hKind : cache.prescribed? binding = some kind) :
    kind.isExecutable = false := by
  have hMap : ∀ {α : Type} {found : Option α}
      {build : α → TypeKind},
      (∀ item, (build item).isExecutable = false) →
        found.map build = some kind →
          kind.isExecutable = false := by
    intro α found build hBuild hBuilt
    rcases Option.map_eq_some_iff.mp hBuilt with ⟨item, _, rfl⟩
    exact hBuild item
  unfold prescribed? at hKind
  split at hKind
  · exact hMap (fun _ => rfl) hKind
  · exact hMap (fun _ => rfl) hKind
  · exact hMap (fun _ => rfl) hKind
  · cases hKind
    rfl
  · exact hMap (fun _ => rfl) hKind
  · exact hMap (fun _ => rfl) hKind
  · split at hKind
    · cases hKind
      rfl
    · exact hMap (fun _ => rfl) hKind
  · exact hMap (fun _ => rfl) hKind

/- The kind of a signature is one of a method. -/
theorem exists_of_signature?
    {method : MethodBinding}
    (hKind : cache.signature? method = some kind) :
    ∃ params returnType,
      kind = .executable params returnType ∧
        method.parameterTypes.mapM cache.typeOf? = some params ∧
        cache.returned? method = some returnType := by
  simp only [signature?, Option.bind_eq_bind,
    Option.bind_eq_some_iff] at hKind
  rcases hKind with ⟨params, hParams, returnType, hReturn, hPure⟩
  cases hPure
  exact ⟨params, returnType, rfl, hParams, hReturn⟩

end Parts

end Cache

------------------------------------------------------------
-- Bindings That Prescribe A Kind
------------------------------------------------------------

namespace BindingTable

/-
  A binding of the table that prescribes a kind of type: it is
  that of a type, has what its form needs, and is made of such
  bindings.
-/
inductive Wrappable (table : BindingTable) : BindingId → Prop
  | intro
      {id : BindingId}
      {binding : TypeBinding}
      (bound : table.get? id = some (.type binding))
      (formed : binding.Formed)
      (parts : ∀ part ∈ binding.parts, Wrappable table part) :
      Wrappable table id

/-
  Why a binding prescribes no kind. Of the parts of which a
  kind is made the first one without a kind counts.
-/
inductive Refused (table : BindingTable) :
    BindingId → ContractViolation → Prop
  | dangling
      {id : BindingId}
      (unbound : table.get? id = none) :
      Refused table id (.danglingBinding id)
  | notAType
      {id : BindingId}
      {host : HostBinding}
      (bound : table.get? id = some host)
      (other : ∀ binding, host ≠ .type binding) :
      Refused table id (.notATypeBinding (host.describe id))
  | noComponent
      {id : BindingId}
      {binding : TypeBinding}
      (bound : table.get? id = some (.type binding))
      (array : binding.form = .array)
      (missing : binding.component = none) :
      Refused table id (.malformedArrayBinding (table.describe id))
  | notPrimitive
      {id : BindingId}
      {binding : TypeBinding}
      (bound : table.get? id = some (.type binding))
      (primitive : binding.form = .primitive)
      (other :
        PrimitiveKind.ofBinaryName? binding.binaryName = none) :
      Refused table id (.notPrimitive binding.name)
  | part
      {id part : BindingId}
      {binding : TypeBinding}
      {before after : List BindingId}
      {cause : ContractViolation}
      (bound : table.get? id = some (.type binding))
      (parts : binding.parts = before ++ part :: after)
      (wrappable : ∀ other ∈ before, Wrappable table other)
      (refused : Refused table part cause) :
      Refused table id cause

/- The ways in which a type binding is refused. -/
private theorem Refused.of_type
    {table : BindingTable}
    {id : BindingId}
    {binding : TypeBinding}
    {cause : ContractViolation}
    (hBound : table.get? id = some (.type binding))
    (hRefused : table.Refused id cause) :
    (binding.form = .array ∧ binding.component = none ∧
      cause = .malformedArrayBinding (table.describe id)) ∨
    (binding.form = .primitive ∧
      PrimitiveKind.ofBinaryName? binding.binaryName = none ∧
      cause = .notPrimitive binding.name) ∨
    ∃ before part after,
      binding.parts = before ++ part :: after ∧
        (∀ other ∈ before, Wrappable table other) ∧
        table.Refused part cause := by
  cases hRefused with
  | dangling hNone => cases hBound.symm.trans hNone
  | notAType hHost hOther =>
      cases hBound.symm.trans hHost
      exact absurd rfl (hOther binding)
  | noComponent hHost hArray hMissing =>
      cases hBound.symm.trans hHost
      exact Or.inl ⟨hArray, hMissing, rfl⟩
  | notPrimitive hHost hPrimitive hOther =>
      cases hBound.symm.trans hHost
      exact Or.inr (Or.inl ⟨hPrimitive, hOther, rfl⟩)
  | part hHost hParts hBefore hPart =>
      cases hBound.symm.trans hHost
      exact Or.inr (Or.inr ⟨_, _, _, hParts, hBefore, hPart⟩)

/- A binding that prescribes a kind is not refused. -/
theorem Wrappable.not_refused
    {table : BindingTable}
    {id : BindingId}
    {cause : ContractViolation}
    (hWrappable : table.Wrappable id) :
    ¬ table.Refused id cause := by
  induction hWrappable with
  | @intro id binding hBound hFormed _ ih =>
      intro hRefused
      unfold TypeBinding.Formed at hFormed
      rcases hRefused.of_type hBound with
        ⟨hArray, hMissing, _⟩ | ⟨hPrimitive, hOther, _⟩ |
          ⟨before, part, after, hParts, _, hPart⟩
      · simp only [hArray, hMissing] at hFormed
        cases hFormed
      · simp only [hPrimitive, hOther] at hFormed
        cases hFormed
      · exact ih part (by simp [hParts]) hPart

/- Of two lists that split at a first refused part, it is one. -/
private theorem refused_part_unique
    {table : BindingTable}
    {before before' after after' : List BindingId}
    {part part' : BindingId}
    {cause cause' : ContractViolation}
    (hParts : before ++ part :: after =
      before' ++ part' :: after')
    (hBefore : ∀ other ∈ before, table.Wrappable other)
    (hBefore' : ∀ other ∈ before', table.Wrappable other)
    (hPart : table.Refused part cause)
    (hPart' : table.Refused part' cause') :
    part = part' := by
  rcases List.append_eq_append_iff.mp hParts with
    ⟨more, hMore, hRest⟩ | ⟨more, hMore, hRest⟩
  · cases more with
    | nil =>
        cases hRest
        rfl
    | cons other more =>
        cases hRest
        exact absurd hPart
          (hBefore' part (by simp [hMore])).not_refused
  · cases more with
    | nil =>
        cases hRest
        rfl
    | cons other more =>
        cases hRest
        exact absurd hPart'
          (hBefore part' (by simp [hMore])).not_refused

/- There is one reason only why a binding is refused. -/
theorem Refused.unique
    {table : BindingTable}
    {id : BindingId}
    {cause cause' : ContractViolation}
    (hFirst : table.Refused id cause)
    (hSecond : table.Refused id cause') :
    cause = cause' := by
  have hNoPart : ∀ {binding : TypeBinding} {before after part},
      binding.parts = before ++ part :: after →
        binding.parts ≠ [] := by
    intro binding before after part hParts hNone
    rw [hNone] at hParts
    exact List.append_ne_nil_of_right_ne_nil _
      (List.cons_ne_nil _ _) hParts.symm
  induction hFirst generalizing cause' with
  | dangling hNone =>
      cases hSecond with
      | dangling => rfl
      | notAType hHost _ => cases hNone.symm.trans hHost
      | noComponent hHost _ _ => cases hNone.symm.trans hHost
      | notPrimitive hHost _ _ => cases hNone.symm.trans hHost
      | part hHost _ _ _ => cases hNone.symm.trans hHost
  | @notAType id _ hHost hOther =>
      have hNotType : ∀ {binding},
          table.get? id = some (.type binding) → False := by
        intro binding hHost'
        cases hHost.symm.trans hHost'
        exact hOther binding rfl
      cases hSecond with
      | dangling hNone => cases hNone.symm.trans hHost
      | notAType hHost' _ =>
          cases hHost.symm.trans hHost'
          rfl
      | noComponent hHost' _ _ => exact (hNotType hHost').elim
      | notPrimitive hHost' _ _ => exact (hNotType hHost').elim
      | part hHost' _ _ _ => exact (hNotType hHost').elim
  | noComponent hHost hArray hMissing =>
      rcases hSecond.of_type hHost with
        ⟨_, _, rfl⟩ | ⟨hPrimitive, _, _⟩ | ⟨_, _, _, hParts, _⟩
      · rfl
      · cases hArray.symm.trans hPrimitive
      · exact absurd (by simp [TypeBinding.parts, *])
          (hNoPart hParts)
  | notPrimitive hHost hPrimitive hOther =>
      rcases hSecond.of_type hHost with
        ⟨hArray, _, _⟩ | ⟨_, _, rfl⟩ | ⟨_, _, _, hParts, _⟩
      · cases hPrimitive.symm.trans hArray
      · rfl
      · exact absurd (by simp [TypeBinding.parts, *])
          (hNoPart hParts)
  | part hHost hParts hBefore hPart ih =>
      rcases hSecond.of_type hHost with
        ⟨hArray, hMissing, _⟩ | ⟨hPrimitive, _, _⟩ |
          ⟨_, _, _, hParts', hBefore', hPart'⟩
      · exact absurd (by simp [TypeBinding.parts, *])
          (hNoPart hParts)
      · exact absurd (by simp [TypeBinding.parts, *])
          (hNoPart hParts)
      · cases refused_part_unique (hParts.symm.trans hParts')
          hBefore hBefore' hPart hPart'
        exact ih hPart'

end BindingTable

end Lowering
