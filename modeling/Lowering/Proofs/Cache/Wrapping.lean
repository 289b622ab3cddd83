import Lowering.Cache.WrapElement
import Lowering.Proofs.Cache.WrapType

/-
  This file states once how wrapping a binding is put together.
  A property that sequences inherit from their parts is had by
  wrapping if it is had by the parts of the wrapper.

  What sets one such property apart from another is left to
  the parts: what interning a name does, what wrapping a type
  does, and how the element is added at last.

  Key definitions include:
    * `Cache.Wrapping`
    * `Cache.Described`

  Main results:
    * `Cache.wrapUses_of_type`
    * `Cache.Wrapping.describeHost`
    * `Cache.Follows.wrapType`
    * `Cache.Follows.wrapElement`
    * `Cache.described_of_describeHost`
-/

namespace Lowering

/- A question to the table is answered or refused. -/
theorem Composes.consult
    {J : (α : Type) → CacheM α → Cache → Prop}
    {α : Type}
    (hJ : Composes J)
    (question : Except ContractViolation α)
    (cache : Cache) :
    J α (Cache.consult question) cache := by
  cases question with
  | ok answer => exact hJ.pure _ _
  | error cause => exact hJ.throw _ _

namespace Cache

variable {J : (α : Type) → CacheM α → Cache → Prop}
variable {R : Cache → Cache → Prop}
variable {table : BindingTable}

------------------------------------------------------------
-- Parts Of An Element
------------------------------------------------------------

theorem wrapUses_of_type
    (hJ : Composes J)
    (hType : ∀ id cache, J TypeId (wrapHostType table id) cache)
    (annotations : List BindingId)
    (cache : Cache) :
    J (List AnnotationUse) (wrapUses table annotations)
      cache := by
  unfold wrapUses
  apply hJ.mapM
  intro use _ state
  unfold wrapUse
  apply hJ.bind (hJ.consult (table.annotationType use) state)
  intro type state' _
  apply hJ.bind (hType type state')
  intro _ _ _
  exact hJ.pure _ _

/-
  A property that sequences inherit, and that the parts have of
  which an element is described.
-/
structure Wrapping
    (J : (α : Type) → CacheM α → Cache → Prop)
    (table : BindingTable) : Prop where
  composes : Composes J
  intern : ∀ text cache, J Name (intern text) cache
  type : ∀ id cache, J TypeId (wrapHostType table id) cache
  executable : ∀ id cache,
    J TypeId (wrapExecutable table id) cache

namespace Wrapping

section Describe

variable {wrap : BindingId → CacheM ElementId}
variable {id : BindingId}

private theorem describeType
    {binding : TypeBinding}
    (hParts : Wrapping J table)
    (hWrap : ∀ owner, binding.declaring = some owner →
      ∀ cache, J ElementId (wrap owner) cache)
    (cache : Cache) :
    J ElementData (Cache.describeType table wrap id binding)
      cache := by
  have hJ := hParts.composes
  unfold Cache.describeType
  apply hJ.bind (hParts.intern _ cache)
  intro name cache₁ _
  apply hJ.bind (hJ.optionMapM binding.declaring hWrap cache₁)
  intro enclosing cache₂ _
  apply hJ.bind (hParts.type id cache₂)
  intro ty cache₃ _
  apply hJ.bind (wrapUses_of_type hJ hParts.type _ cache₃)
  intro annotations cache₄ _
  exact hJ.pure _ _

private theorem describeMethod
    {binding : MethodBinding}
    (hParts : Wrapping J table)
    (hWrap : ∀ owner, binding.declaring = some owner →
      ∀ cache, J ElementId (wrap owner) cache)
    (cache : Cache) :
    J ElementData (Cache.describeMethod table wrap id binding)
      cache := by
  have hJ := hParts.composes
  unfold Cache.describeMethod
  apply hJ.bind (hJ.optionMapM binding.declaring hWrap cache)
  intro enclosing cache₁ _
  apply hJ.bind (hParts.executable id cache₁)
  intro ty cache₂ _
  apply hJ.bind (wrapReturnType_of_type hJ hParts.type binding
    cache₂)
  intro returnType cache₃ _
  apply hJ.bind (hParts.intern _ cache₃)
  intro name cache₄ _
  apply hJ.bind (wrapUses_of_type hJ hParts.type _ cache₄)
  intro annotations cache₅ _
  exact hJ.pure _ _

private theorem describeVariable
    {binding : VariableBinding}
    (hParts : Wrapping J table)
    (hWrap : ∀ owner, binding.declaring = some owner →
      ∀ cache, J ElementId (wrap owner) cache)
    (cache : Cache) :
    J ElementData (Cache.describeVariable table wrap id binding)
      cache := by
  have hJ := hParts.composes
  unfold Cache.describeVariable
  apply hJ.bind (hJ.optionMapM binding.ty
    (fun type _ => hParts.type type) cache)
  intro ty cache₁ _
  apply hJ.bind (hParts.intern _ cache₁)
  intro name cache₂ _
  apply hJ.bind (hJ.optionMapM binding.declaring hWrap cache₂)
  intro enclosing cache₃ _
  apply hJ.bind (wrapUses_of_type hJ hParts.type _ cache₃)
  intro annotations cache₄ _
  exact hJ.pure _ _

/- Describing an element wraps at most one that declares it. -/
theorem describeHost
    (hParts : Wrapping J table)
    (id : BindingId)
    (hWrap : ∀ owner, table.Declares id owner →
      ∀ cache, J ElementId (wrap owner) cache)
    (cache : Cache) :
    J ElementData (Cache.describeHost table wrap id) cache := by
  have hJ := hParts.composes
  unfold Cache.describeHost
  cases hGet : table.get? id with
  | none => exact hJ.throw _ _
  | some host =>
      cases host with
      | type binding =>
          apply hParts.describeType
          intro owner hOwner
          exact hWrap owner (Or.inl ⟨binding, hGet, hOwner⟩)
      | method binding =>
          apply hParts.describeMethod
          intro owner hOwner
          exact hWrap owner
            (Or.inr (Or.inl ⟨binding, hGet, hOwner⟩))
      | «variable» binding =>
          apply hParts.describeVariable
          intro owner hOwner
          exact hWrap owner
            (Or.inr (Or.inr ⟨binding, hGet, hOwner⟩))
      | package name =>
          apply hJ.bind (hParts.intern name cache)
          intro _ _ _
          exact hJ.pure _ _
      | annotationUse type => exact hJ.throw _ _

end Describe

end Wrapping

------------------------------------------------------------
-- Described Elements
------------------------------------------------------------

/-
  An element as it is described: it is that of its binding,
  which is in the table, and a package if that is one. A method
  has no parameters yet, and a package no annotations.
-/
structure Described
    (table : BindingTable)
    (id : BindingId)
    (data : ElementData) : Prop where
  origin : data.origin = .host id
  bound : ∃ host, table.get? id = some host ∧
    ∀ name, host = .package name → data.kind = .package
  methods : ∀ selector params returnType,
    data.kind = .executable selector params returnType →
      params = []
  packages : data.kind = .package → data.annotations = []

theorem described_of_describeHost
    {wrap : BindingId → CacheM ElementId}
    {id : BindingId}
    {cache cache' : Cache}
    {data : ElementData}
    (hRun : describeHost table wrap id cache =
      .ok data cache') :
    Described table id data := by
  unfold describeHost at hRun
  cases hGet : table.get? id with
  | none =>
      rw [hGet] at hRun
      cases hRun
  | some host =>
      rw [hGet] at hRun
      cases host with
      | type binding =>
          simp only [describeType] at hRun
          rcases run_bind_eq_ok hRun with ⟨_, _, _, hRun⟩
          rcases run_bind_eq_ok hRun with ⟨_, _, _, hRun⟩
          rcases run_bind_eq_ok hRun with ⟨_, _, _, hRun⟩
          rcases run_bind_eq_ok hRun with ⟨_, _, _, hRun⟩
          cases hRun
          refine ⟨rfl, ⟨_, hGet, by simp⟩, ?_, ?_⟩
          · cases binding.flags.isTypeVariable <;> simp
          · cases binding.flags.isTypeVariable <;> simp
      | method binding =>
          simp only [describeMethod] at hRun
          rcases run_bind_eq_ok hRun with ⟨_, _, _, hRun⟩
          rcases run_bind_eq_ok hRun with ⟨_, _, _, hRun⟩
          rcases run_bind_eq_ok hRun with ⟨_, _, _, hRun⟩
          rcases run_bind_eq_ok hRun with ⟨_, _, _, hRun⟩
          rcases run_bind_eq_ok hRun with ⟨_, _, _, hRun⟩
          cases hRun
          exact ⟨rfl, ⟨_, hGet, by simp⟩, by simp, by simp⟩
      | «variable» binding =>
          simp only [describeVariable] at hRun
          rcases run_bind_eq_ok hRun with ⟨_, _, _, hRun⟩
          rcases run_bind_eq_ok hRun with ⟨_, _, _, hRun⟩
          rcases run_bind_eq_ok hRun with ⟨_, _, _, hRun⟩
          rcases run_bind_eq_ok hRun with ⟨_, _, _, hRun⟩
          cases hRun
          exact ⟨rfl, ⟨_, hGet, by simp⟩, by simp, by simp⟩
      | package name =>
          simp only [describePackage] at hRun
          rcases run_bind_eq_ok hRun with ⟨_, _, _, hRun⟩
          cases hRun
          exact ⟨rfl, ⟨_, hGet, fun _ _ => rfl⟩, by simp,
            fun _ => rfl⟩
      | annotationUse type => cases hRun

------------------------------------------------------------
-- Bindings Of Any Sort
------------------------------------------------------------

/- The type of a binding is a wrapper, or the shape of one. -/
theorem Follows.wrapType
    (hHistory : IsHistory R)
    (hType : ∀ id cache,
      Follows R (wrapHostType table id) cache)
    (hNative : ∀ name cache,
      Follows R (synthesize (.native name)) cache)
    (hPointer : ∀ pointee cache,
      Follows R (pointerType pointee) cache)
    (binding : Binding)
    (cache : Cache) :
    Follows R (Cache.wrapType table binding) cache := by
  induction binding generalizing cache with
  | host id =>
      unfold Cache.wrapType
      exact hType id cache
  | generated binding =>
      rcases binding with ⟨element, family, name⟩
      cases family with
      | type =>
          unfold Cache.wrapType
          apply (Follows.inspect hHistory _ cache).bind hHistory
          intro data state _
          cases data.ty with
          | some ty => exact Follows.pure hHistory _ _
          | none => exact Follows.throw hHistory _ _
      | method =>
          unfold Cache.wrapType
          exact Follows.throw hHistory _ _
      | «variable» =>
          unfold Cache.wrapType
          exact Follows.throw hHistory _ _
  | generatedPackage name =>
      unfold Cache.wrapType
      exact Follows.throw hHistory _ _
  | nativeType name =>
      unfold Cache.wrapType
      exact hNative name cache
  | pointer pointee ih =>
      unfold Cache.wrapType
      apply (ih cache).bind hHistory
      intro ty state _
      exact hPointer ty state
  | pointerToUnbound =>
      unfold Cache.wrapType
      exact hPointer nullType cache

theorem Follows.wrapElement
    (hHistory : IsHistory R)
    (hHost : ∀ id cache,
      Follows R (wrapHostElement table id) cache)
    (hPackage : ∀ name cache,
      Follows R (packageElement name) cache)
    (binding : Binding)
    (cache : Cache) :
    Follows R (Cache.wrapElement table binding) cache := by
  unfold Cache.wrapElement
  cases binding with
  | host id => exact hHost id cache
  | generated binding =>
      apply (Follows.inspect hHistory _ cache).bind hHistory
      intro _ state _
      exact Follows.pure hHistory _ _
  | generatedPackage name => exact hPackage name cache
  | nativeType name => exact Follows.throw hHistory _ _
  | pointer pointee => exact Follows.throw hHistory _ _
  | pointerToUnbound => exact Follows.throw hHistory _ _

/- The family of an element is read once it is wrapped. -/
theorem Follows.wrapElementOf
    (hHistory : IsHistory R)
    {binding : Binding}
    {cache : Cache}
    (hElement : Follows R (Cache.wrapElement table binding)
      cache)
    (family : ElementFamily) :
    Follows R (Cache.wrapElementOf table family binding)
      cache := by
  unfold Cache.wrapElementOf
  apply hElement.bind hHistory
  intro element state _
  apply (Follows.inspect hHistory _ state).bind hHistory
  intro _ _ _
  exact Follows.pure hHistory _ _

end Cache

end Lowering
