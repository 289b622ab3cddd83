import Lowering.Cache.WrapType
import Lowering.Proofs.Cache.Change

/-
  This file proves that wrapping bindings as types only ever
  changes the cache in the ways that are allowed, however the
  wrapping ends.

  Wrapping follows the references of a binding before it makes
  the wrapper. That the wrapper is still not there afterwards
  is seen from what following references can make: wrappers of
  bindings that the references lead to, and nothing else. If
  the references are not circular, they do not lead back.

  Key definitions include:
    * `BindingTable.Consists`
    * `BindingTable.Declares`
    * `BindingTable.Acyclic`
    * `Cache.TypesMade`
    * `Cache.TypesOnly`

  Main results:
    * `Cache.follows_wrapHostType`
    * `Cache.follows_wrapExecutable`
    * `Cache.follows_synthesize`
    * `Cache.typeOf?_of_wrapHostType`
    * `Cache.executableOf?_of_wrapExecutable`
    * `Cache.shape?_of_synthesize`
-/

namespace Lowering

------------------------------------------------------------
-- References Of Bindings
------------------------------------------------------------

namespace BindingTable

/- A type binding names another as its component or a bound. -/
def Consists
    (table : BindingTable)
    (id part : BindingId) : Prop :=
  ∃ binding,
    table.get? id = some (.type binding) ∧
      (binding.component = some part ∨ part ∈ binding.bounds)

/- A binding names another as the one that declares it. -/
def Declares
    (table : BindingTable)
    (id owner : BindingId) : Prop :=
  (∃ binding,
    table.get? id = some (.type binding) ∧
      binding.declaring = some owner) ∨
  (∃ binding,
    table.get? id = some (.method binding) ∧
      binding.declaring = some owner) ∨
  (∃ binding,
    table.get? id = some (.variable binding) ∧
      binding.declaring = some owner)

/- No binding leads back to itself. -/
structure Acyclic (table : BindingTable) : Prop where
  consists : ∀ id, ¬ Relation.TransGen table.Consists id id
  declares : ∀ id, ¬ Relation.TransGen table.Declares id id

/- The fixed bindings of the value primitives. -/
theorem get?_primitive
    (table : BindingTable)
    (kind : PrimitiveKind) :
    table.get? (primitive kind) =
      some (.type (.primitive kind)) := by
  unfold BindingTable.get?
  cases kind <;> rfl

/- Bindings have handles below the size of the table. -/
theorem lt_size_of_get?
    {table : BindingTable}
    {id : BindingId}
    {host : HostBinding}
    (hGet : table.get? id = some host) :
    id.raw < table.size := by
  unfold BindingTable.get? at hGet
  unfold size
  split at hGet
  · omega
  · rcases Array.getElem?_eq_some_iff.mp hGet with ⟨hBound, _⟩
    omega

end BindingTable

------------------------------------------------------------
-- Steps
------------------------------------------------------------

section Steps

variable {α : Type} {R : Cache → Cache → Prop}

theorem finalState_inspect
    (question : Cache → Except CacheError α)
    (cache : Cache) :
    finalState (CacheM.inspect question cache) = cache := by
  unfold CacheM.inspect
  cases question cache <;> rfl

theorem finalState_fatal
    (operation : CacheM α)
    (cache : Cache) :
    finalState (CacheM.fatal operation cache) =
      finalState (operation cache) := by
  unfold CacheM.fatal EStateM.adaptExcept
  cases operation cache <;> rfl

theorem Follows.inspect
    (hHistory : IsHistory R)
    (question : Cache → Except CacheError α)
    (cache : Cache) :
    Follows R (CacheM.inspect question) cache := by
  unfold Follows
  rw [finalState_inspect]
  exact hHistory.refl cache

theorem Follows.fatal
    {operation : CacheM α}
    {cache : Cache}
    (hRun : Follows R operation cache) :
    Follows R (CacheM.fatal operation) cache := by
  unfold Follows at hRun ⊢
  rw [finalState_fatal]
  exact hRun

theorem Follows.consult
    (hHistory : IsHistory R)
    (answer : Except ContractViolation α)
    (cache : Cache) :
    Follows R (Cache.consult answer) cache := by
  cases answer with
  | ok answer => exact Follows.pure hHistory _ _
  | error cause => exact Follows.throw hHistory _ _

/- What follows a read of the state may use what was read. -/
theorem Follows.get
    (hHistory : IsHistory R)
    {next : Cache → CacheM α}
    {cache : Cache}
    (hNext : Follows R (next cache) cache) :
    Follows R (MonadState.get >>= next) cache := by
  have hRead : Follows R
      (MonadState.get : CacheM Cache) cache :=
    hHistory.refl cache
  apply hRead.bind hHistory
  intro answer state hRun
  cases hRun
  exact hNext

theorem run_consult_eq_ok
    {question : Except ContractViolation α}
    {cache cache' : Cache}
    {answer : α}
    (hRun : Cache.consult question cache = .ok answer cache') :
    question = .ok answer ∧ cache' = cache := by
  cases question with
  | ok found =>
      cases hRun
      exact ⟨rfl, rfl⟩
  | error cause => cases hRun

end Steps

namespace Cache

variable {strict : Prop}

------------------------------------------------------------
-- Making Types
------------------------------------------------------------

/- What was not found by its data is not there. -/
theorem fresh_of_findType?
    {cache : Cache}
    {property : TypeData → Bool}
    {data : TypeData}
    (hNone : cache.findType? property = none)
    (hHas : property data = true)
    (hFixed : data.origin = .synthetic →
      data.kind ≠ .noType ∧ data.kind ≠ .nullType)
    (ty : TypeId) :
    cache.type? ty ≠ some data := by
  intro hType
  unfold Cache.type? at hType
  split at hType
  · rw [← Option.some.inj hType] at hFixed
    exact (hFixed rfl).1 rfl
  · split at hType
    · rw [← Option.some.inj hType] at hFixed
      exact (hFixed rfl).2 rfl
    · rw [findType?_eq_none_iff.mp hNone _ _ hType] at hHas
      simp at hHas

/-
  Types were made of bindings from a set, and no element was
  made.
-/
structure TypesMade
    (strict : Prop)
    (ids : BindingId → Prop)
    (before after : Cache) : Prop where
  changes : Changes strict before after
  elements : after.elements = before.elements
  made : ∀ handle data,
    after.types.get? handle = some data →
      before.types.get? handle = some data ∨
        ∃ id, ids id ∧ data.origin = .host id ∧
          data.kind.isExecutable = false

theorem TypesMade.isHistory
    (strict : Prop)
    (ids : BindingId → Prop) :
    IsHistory (TypesMade strict ids) where
  refl cache := {
    changes := Relation.ReflTransGen.refl
    elements := rfl
    made := fun _ _ hType => Or.inl hType }
  trans hFirst hSecond := {
    changes := hFirst.changes.trans hSecond.changes
    elements := hSecond.elements.trans hFirst.elements
    made := by
      intro handle data hType
      rcases hSecond.made handle data hType with hOld | hNew
      · exact hFirst.made handle data hOld
      · exact Or.inr hNew }

theorem TypesMade.mono
    {ids ids' : BindingId → Prop}
    (hIds : ∀ id, ids id → ids' id)
    {before after : Cache}
    (hMade : TypesMade strict ids before after) :
    TypesMade strict ids' before after := by
  refine ⟨hMade.changes, hMade.elements, ?_⟩
  intro handle data hType
  rcases hMade.made handle data hType with
    hOld | ⟨id, hId, hData⟩
  · exact Or.inl hOld
  · exact Or.inr ⟨id, hIds id hId, hData⟩

/- Bindings outside of the set are as little wrapped as before. -/
theorem TypesMade.typeOf?_eq_none
    {ids : BindingId → Prop}
    {before after : Cache}
    {id : BindingId}
    (hMade : TypesMade strict ids before after)
    (hOutside : ¬ ids id)
    (hNone : before.typeOf? id = none) :
    after.typeOf? id = none := by
  rw [typeOf?_eq, findType?_eq_none_iff] at hNone ⊢
  intro handle data hType
  rcases hMade.made handle data hType with
    hOld | ⟨other, hOther, hOrigin, _⟩
  · exact hNone handle data hOld
  · have hNe : other ≠ id := by
      intro hEq
      exact hOutside (hEq ▸ hOther)
    simp [hOrigin, hNe]

/- Executable types are not made of type bindings. -/
theorem TypesMade.executableOf?_eq_none
    {ids : BindingId → Prop}
    {before after : Cache}
    {id : BindingId}
    (hMade : TypesMade strict ids before after)
    (hNone : before.executableOf? id = none) :
    after.executableOf? id = none := by
  rw [executableOf?_eq, findType?_eq_none_iff] at hNone ⊢
  intro handle data hType
  rcases hMade.made handle data hType with
    hOld | ⟨_, _, _, hKind⟩
  · exact hNone handle data hOld
  · simp [hKind]

theorem follows_intern
    (text : String)
    (cache : Cache) :
    Follows (Changes strict) (intern text) cache :=
  (Change.text cache text).changes

private theorem typesMade_intern
    (ids : BindingId → Prop)
    (text : String)
    (cache : Cache) :
    Follows (TypesMade strict ids) (intern text) cache where
  changes := follows_intern text cache
  elements := rfl
  made := fun _ _ hType => Or.inl hType

------------------------------------------------------------
-- Type Bindings
------------------------------------------------------------

/- The kind that a type binding prescribes is no method type. -/
private theorem isExecutable_kindOfType
    {table : BindingTable}
    {wrap : BindingId → CacheM TypeId}
    {id : BindingId}
    {binding : TypeBinding}
    {cache cache' : Cache}
    {kind : TypeKind}
    (hRun : kindOfType table wrap id binding cache =
      .ok kind cache') :
    kind.isExecutable = false := by
  have hMap : ∀ {α : Type} {operation : CacheM α}
      {build : α → TypeKind},
      (build <$> operation) cache = .ok kind cache' →
        ∃ answer, kind = build answer := by
    intro α operation build hMapped
    rw [map_eq_pure_bind] at hMapped
    rcases run_bind_eq_ok hMapped with ⟨answer, _, _, hPure⟩
    cases hPure
    exact ⟨answer, rfl⟩
  unfold kindOfType at hRun
  by_cases hArray : binding.flags.isArray = true
  · rw [if_pos hArray] at hRun
    cases hComponent : binding.component with
    | some component =>
        rw [hComponent] at hRun
        rcases hMap hRun with ⟨_, rfl⟩
        rfl
    | none =>
        rw [hComponent] at hRun
        cases hRun
  rw [if_neg hArray] at hRun
  split at hRun
  · rcases hMap hRun with ⟨_, rfl⟩
    rfl
  split at hRun
  · split at hRun
    · rcases hMap hRun with ⟨_, rfl⟩
      rfl
    split at hRun
    · cases hRun
      rfl
    cases hKind : primitiveOfBinaryName? binding.binaryName with
    | some primitive =>
        rw [hKind] at hRun
        cases hRun
        rfl
    | none =>
        rw [hKind] at hRun
        cases hRun
  split at hRun
  · rcases hMap hRun with ⟨_, rfl⟩
    rfl
  split at hRun
  · rcases hMap hRun with ⟨_, rfl⟩
    rfl
  · rcases hMap hRun with ⟨_, rfl⟩
    rfl

/- The binding of a value primitive prescribes that primitive. -/
theorem run_kindOfType_primitive
    (table : BindingTable)
    (wrap : BindingId → CacheM TypeId)
    (id : BindingId)
    (kind : PrimitiveKind)
    (cache : Cache) :
    kindOfType table wrap id (.primitive kind) cache =
      .ok (.primitive kind) cache := by
  cases kind <;> rfl

private theorem follows_kindOfType
    {table : BindingTable}
    {wrap : BindingId → CacheM TypeId}
    {ids : BindingId → Prop}
    {id : BindingId}
    {binding : TypeBinding}
    (hWrap : ∀ part,
      binding.component = some part ∨ part ∈ binding.bounds →
        ∀ cache, Follows (TypesMade strict ids) (wrap part) cache)
    (cache : Cache) :
    Follows (TypesMade strict ids)
      (kindOfType table wrap id binding) cache := by
  have hHistory := TypesMade.isHistory strict ids
  unfold kindOfType
  by_cases hArray : binding.flags.isArray = true
  · rw [if_pos hArray]
    cases hComponent : binding.component with
    | some component =>
        exact (hWrap component (Or.inl hComponent) cache).map
          hHistory _
    | none => exact Follows.throw hHistory _ _
  rw [if_neg hArray]
  split
  · apply Follows.map hHistory
    apply Follows.mapM hHistory
    intro part hMem state
    exact hWrap part (Or.inr hMem) state
  split
  · split
    · exact (typesMade_intern ids _ cache).map hHistory _
    split
    · exact Follows.pure hHistory _ _
    cases primitiveOfBinaryName? binding.binaryName with
    | some kind => exact Follows.pure hHistory _ _
    | none => exact Follows.throw hHistory _ _
  split
  · exact (typesMade_intern ids _ cache).map hHistory _
  split
  · apply Follows.map hHistory
    apply Follows.optionMapM hHistory
    intro part hPart state
    exact hWrap part (Or.inr (List.mem_of_head? hPart)) state
  · exact (typesMade_intern ids _ cache).map hHistory _

theorem typeBinding_eq_ok
    {table : BindingTable}
    {id : BindingId}
    {binding : TypeBinding}
    (hBinding : table.typeBinding id = .ok binding) :
    table.get? id = some (.type binding) := by
  unfold BindingTable.typeBinding at hBinding
  split at hBinding
  · next found hFound =>
    cases hBinding
    exact hFound
  · cases hBinding
  · cases hBinding

/-
  Wrapping a type binding makes types of what the binding
  consists of, and at last one of the binding itself. What it
  consists of is reached by one reference or more, and so it
  is not the binding itself.
-/
theorem follows_parts
    {table : BindingTable}
    {depth : Nat}
    {id : BindingId}
    {binding : TypeBinding}
    (hWithin : ∀ id cache, Follows
      (TypesMade strict
        (Relation.ReflTransGen table.Consists id))
      (wrapHostTypeWithin table depth id) cache)
    (hGet : table.get? id = some (.type binding))
    (cache : Cache) :
    Follows
      (TypesMade strict
        (Relation.TransGen table.Consists id))
      (kindOfType table (wrapHostTypeWithin table depth) id
        binding) cache := by
  apply follows_kindOfType
  intro part hPart state
  apply (hWithin part state).mono
  intro first second hMade
  apply hMade.mono
  intro other hReach
  exact Relation.TransGen.head' ⟨binding, hGet, hPart⟩ hReach

theorem follows_wrapHostTypeWithin
    {table : BindingTable}
    (hAcyclic : strict → table.Acyclic)
    (depth : Nat)
    (id : BindingId)
    (cache : Cache) :
    Follows
      (TypesMade strict
        (Relation.ReflTransGen table.Consists id))
      (wrapHostTypeWithin table depth id) cache := by
  induction depth generalizing id cache with
  | zero => exact Follows.throw (TypesMade.isHistory _ _) _ _
  | succ depth ih =>
      have hHistory := TypesMade.isHistory strict
        (Relation.ReflTransGen table.Consists id)
      unfold wrapHostTypeWithin
      apply Follows.get hHistory
      cases hFound : cache.typeOf? id with
      | some ty => exact Follows.pure hHistory _ _
      | none =>
          simp only []
          apply (Follows.consult hHistory _ cache).bind hHistory
          intro binding cache₁ hConsult
          rcases run_consult_eq_ok hConsult with
            ⟨hBinding, hSame⟩
          have hGet := typeBinding_eq_ok hBinding
          rw [hSame]
          have hParts := follows_parts ih hGet cache
          have hParts' := hParts.mono fun first second hMade =>
            hMade.mono fun other hReach => hReach.to_reflTransGen
          apply Follows.bind hHistory hParts'
          intro kind cache₂ hKind
          replace hParts := hParts.run_ok hKind
          have hExecutable := isExecutable_kindOfType hKind
          refine ⟨?_, rfl, ?_⟩
          · apply Change.changes
            apply Change.type
            · intro hStrict
              have hNotSelf :=
                (hAcyclic hStrict).consists id
              have hNone := hParts.typeOf?_eq_none hNotSelf hFound
              rw [typeOf?_eq] at hNone
              apply fresh_of_findType? hNone
              · simp [hExecutable]
              · intro hOrigin
                cases hOrigin
            · intro element hOrigin
              cases hOrigin
            · intro primitive hOrigin
              cases hOrigin
              rw [table.get?_primitive primitive] at hGet
              cases hGet
              rw [run_kindOfType_primitive] at hKind
              cases hKind
              rfl
          · intro handle data hType
            change (cache₂.types.push _).get? handle = _ at hType
            rw [Generation.get?_push] at hType
            split at hType
            · right
              rw [← Option.some.inj hType]
              exact ⟨id, Relation.ReflTransGen.refl, rfl,
                hExecutable⟩
            · exact Or.inl hType

/- A type that was made because it was not there is found. -/
theorem findType?_addType
    {cache : Cache}
    {property : TypeData → Bool}
    {kind : TypeKind}
    {origin : TypeOrigin}
    {cache' : Cache}
    {ty : TypeId}
    (hNone : cache.findType? property = none)
    (hHas : property ⟨kind, origin⟩ = true)
    (hRun : addType kind origin cache = .ok ty cache') :
    cache'.findType? property = some ty := by
  unfold findType? at hNone ⊢
  rw [Option.map_eq_none_iff] at hNone
  cases hRun
  rw [types_pushType, Generation.find?_push hNone hHas,
    Option.map_some]

/-
  The type that wraps a binding is found by the binding, to
  whatever depth references were followed.
-/
theorem typeOf?_of_wrapHostTypeWithin
    {table : BindingTable}
    (hAcyclic : table.Acyclic)
    {depth : Nat}
    {id : BindingId}
    {cache cache' : Cache}
    {ty : TypeId}
    (hRun : wrapHostTypeWithin table depth id cache =
      .ok ty cache') :
    cache'.typeOf? id = some ty := by
  cases depth with
  | zero => cases hRun
  | succ depth =>
      unfold wrapHostTypeWithin at hRun
      rcases run_bind_eq_ok hRun with ⟨_, _, hRead, hRun⟩
      cases hRead
      cases hFound : cache.typeOf? id with
      | some found =>
          simp only [hFound] at hRun
          cases hRun
          exact hFound
      | none =>
          simp only [hFound] at hRun
          rcases run_bind_eq_ok hRun with
            ⟨binding, cache, hConsult, hNext⟩
          rcases run_consult_eq_ok hConsult with ⟨hBinding, rfl⟩
          rcases run_bind_eq_ok hNext with
            ⟨kind, cache₁, hKind, hAdd⟩
          have hStrict : True → table.Acyclic := fun _ => hAcyclic
          have hParts := follows_parts
            (follows_wrapHostTypeWithin hStrict depth)
            (typeBinding_eq_ok hBinding) cache
          replace hParts := hParts.run_ok hKind
          have hNone := hParts.typeOf?_eq_none
            (hAcyclic.consists id) hFound
          rw [typeOf?_eq] at hNone ⊢
          apply findType?_addType hNone ?_ hAdd
          simp [isExecutable_kindOfType hKind]

theorem typeOf?_of_wrapHostType
    {table : BindingTable}
    (hAcyclic : table.Acyclic)
    {id : BindingId}
    {cache cache' : Cache}
    {ty : TypeId}
    (hRun : wrapHostType table id cache = .ok ty cache') :
    cache'.typeOf? id = some ty :=
  typeOf?_of_wrapHostTypeWithin hAcyclic hRun

theorem follows_wrapHostType
    {table : BindingTable}
    (hAcyclic : strict → table.Acyclic)
    (id : BindingId)
    (cache : Cache) :
    Follows (TypesMade strict fun _ => True)
      (wrapHostType table id) cache :=
  (follows_wrapHostTypeWithin hAcyclic _ id cache).mono
    fun _ _ hMade => hMade.mono fun _ _ => trivial

------------------------------------------------------------
-- Method Bindings
------------------------------------------------------------

/- The cache changed, but none of its elements did. -/
structure TypesOnly
    (strict : Prop)
    (before after : Cache) : Prop where
  changes : Changes strict before after
  elements : after.elements = before.elements

theorem TypesOnly.isHistory (strict : Prop) :
    IsHistory (TypesOnly strict) where
  refl := fun _ => ⟨Relation.ReflTransGen.refl, rfl⟩
  trans := fun hFirst hSecond =>
    ⟨hFirst.changes.trans hSecond.changes,
      hSecond.elements.trans hFirst.elements⟩

theorem TypesMade.typesOnly
    {ids : BindingId → Prop}
    {before after : Cache}
    (hMade : TypesMade strict ids before after) :
    TypesOnly strict before after :=
  ⟨hMade.changes, hMade.elements⟩

theorem typesOnly_intern
    (text : String)
    (cache : Cache) :
    Follows (TypesOnly strict) (intern text) cache :=
  ⟨follows_intern text cache, rfl⟩

theorem typesOnly_wrapHostType
    {table : BindingTable}
    (hAcyclic : strict → table.Acyclic)
    (id : BindingId)
    (cache : Cache) :
    Follows (TypesOnly strict) (wrapHostType table id) cache :=
  (follows_wrapHostType hAcyclic id cache).mono
    fun _ _ hMade => hMade.typesOnly

/- A type that is not there can be made. -/
theorem typesOnly_addType
    {cache : Cache}
    {property : TypeData → Bool}
    {kind : TypeKind}
    {origin : TypeOrigin}
    (hNone : cache.findType? property = none)
    (hHas : property ⟨kind, origin⟩ = true)
    (hFixed : origin = .synthetic →
      kind ≠ .noType ∧ kind ≠ .nullType)
    (hUnowned : ∀ element, origin ≠ .generated element)
    (hSpelled : ∀ primitive,
      origin = .host (BindingTable.primitive primitive) →
        kind = .primitive primitive) :
    Follows (TypesOnly strict) (addType kind origin) cache := by
  refine ⟨?_, rfl⟩
  apply Change.changes
  apply Change.type
  · intro _
    exact fresh_of_findType? hNone hHas hFixed
  · exact hUnowned
  · exact hSpelled

theorem methodBinding_eq_ok
    {table : BindingTable}
    {id : BindingId}
    {binding : MethodBinding}
    (hBinding : table.methodBinding id = .ok binding) :
    table.get? id = some (.method binding) := by
  unfold BindingTable.methodBinding at hBinding
  split at hBinding
  · next found hFound =>
    cases hBinding
    exact hFound
  · cases hBinding

theorem wrapReturnType_of_type
    {J : (α : Type) → CacheM α → Cache → Prop}
    {table : BindingTable}
    (hJ : Composes J)
    (hType : ∀ id cache, J TypeId (wrapHostType table id) cache)
    (binding : MethodBinding)
    (cache : Cache) :
    J TypeId (wrapReturnType table binding) cache := by
  unfold wrapReturnType
  cases binding.returnType with
  | none => exact hJ.pure _ _
  | some type => exact hType type cache

theorem follows_signature
    {table : BindingTable}
    (hAcyclic : strict → table.Acyclic)
    (binding : MethodBinding)
    (cache : Cache) :
    Follows (TypesMade strict fun _ => True)
      (binding.parameterTypes.mapM (wrapHostType table))
      cache ∧
      Follows (TypesMade strict fun _ => True)
        (wrapReturnType table binding) cache := by
  have hHistory := TypesMade.isHistory strict fun _ => True
  constructor
  · apply Follows.mapM hHistory
    intro param _ state
    exact follows_wrapHostType hAcyclic param state
  · exact wrapReturnType_of_type (Follows.composes hHistory)
      (follows_wrapHostType hAcyclic) binding cache

/- Wrapping a method binding makes no element. -/
theorem follows_wrapExecutable
    {table : BindingTable}
    (hAcyclic : strict → table.Acyclic)
    (id : BindingId)
    (cache : Cache) :
    Follows (TypesOnly strict) (wrapExecutable table id)
      cache := by
  have hHistory := TypesOnly.isHistory strict
  have hMade := TypesMade.isHistory strict fun _ => True
  unfold wrapExecutable
  apply Follows.get hHistory
  cases hFound : cache.executableOf? id with
  | some ty => exact Follows.pure hHistory _ _
  | none =>
      simp only []
      apply (Follows.consult hHistory _ cache).bind hHistory
      intro binding cache₁ hConsult
      rcases run_consult_eq_ok hConsult with ⟨hBinding, rfl⟩
      have hGet := methodBinding_eq_ok hBinding
      have hParams :=
        (follows_signature hAcyclic binding cache₁).1
      apply (hParams.mono fun _ _ made => made.typesOnly).bind
        hHistory
      intro params cache₂ hRunParams
      have hReturn :=
        (follows_signature hAcyclic binding cache₂).2
      apply (hReturn.mono fun _ _ made => made.typesOnly).bind
        hHistory
      intro returnType cache₃ hRunReturn
      replace hParams := hParams.run_ok hRunParams
      replace hReturn := hReturn.run_ok hRunReturn
      have hNone := (hMade.trans hParams
        hReturn).executableOf?_eq_none hFound
      rw [executableOf?_eq] at hNone
      apply typesOnly_addType hNone
      · simp [TypeKind.isExecutable]
      · intro hOrigin
        cases hOrigin
      · intro element hOrigin
        cases hOrigin
      · intro primitive hOrigin
        cases hOrigin
        rw [table.get?_primitive primitive] at hGet
        cases hGet

/- The executable type of a method is found by its binding. -/
theorem executableOf?_of_wrapExecutable
    {table : BindingTable}
    {id : BindingId}
    {cache cache' : Cache}
    {ty : TypeId}
    (hRun : wrapExecutable table id cache = .ok ty cache') :
    cache'.executableOf? id = some ty := by
  unfold wrapExecutable at hRun
  rcases run_bind_eq_ok hRun with ⟨_, _, hRead, hRun⟩
  cases hRead
  cases hFound : cache.executableOf? id with
  | some found =>
      simp only [hFound] at hRun
      cases hRun
      exact hFound
  | none =>
      simp only [hFound] at hRun
      rcases run_bind_eq_ok hRun with
        ⟨binding, cache, hConsult, hNext⟩
      rcases run_consult_eq_ok hConsult with ⟨_, rfl⟩
      rcases run_bind_eq_ok hNext with
        ⟨params, cache₁, hRunParams, hLast⟩
      rcases run_bind_eq_ok hLast with
        ⟨returnType, cache₂, hRunReturn, hAdd⟩
      have hLoose : False → table.Acyclic := False.elim
      have hParams :=
        (follows_signature hLoose binding cache).1
      have hReturn :=
        (follows_signature hLoose binding cache₁).2
      replace hParams := hParams.run_ok hRunParams
      replace hReturn := hReturn.run_ok hRunReturn
      have hNone := ((TypesMade.isHistory _ _).trans hParams
        hReturn).executableOf?_eq_none hFound
      rw [executableOf?_eq] at hNone ⊢
      apply findType?_addType hNone ?_ hAdd
      simp [TypeKind.isExecutable]

------------------------------------------------------------
-- Synthetic Types
------------------------------------------------------------

/- A shape that is not fixed is made when it is not there. -/
theorem follows_synthesize
    {kind : TypeKind}
    (hNoType : kind ≠ .noType)
    (hNullType : kind ≠ .nullType)
    (cache : Cache) :
    Follows (TypesOnly strict) (synthesize kind) cache := by
  have hHistory := TypesOnly.isHistory strict
  unfold synthesize
  apply Follows.get hHistory
  cases hFound : cache.shapes.get? kind with
  | some ty => exact Follows.pure hHistory _ _
  | none =>
      rw [shape?_eq] at hFound
      apply typesOnly_addType hFound
      · simp
      · intro _
        exact ⟨hNoType, hNullType⟩
      · intro element hOrigin
        cases hOrigin
      · intro primitive hOrigin
        cases hOrigin

/- A shape is found once it was made. -/
theorem shape?_of_synthesize
    {kind : TypeKind}
    {cache cache' : Cache}
    {ty : TypeId}
    (hRun : synthesize kind cache = .ok ty cache') :
    cache'.shapes.get? kind = some ty := by
  unfold synthesize at hRun
  rcases run_bind_eq_ok hRun with ⟨_, _, hRead, hRun⟩
  cases hRead
  cases hFound : cache.shapes.get? kind with
  | some found =>
      simp only [hFound] at hRun
      cases hRun
      exact hFound
  | none =>
      simp only [hFound] at hRun
      rw [shape?_eq] at hFound ⊢
      apply findType?_addType hFound ?_ hRun
      simp

/- A shape always gets a type. -/
theorem exists_of_synthesize
    {cache : Cache}
    (hBase : 2 ≤ cache.types.base)
    (kind : TypeKind)
    (hNoType : kind ≠ .noType)
    (hNullType : kind ≠ .nullType) :
    ∃ ty after,
      synthesize kind cache = .ok ty after ∧
        Grown cache after ∧
        after.type? ty = some ⟨kind, .synthetic⟩ := by
  have hAnswer : ∃ ty after,
      synthesize kind cache = .ok ty after := by
    unfold synthesize
    rw [run_bind_ok (run_get cache)]
    cases cache.shapes.get? kind with
    | some ty => exact ⟨_, _, rfl⟩
    | none => exact ⟨_, _, rfl⟩
  rcases hAnswer with ⟨ty, after, hRun⟩
  have hMade : Follows (TypesOnly False) (synthesize kind)
      cache := follows_synthesize hNoType hNullType cache
  have hGrown := (hMade.run_ok hRun).changes.grown
  refine ⟨ty, after, hRun, hGrown, ?_⟩
  apply (type?_eq_some_iff (hGrown.types.base ▸ hBase)).mpr
  exact Or.inr (Or.inr (get?_of_shape? (shape?_of_synthesize hRun)))

theorem follows_nativeType
    (text : String)
    (cache : Cache) :
    Follows (TypesOnly strict) (nativeType text) cache := by
  have hHistory := TypesOnly.isHistory strict
  unfold nativeType
  apply (typesOnly_intern text cache).bind hHistory
  intro name state _
  exact follows_synthesize (by simp) (by simp) state

theorem follows_pointerType
    (pointee : TypeId)
    (cache : Cache) :
    Follows (TypesOnly strict) (pointerType pointee) cache :=
  follows_synthesize (by simp) (by simp) cache

theorem follows_syntheticArrayType
    (component : TypeId)
    (cache : Cache) :
    Follows (TypesOnly strict) (syntheticArrayType component)
      cache :=
  follows_synthesize (by simp) (by simp) cache

/-
  The binding of a value primitive is wrapped without
  following any reference.
-/
theorem run_wrapHostType_primitive
    (table : BindingTable)
    (kind : PrimitiveKind)
    (cache : Cache) :
    ∃ ty cache',
      wrapHostType table (BindingTable.primitive kind) cache =
          .ok ty cache' ∧
        cache'.typeOf? (BindingTable.primitive kind) =
          some ty := by
  unfold wrapHostType wrapHostTypeWithin
  rw [run_bind_ok (run_get cache)]
  cases hFound : cache.typeOf? (BindingTable.primitive kind) with
  | some ty => exact ⟨ty, cache, rfl, hFound⟩
  | none =>
      have hBinding : consult
          (table.typeBinding (BindingTable.primitive kind))
            cache = .ok (.primitive kind) cache := by
        unfold BindingTable.typeBinding
        rw [table.get?_primitive kind]
        rfl
      simp only []
      rw [run_bind_ok hBinding,
        run_bind_ok (run_kindOfType_primitive _ _ _ _ _)]
      refine ⟨_, _, rfl, ?_⟩
      rw [typeOf?_eq] at hFound ⊢
      apply findType?_addType hFound ?_ rfl
      simp [TypeKind.isExecutable]

theorem run_primitiveType
    (table : BindingTable)
    (kind : PrimitiveKind)
    (cache : Cache) :
    ∃ ty cache',
      primitiveType table kind cache = .ok ty cache' ∧
        cache'.typeOf? (BindingTable.primitive kind) =
          some ty := by
  rcases run_wrapHostType_primitive table kind cache with
    ⟨ty, cache', hRun, hFound⟩
  exact ⟨ty, cache', run_fatal_ok hRun, hFound⟩

theorem follows_primitiveType
    {table : BindingTable}
    (hAcyclic : strict → table.Acyclic)
    (kind : PrimitiveKind)
    (cache : Cache) :
    Follows (TypesOnly strict) (primitiveType table kind)
      cache :=
  (typesOnly_wrapHostType hAcyclic _ cache).fatal

end Cache

end Lowering
