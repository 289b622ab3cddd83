import Lowering.Proofs.Binding.Arrays
import Lowering.Proofs.Symbols.Methods

/-
  This file proves what runtime members lowering chooses, and
  that they can always be made: a method by its class and its
  selector, the field for the size of the arrays of a class,
  and the array type over `int`.

  Key definitions include:
    * `Symbols.Titled`

  Main results:
    * `Symbols.run_runtimeMethod`
    * `Symbols.chooses_runtimeMethod`
    * `Symbols.chooses_sizeField`
    * `Symbols.chooses_intArrayType`
-/

namespace Lowering

namespace Cache

private theorem run_newField
    (text : String)
    (ty : TypeId)
    (declaring : ElementId)
    (cache : Cache) :
    ∃ field data after,
      newField text ty declaring .onlyPublic cache =
          .ok field after ∧
        after.elements.get? field.raw = some data ∧
        after.names.text? data.name = some text := by
  refine ⟨_, _, _, rfl, Generation.get?_push_next _ _, ?_⟩
  exact Interner.text?_of_find? (Interner.find?_intern _ _)

end Cache

------------------------------------------------------------
-- Members
------------------------------------------------------------

namespace Symbols

variable {symbols : Symbols} {safe : Prop}

/- Work on the members, from what it does to them. -/
theorem run_onMembers
    {α : Type}
    {operation :
      RuntimeMembers → CacheM (α × RuntimeMembers)}
    {answer : α}
    {members : RuntimeMembers}
    {cache : Cache}
    (hRun : operation symbols.env.members symbols.cache =
      .ok (answer, members) cache) :
    onMembers operation symbols =
      .ok answer ⟨cache, { symbols.env with members }⟩ := by
  have hEnv : environment symbols =
      .ok symbols.env symbols := rfl
  unfold onMembers
  rw [run_bind_ok hEnv, run_bind_ok (run_liftCache_ok hRun)]
  rfl

/-
  Work on the members is a choice if it has an answer, only
  adds members, and names the fields for sizes so.
-/
private theorem chooses_onMembers
    {α : Type}
    (hReady : symbols.Ready)
    {operation :
      RuntimeMembers → CacheM (α × RuntimeMembers)}
    {answer : α}
    {members : RuntimeMembers}
    {cache : Cache}
    {lookup : Symbols → Option α}
    (hRun : operation symbols.env.members symbols.cache =
      .ok (answer, members) cache)
    (hChanges : Follows (Cache.Changes False)
      (operation symbols.env.members) symbols.cache)
    (hMethods : ∀ key method,
      symbols.env.members.methods.lookup key = some method →
        members.methods.lookup key = some method)
    (hSizes : ∀ cls field,
      symbols.env.members.sizeFields.lookup cls = some field →
        members.sizeFields.lookup cls = some field)
    (hNamed : ∀ cls field,
      members.sizeFields.lookup cls = some field →
        symbols.env.members.sizeFields.lookup cls =
            some field ∨
          ∃ data,
            cache.elements.get? field.raw = some data ∧
              cache.names.text? data.name = some "size")
    (hLookup : lookup ⟨cache, { symbols.env with members }⟩ =
      some answer) :
    Chooses safe (onMembers operation) symbols lookup := by
  replace hChanges := hChanges.run_ok hRun
  have hGrown := hChanges.grown
  have hReady' := hReady.ofCache
    (hChanges.sound hReady.sound) hGrown
  refine Completes.of_ok (run_onMembers hRun) ⟨?_, ?_, hLookup⟩
  · exact {
      cache := hGrown
      primitiveArrays := rfl
      objectArray := rfl
      iosClass := rfl
      idType := rfl
      methods := hMethods
      sizeFields := hSizes }
  · refine ⟨hReady'.sound, hReady'.primitiveArrays,
      hReady'.objectArray, hReady'.iosClass, ?_⟩
    intro cls field hField
    rcases hNamed cls field hField with hOld | hNew
    · exact hReady'.sizeFields cls field hOld
    · exact hNew

/- Adding to an association list hides none of its keys. -/
private theorem lookup_cons_of_none
    {α β : Type}
    [BEq α]
    [LawfulBEq α]
    {items : List (α × β)}
    {key other : α}
    {value found : β}
    (hNone : items.lookup key = none)
    (hFound : items.lookup other = some found) :
    ((key, value) :: items).lookup other = some found := by
  rw [List.lookup_cons]
  by_cases hEq : other = key
  · rw [hEq, hNone] at hFound
    exact absurd hFound (by simp)
  · rw [beq_eq_false_iff_ne.mpr hEq]
    exact hFound

/- A method is that of its class and its selector. -/
theorem chooses_runtimeMethod
    (hReady : symbols.Ready)
    (cls : ElementId)
    (selector : String)
    (returnType : TypeId)
    (modifiers : Modifiers)
    (params : List (String × TypeId)) :
    Chooses safe
      (runtimeMethod cls selector returnType modifiers params)
      symbols (·.method? cls selector) := by
  have hChanges : Follows (Cache.Changes False)
      (symbols.env.members.method cls selector returnType
        modifiers params) symbols.cache :=
    Cache.follows_method _ _ _ _ _ _ _
  rcases Cache.run_method symbols.env.members cls selector
      returnType modifiers params symbols.cache with
    ⟨name, method, members, cache, hRun, _, hName, hCases⟩
  rcases hCases with
    ⟨hFound, rfl⟩ | ⟨hNone, rfl, _, _⟩
  · apply chooses_onMembers hReady hRun hChanges
    · exact fun _ _ hOld => hOld
    · exact fun _ _ hOld => hOld
    · exact fun _ _ hOld => Or.inl hOld
    · unfold method? name?
      simp only [hName]
      exact hFound
  · apply chooses_onMembers hReady hRun hChanges
    · intro key other hOld
      exact lookup_cons_of_none hNone hOld
    · exact fun _ _ hOld => hOld
    · exact fun _ _ hOld => Or.inl hOld
    · unfold method? name?
      simp only [hName]
      exact List.lookup_cons_self

/-
  When a method was asked for, the methods that are recorded
  are those from before and, if it is new, that method.
-/
theorem run_runtimeMethod
    (symbols : Symbols)
    (cls : ElementId)
    (selector : String)
    (returnType : TypeId)
    (modifiers : Modifiers)
    (params : List (String × TypeId)) :
    ∃ method after,
      runtimeMethod cls selector returnType modifiers params
          symbols = .ok method after ∧
        symbols.cache.Adds after.cache ∧
        ∀ cls' name found,
          after.env.members.methods.lookup (cls', name) =
              some found →
            symbols.env.members.methods.lookup (cls', name) =
                some found ∨
              cls' = cls ∧
                after.text? name = some selector ∧
                after.cache.IsMethodOf found cls selector ∧
                after.cache.parameterTypes? found =
                  some (params.map (·.2)) := by
  rcases Cache.run_method symbols.env.members cls selector
      returnType modifiers params symbols.cache with
    ⟨name, method, members, cache, hRun, hAdds, hName, hCases⟩
  refine ⟨method, _, run_onMembers hRun, hAdds, ?_⟩
  intro cls' other found hFound
  rcases hCases with ⟨_, rfl⟩ | ⟨_, rfl, hIs, hParams⟩
  · exact Or.inl hFound
  have hAll : List.lookup (cls', other)
      (((cls, name), method) ::
        symbols.env.members.methods) = some found := hFound
  rw [List.lookup_cons] at hAll
  split at hAll
  · next hKey =>
    rw [beq_iff_eq, Prod.mk.injEq] at hKey
    rcases hKey with ⟨rfl, rfl⟩
    cases hAll
    exact Or.inr ⟨rfl, Interner.text?_of_find? hName, hIs,
      hParams⟩
  · exact Or.inl hAll

/- No method is recorded when a field for a size is asked for. -/
theorem run_sizeField
    (symbols : Symbols)
    (table : BindingTable)
    (cls : ElementId) :
    ∃ field after,
      sizeField table cls symbols = .ok field after ∧
        symbols.cache.Adds after.cache ∧
        after.env.members.methods =
          symbols.env.members.methods := by
  have hRun : ∃ field members cache,
      symbols.env.members.sizeField table cls symbols.cache =
          .ok (field, members) cache ∧
        symbols.cache.Adds cache ∧
        members.methods = symbols.env.members.methods := by
    unfold RuntimeMembers.sizeField
    cases symbols.env.members.sizeFields.lookup cls with
    | some field =>
        exact ⟨field, _, _, rfl,
          Cache.Adds.isHistory.refl _, rfl⟩
    | none =>
        rcases Cache.run_primitiveType table .int
            symbols.cache with ⟨int, typed, hInt, _⟩
        have hTyped := ((@Cache.follows_primitiveType False
          table False.elim .int symbols.cache).run_ok
            hInt).adds
        have hChanges := @Cache.follows_newField False "size"
          int cls .onlyPublic typed
        unfold Environment.intType
        simp only []
        rw [run_bind_ok hInt]
        exact ⟨_, _, _, rfl,
          Cache.Adds.isHistory.trans hTyped
            ⟨hChanges.run_ok rfl,
              Generation.Grown.push (fun _ => rfl) _ _⟩, rfl⟩
  rcases hRun with
    ⟨field, members, cache, hRun, hAdds, hMethods⟩
  exact ⟨field, _, run_onMembers hRun, hAdds, hMethods⟩

/- The field for the size of the arrays of a class. -/
theorem chooses_sizeField
    (hReady : symbols.Ready)
    (table : BindingTable)
    (cls : ElementId) :
    Chooses safe (sizeField table cls) symbols
      (·.sizeField? cls) := by
  have hHistory := Cache.Changes.isHistory False
  unfold sizeField
  cases hFound : symbols.env.members.sizeFields.lookup cls with
  | some field =>
      have hRun : symbols.env.members.sizeField table cls
          symbols.cache =
            .ok (field, symbols.env.members) symbols.cache := by
        unfold RuntimeMembers.sizeField
        simp only [hFound]
        rfl
      apply chooses_onMembers hReady hRun
      · exact .of_ok hRun (hHistory.refl _)
      · exact fun _ _ hOld => hOld
      · exact fun _ _ hOld => hOld
      · exact fun _ _ hOld => Or.inl hOld
      · exact hFound
  | none =>
      rcases Cache.run_primitiveType table .int symbols.cache with
        ⟨int, typed, hInt, _⟩
      rcases Cache.run_newField "size" int cls typed with
        ⟨field, data, cache, hField, hData, hText⟩
      have hRun : symbols.env.members.sizeField table cls
          symbols.cache =
            .ok (field, { symbols.env.members with
              sizeFields := (cls, field) ::
                symbols.env.members.sizeFields }) cache := by
        unfold RuntimeMembers.sizeField Environment.intType
        simp only [hFound]
        rw [run_bind_ok hInt, run_bind_ok hField]
        rfl
      apply chooses_onMembers hReady hRun
      · unfold RuntimeMembers.sizeField Environment.intType
        simp only [hFound]
        apply ((Cache.follows_primitiveType False.elim .int
          _).mono fun _ _ hOnly => hOnly.changes).bind hHistory
        intro int' typed' _
        apply (Cache.follows_newField "size" int' cls _
          typed').bind hHistory
        intro _ _ _
        exact Follows.pure hHistory _ _
      · exact fun _ _ hOld => hOld
      · intro other found hOld
        exact lookup_cons_of_none hFound hOld
      · intro other found hNew
        rw [List.lookup_cons] at hNew
        split at hNew
        · cases hNew
          exact Or.inr ⟨data, hData, hText⟩
        · exact Or.inl hNew
      · exact List.lookup_cons_self

------------------------------------------------------------
-- Titles
------------------------------------------------------------

/- Each method is recorded under its class and its selector. -/
def Titled (symbols : Symbols) : Prop :=
  ∀ cls name method,
    symbols.env.members.methods.lookup (cls, name) =
        some method →
      ∃ selector,
        symbols.text? name = some selector ∧
          symbols.cache.IsMethodOf method cls selector

------------------------------------------------------------
-- Arrays Over The Primitive `int`
------------------------------------------------------------

theorem get?_of_findArrayOf?
    {table : BindingTable}
    {component id : BindingId}
    (hFound : table.findArrayOf? component = some id) :
    ∃ binding,
      table.get? id = some (.type binding) ∧
        binding.flags.isArray = true ∧
        binding.component = some component :=
  (BindingTable.findArrayOf?_eq_some_iff.mp hFound).isArray

/-
  The binding of an array is wrapped at once if its component
  was wrapped before.
-/
private theorem run_wrapHostType_array
    {table : BindingTable}
    {component id : BindingId}
    {cache : Cache}
    {ty : TypeId}
    (hFound : table.findArrayOf? component = some id)
    (hComponent : cache.typeOf? component = some ty) :
    ∃ array after,
      Cache.wrapHostType table id cache = .ok array after ∧
        after.typeOf? id = some array := by
  rcases get?_of_findArrayOf? hFound with
    ⟨binding, hAt, hIsArray, hOver⟩
  unfold Cache.wrapHostType Cache.wrapHostTypeWithin
  rw [run_bind_ok (run_get cache)]
  cases hKnown : cache.typeOf? id with
  | some array => exact ⟨array, cache, rfl, hKnown⟩
  | none =>
      have hBinding : Cache.consult (table.typeBinding id)
          cache = .ok binding cache := by
        unfold BindingTable.typeBinding
        rw [hAt]
        rfl
      have hSize : table.size = table.size - 1 + 1 := by
        have hFixed : 0 < table.size := by
          unfold BindingTable.size
          exact Nat.lt_of_lt_of_le (by decide)
            (Nat.le_add_right _ _)
        omega
      have hWrap : Cache.wrapHostTypeWithin table table.size
          component cache = .ok ty cache := by
        rw [hSize]
        unfold Cache.wrapHostTypeWithin
        rw [run_bind_ok (run_get cache)]
        simp only [hComponent]
        rfl
      have hMade : Cache.kindOfType table
          (Cache.wrapHostTypeWithin table table.size) id
            binding cache = .ok (.array ty) cache := by
        unfold Cache.kindOfType
        simp only [hIsArray, if_true, hOver]
        rw [map_eq_pure_bind, run_bind_ok hWrap]
        rfl
      simp only []
      rw [run_bind_ok hBinding, run_bind_ok hMade]
      refine ⟨_, _, rfl, ?_⟩
      rw [Cache.typeOf?_eq] at hKnown ⊢
      apply Cache.findType?_addType hKnown ?_ rfl
      simp [TypeKind.isExecutable]

/- The type of a value primitive is bound to that primitive. -/
theorem Ready.typeBindingOfType_primitive
    (hReady : symbols.Ready)
    (table : BindingTable)
    {kind : PrimitiveKind}
    {ty : TypeId}
    (hFound : symbols.primitiveType? kind = some ty) :
    symbols.cache.typeBindingOfType table ty =
      .ok (some (.host (BindingTable.primitive kind))) := by
  rcases hReady.kind?_of_primitiveType? hFound with
    ⟨data, hType, hKind, hOrigin⟩
  have hWithin : symbols.cache.bindingOfType table ty =
      .ok (some (.host (BindingTable.primitive kind))) := by
    unfold Cache.bindingOfType Cache.bindingOfTypeWithin
      Cache.typeData
    rw [hType]
    rcases data with ⟨kind, origin⟩
    cases hKind
    cases hOrigin
    rfl
  unfold Cache.typeBindingOfType
  rw [hWithin]
  show Except.ok (Option.filter _ _) = _
  unfold Cache.standsForType
  simp [BindingTable.get?_primitive]

/- The array type over `int`. -/
theorem chooses_intArrayType
    (hReady : symbols.Ready)
    (table : BindingTable)
    {int : TypeId}
    (hInt : symbols.primitiveType? .int = some int) :
    Chooses safe
      (Environment.arrayType table int : CacheM TypeId)
      symbols (·.intArrayType? table int) := by
  have hBinding := hReady.typeBindingOfType_primitive table hInt
  have hAsk : CacheM.fatal
      (CacheM.inspect (·.typeBindingOfType table int))
        symbols.cache = .ok _ symbols.cache :=
    run_fatal_ok (run_inspectCache_ok hBinding)
  cases hFound :
      table.findArrayOf? (BindingTable.primitive .int) with
  | some id =>
      rcases run_wrapHostType_array hFound hInt with
        ⟨array, cache, hWrap, hArray⟩
      have hRun : Environment.arrayType table int
          symbols.cache = .ok array cache := by
        unfold Environment.arrayType
        rw [run_bind_ok hAsk]
        simp only [hFound]
        exact run_fatal_ok hWrap
      apply Chooses.ofCache hReady hRun
      · have hChanges : Follows (Cache.Changes False)
            (Cache.wrapHostType table id) symbols.cache :=
          (Cache.follows_wrapHostType False.elim id _).mono
            fun _ _ hOnly => hOnly.changes
        exact .of_ok hRun (hChanges.run_ok hWrap)
      · unfold intArrayType?
        simp only [hFound]
        exact hArray
  | none =>
      rcases run_synthesize (.array int) symbols.cache with
        ⟨array, cache, hMade⟩
      have hRun : Environment.arrayType table int
          symbols.cache = .ok array cache := by
        unfold Environment.arrayType
        rw [run_bind_ok hAsk]
        simp only [hFound]
        exact hMade
      apply Chooses.ofCache hReady hRun
      · have hChanges : Follows (Cache.Changes False)
            (Cache.syntheticArrayType int) symbols.cache :=
          (Cache.follows_syntheticArrayType int _).mono
            fun _ _ hOnly => hOnly.changes
        exact .of_ok hRun (hChanges.run_ok hMade)
      · unfold intArrayType?
        simp only [hFound]
        exact Cache.shape?_of_synthesize hMade

end Symbols

end Lowering
