import Lowering.Proofs.Cache.Identity
import Lowering.Proofs.Cache.OrderlyOperation

/-
  This file proves that the types which wrap bindings always
  say what the table says. Whatever was done to the cache,
  failed operations and resets among it, a wrapper is of the
  kind that its binding prescribes, in terms of the wrappers
  that are there now.

  Wrapping is memoised, so the wrappers of which a kind is
  made may stem from different calls, some of which failed. It
  is enough that a kind, once prescribed, stays prescribed.

  Main results:
    * `Cache.Reached.coherent`
    * `Cache.Reached.owned`
    * `Cache.Coherent.wrappable`
    * `Cache.Coherent.wrapHostType_cases`
    * `Cache.wrappers_say_what_the_table_says`
-/

namespace Lowering

namespace Cache

variable {table : BindingTable}

------------------------------------------------------------
-- Histories
------------------------------------------------------------

/- An operation is made of moves, however it ends. -/
private theorem moves_perform
    (hAcyclic : table.Acyclic)
    (operation : Operation)
    (cache : Cache) :
    Moves table False cache
      (finalState (operation.perform table cache)) := by
  have hOrderly : Orderly table False (operation.answer table)
      cache fun _ _ => True :=
    orderly_answer hAcyclic False.elim operation False.elim
  rw [← finalState_answer]
  exact hOrderly.moves

/- An operation leaves a coherent cache. -/
theorem Coherent.perform
    {cache : Cache}
    (hAcyclic : table.Acyclic)
    (hCoherent : cache.Coherent table)
    (operation : Operation) :
    (finalState (operation.perform table cache)).Coherent
      table :=
  (moves_perform hAcyclic operation cache).coherent hCoherent

/- Over a table without circular bindings caches are coherent. -/
theorem Reached.coherent
    {state : BindingTable × Cache}
    (hReached : Reached state)
    (hAcyclic : state.1.Acyclic) :
    state.2.Coherent state.1 := by
  have hKeeps := hReached.keeps_of_acyclic
    fun table cache => cache.Coherent table
  apply hKeeps ?_ ?_ ?_ ?_ hAcyclic
  · exact Coherent.new
  · exact fun _ _ operation hAcyclic hCoherent =>
      hCoherent.perform hAcyclic operation
  · exact fun _ _ _ hCoherent =>
      hCoherent.overTable fun _ _ => get?_add
  · exact fun _ _ _ => Coherent.reset _ _

/- The types of generated elements live as long as those do. -/
theorem Reached.owned
    {state : BindingTable × Cache}
    (hReached : Reached state)
    (hAcyclic : state.1.Acyclic) :
    state.2.Owned := by
  have hKeeps := hReached.keeps_of_acyclic
    fun _ cache => cache.Owned
  apply hKeeps ?_ ?_ ?_ ?_ hAcyclic
  · exact fun _ => Owned.new
  · intro table cache operation hAcyclic hOwned
    exact (moves_perform hAcyclic operation cache).owned hOwned
  · exact fun _ _ _ hOwned => hOwned
  · exact fun _ cache _ => Owned.reset cache

------------------------------------------------------------
-- Reading Wrappers
------------------------------------------------------------

/- A type in the store is read at its handle. -/
private theorem typeData_of_get?
    {cache : Cache}
    (hBase : 2 ≤ cache.types.base)
    {ty : TypeId}
    {data : TypeData}
    (hType : cache.types.get? ty.raw = some data) :
    cache.typeData ty = .ok data := by
  rw [typeData_eq_ok_iff, type?_eq_some_iff hBase]
  exact Or.inr (Or.inr hType)

/- The wrapper of a type binding is of the prescribed kind. -/
theorem Coherent.typeOf?
    {cache : Cache}
    (hCoherent : cache.Coherent table)
    (hBase : 2 ≤ cache.types.base)
    {id : BindingId}
    {ty : TypeId}
    (hType : cache.typeOf? id = some ty) :
    ∃ binding kind,
      table.get? id = some (.type binding) ∧
        cache.typeData ty = .ok ⟨kind, .host id⟩ ∧
        cache.prescribed? binding = some kind := by
  rcases get?_of_typeOf? hType with
    ⟨⟨kind, _⟩, hGet, rfl, hKind⟩
  have hData := typeData_of_get? hBase hGet
  have hPrescribed := hCoherent _ _ id hGet rfl
  unfold prescribedOf? at hPrescribed
  split at hPrescribed
  · next binding hBound =>
    exact ⟨binding, kind, hBound, hData, hPrescribed⟩
  · rcases exists_of_signature? hPrescribed with
      ⟨params, returnType, hExecutable, _⟩
    simp only [] at hExecutable
    subst hExecutable
    cases hKind
  · cases hPrescribed

/- The wrapper of a method binding has its signature. -/
theorem Coherent.executableOf?
    {cache : Cache}
    (hCoherent : cache.Coherent table)
    (hBase : 2 ≤ cache.types.base)
    {id : BindingId}
    {ty : TypeId}
    (hType : cache.executableOf? id = some ty) :
    ∃ binding params returnType,
      table.get? id = some (.method binding) ∧
        cache.typeData ty =
          .ok ⟨.executable params returnType, .host id⟩ ∧
        binding.parameterTypes.mapM cache.typeOf? =
          some params ∧
        cache.returned? binding = some returnType := by
  rcases get?_of_executableOf? hType with
    ⟨⟨kind, _⟩, hGet, rfl, hKind⟩
  have hData := typeData_of_get? hBase hGet
  have hPrescribed := hCoherent _ _ id hGet rfl
  unfold prescribedOf? at hPrescribed
  split at hPrescribed
  · rw [isExecutable_of_prescribed? hPrescribed] at hKind
    cases hKind
  · next binding hBound =>
    rcases exists_of_signature? hPrescribed with
      ⟨params, returnType, hExecutable, hParams, hReturn⟩
    simp only [] at hExecutable
    subst hExecutable
    exact ⟨binding, params, returnType, hBound, hData, hParams,
      hReturn⟩
  · cases hPrescribed

------------------------------------------------------------
-- Bindings That Are Wrapped
------------------------------------------------------------

/- What a kind is made of is a part of the binding. -/
private theorem consists_of_parts
    {id part : BindingId}
    {binding : TypeBinding}
    (hGet : table.get? id = some (.type binding))
    (hPart : part ∈ binding.parts) :
    table.Consists id part := by
  refine ⟨binding, hGet, ?_⟩
  unfold TypeBinding.parts at hPart
  split at hPart
  · exact Or.inl (Option.mem_toList.mp hPart)
  · exact Or.inr hPart
  · exact Or.inr
      (List.mem_of_head? (Option.mem_toList.mp hPart))
  · cases hPart

/- Only what prescribes a kind is ever wrapped. -/
theorem Coherent.wrappable
    {cache : Cache}
    (hCoherent : cache.Coherent table)
    (hBase : 2 ≤ cache.types.base)
    (hAcyclic : table.Acyclic)
    {id : BindingId}
    {ty : TypeId}
    (hType : cache.typeOf? id = some ty) :
    table.Wrappable id := by
  have hAll : ∀ ty, cache.typeOf? id = some ty →
      table.Wrappable id := by
    apply induction_within_depth
      (P := fun _ id => ∀ ty, cache.typeOf? id = some ty →
        table.Wrappable id)
      hAcyclic.consists table.ids ?_ ?_ _ table.card_ids_lt id
    · rintro id part ⟨binding, hGet, _⟩
      exact BindingTable.mem_ids_of_get? hGet
    · intro _ id ih ty hType
      rcases hCoherent.typeOf? hBase hType with
        ⟨binding, kind, hGet, _, hKind⟩
      refine .intro hGet (formed_of_prescribed? hKind) ?_
      intro part hPart
      rcases typeOf?_of_prescribed? hKind hPart with
        ⟨found, hFound⟩
      exact ih part (consists_of_parts hGet hPart) found hFound
  exact hAll ty hType

------------------------------------------------------------
-- Bindings That Are Refused
------------------------------------------------------------

/-
  Wrapping a part leaves the cache as it has to be, and tells
  whether the part prescribes a kind.
-/
private def Telling
    (table : BindingTable)
    (Fit : Cache → Prop)
    (wrap : BindingId → CacheM TypeId)
    (part : BindingId) : Prop :=
  ∀ cache, Fit cache →
    (∀ ty after, wrap part cache = .ok ty after →
      Fit after ∧ table.Wrappable part) ∧
    (∀ cause after,
      wrap part cache = .error (.violation cause) after →
        table.Refused part cause)

section Telling

variable {Fit : Cache → Prop}
variable {wrap : BindingId → CacheM TypeId}

/-
  Where several parts are wrapped, those before the first one
  that is refused were.
-/
private theorem refused_of_mapM
    {parts : List BindingId}
    (hTelling : ∀ part ∈ parts, Telling table Fit wrap part)
    {cache after : Cache}
    {cause : ContractViolation}
    (hFit : Fit cache)
    (hRun : parts.mapM wrap cache =
      .error (.violation cause) after) :
    ∃ front part back,
      parts = front ++ part :: back ∧
        (∀ other ∈ front, table.Wrappable other) ∧
        table.Refused part cause := by
  induction parts generalizing cache with
  | nil =>
      rw [List.mapM_nil] at hRun
      cases hRun
  | cons first parts ih =>
      rw [List.mapM_cons] at hRun
      rcases hTelling first (by simp) cache hFit with
        ⟨hWrapped, hRefused⟩
      cases hFirst : wrap first cache with
      | error error middle =>
          rw [run_bind_error hFirst] at hRun
          cases hRun
          exact ⟨[], first, parts, rfl, by simp,
            hRefused _ _ hFirst⟩
      | ok ty middle =>
          rw [run_bind_ok hFirst] at hRun
          rcases hWrapped ty middle hFirst with
            ⟨hFit', hWrappable⟩
          cases hRest : parts.mapM wrap middle with
          | ok types last =>
              rw [run_bind_ok hRest] at hRun
              cases hRun
          | error error last =>
              rw [run_bind_error hRest] at hRun
              cases hRun
              rcases ih (fun part hMem =>
                  hTelling part (by simp [hMem])) hFit' hRest with
                ⟨front, part, back, hParts, hFront, hPart⟩
              refine ⟨first :: front, part, back, ?_, ?_, hPart⟩
              · rw [hParts]
                rfl
              · intro other hMem
                rcases List.mem_cons.mp hMem with rfl | hMem
                · exact hWrappable
                · exact hFront other hMem

private theorem refused_of_kindOfType
    {id : BindingId}
    {binding : TypeBinding}
    (hGet : table.get? id = some (.type binding))
    (hTelling : ∀ part ∈ binding.parts,
      Telling table Fit wrap part)
    {cache after : Cache}
    {cause : ContractViolation}
    (hFit : Fit cache)
    (hRun : kindOfType table wrap id binding cache =
      .error (.violation cause) after) :
    table.Refused id cause := by
  have hOnly : ∀ {part after},
      binding.parts = [part] →
        wrap part cache = .error (.violation cause) after →
          table.Refused id cause := by
    intro part after hParts hPart
    have hSplit : binding.parts = [] ++ part :: [] := hParts
    refine .part hGet hSplit (by simp) ?_
    exact (hTelling part (by simp [hParts]) cache hFit).2
      cause after hPart
  rw [kindOfType_eq] at hRun
  unfold TypeBinding.parts at hOnly hTelling
  cases hForm : binding.form with
  | array =>
      simp only [hForm] at hRun hOnly
      cases hComponent : binding.component with
      | none =>
          rw [hComponent] at hRun
          cases hRun
          exact .noComponent hGet hForm hComponent
      | some component =>
          rw [hComponent] at hRun
          apply hOnly
          · rw [hComponent]
            rfl
          · exact run_map_eq_error hRun
  | intersection =>
      simp only [hForm] at hRun hTelling
      rcases refused_of_mapM hTelling hFit
          (run_map_eq_error hRun) with
        ⟨front, part, back, hParts, hFront, hPart⟩
      have hSplit : binding.parts = front ++ part :: back := by
        unfold TypeBinding.parts
        simp only [hForm]
        exact hParts
      exact .part hGet hSplit hFront hPart
  | primitive =>
      simp only [hForm] at hRun
      cases hKind :
          PrimitiveKind.ofBinaryName? binding.binaryName with
      | none =>
          rw [hKind] at hRun
          cases hRun
          exact .notPrimitive hGet hForm hKind
      | some kind =>
          rw [hKind] at hRun
          cases hRun
  | wildcard =>
      simp only [hForm] at hRun hOnly
      cases hBounds : binding.bounds with
      | nil =>
          rw [hBounds] at hRun
          cases hRun
      | cons bound bounds =>
          rw [hBounds] at hRun
          apply hOnly
          · rw [hBounds]
            rfl
          · exact run_map_eq_error (run_map_eq_error hRun)
  | native =>
      simp only [hForm] at hRun
      cases run_map_eq_error hRun
  | void =>
      simp only [hForm] at hRun
      cases hRun
  | typeVariable =>
      simp only [hForm] at hRun
      cases run_map_eq_error hRun
  | declared =>
      simp only [hForm] at hRun
      cases run_map_eq_error hRun

end Telling

private theorem refused_of_typeBinding
    {id : BindingId}
    {cause : ContractViolation}
    (hBinding : table.typeBinding id = .error cause) :
    table.Refused id cause := by
  unfold BindingTable.typeBinding at hBinding
  split at hBinding
  · cases hBinding
  · next host hOther hGet =>
    cases hBinding
    exact .notAType hGet hOther
  · next hGet =>
    cases hBinding
    exact .dangling hGet

/- A refusal says what is wrong with the binding. -/
private theorem refused_of_wrapHostTypeWithin
    (hAcyclic : table.Acyclic)
    {depth : Nat}
    {id : BindingId}
    {cache after : Cache}
    {cause : ContractViolation}
    (hFit : cache.Coherent table ∧ 2 ≤ cache.types.base)
    (hRun : wrapHostTypeWithin table depth id cache =
      .error (.violation cause) after) :
    table.Refused id cause := by
  induction depth generalizing id cache after cause with
  | zero => cases hRun
  | succ depth ih =>
      have hTelling : ∀ part, Telling table
          (fun cache =>
            cache.Coherent table ∧ 2 ≤ cache.types.base)
          (wrapHostTypeWithin table depth) part := by
        intro part cache hFit
        refine ⟨?_, fun cause after hPart => ih hFit hPart⟩
        intro ty after hPart
        have hOrderly := orderly_wrapHostTypeWithin hAcyclic
          depth part cache
        have hMoves := hOrderly.moves.run_ok hPart
        have hBase : 2 ≤ after.types.base := by
          rw [hMoves.grown.types.base]
          exact hFit.2
        have hCoherent := hMoves.coherent hFit.1
        exact ⟨⟨hCoherent, hBase⟩,
          hCoherent.wrappable hBase hAcyclic
            (hOrderly.answer ty after hPart)⟩
      unfold wrapHostTypeWithin at hRun
      rw [run_bind_ok (run_get cache)] at hRun
      cases hFound : cache.typeOf? id with
      | some ty =>
          simp only [hFound] at hRun
          cases hRun
      | none =>
          simp only [hFound] at hRun
          cases hBinding : table.typeBinding id with
          | error other =>
              rw [hBinding] at hRun
              cases hRun
              exact refused_of_typeBinding hBinding
          | ok binding =>
              have hConsult : consult (table.typeBinding id)
                  cache = .ok binding cache := by
                rw [hBinding]
                rfl
              rw [run_bind_ok hConsult] at hRun
              cases hKind : kindOfType table
                  (wrapHostTypeWithin table depth) id binding
                  cache with
              | ok kind middle =>
                  rw [run_bind_ok hKind] at hRun
                  cases hRun
              | error other middle =>
                  rw [run_bind_error hKind] at hRun
                  cases hRun
                  exact refused_of_kindOfType
                    (typeBinding_eq_ok hBinding)
                    (fun part _ => hTelling part) hFit hKind

------------------------------------------------------------
-- Wrapping
------------------------------------------------------------

/-
  Wrapping a type binding answers a type if the binding
  prescribes a kind, and says what is wrong with it if not.
-/
theorem Coherent.wrapHostType_cases
    {cache : Cache}
    (hCoherent : cache.Coherent table)
    (hBase : 2 ≤ cache.types.base)
    (hAcyclic : table.Acyclic)
    (id : BindingId) :
    (∃ ty after,
      wrapHostType table id cache = .ok ty after ∧
        after.typeOf? id = some ty ∧ table.Wrappable id) ∨
    (∃ cause after,
      wrapHostType table id cache =
          .error (.violation cause) after ∧
        after.typeOf? id = none ∧ table.Refused id cause) := by
  have hOrderly : Orderly table True (wrapHostType table id)
      cache fun ty after => after.typeOf? id = some ty :=
    orderly_wrapHostType hAcyclic id cache
  have hWrappable : ∀ {ty after}, Moves table True cache after →
      after.typeOf? id = some ty → table.Wrappable id := by
    intro ty after hMoves hType
    have hBase' : 2 ≤ after.types.base := by
      rw [hMoves.grown.types.base]
      exact hBase
    exact (hMoves.coherent hCoherent).wrappable hBase' hAcyclic
      hType
  cases hRun : wrapHostType table id cache with
  | ok ty after =>
      have hType := hOrderly.answer ty after hRun
      exact Or.inl ⟨ty, after, rfl, hType,
        hWrappable (hOrderly.moves.run_ok hRun) hType⟩
  | error error after =>
      rcases hOrderly.refusal trivial error after hRun with
        ⟨cause, rfl⟩
      have hRefused := refused_of_wrapHostTypeWithin hAcyclic
        ⟨hCoherent, hBase⟩ hRun
      refine Or.inr ⟨cause, after, rfl, ?_, hRefused⟩
      cases hType : after.typeOf? id with
      | none => rfl
      | some ty =>
          exact absurd hRefused (hWrappable
            (hOrderly.moves.run_error hRun) hType).not_refused

/-
  Over a table without circular bindings, after any history:
  a type that wraps a type binding is of the kind that the
  binding prescribes, in terms of the types that wrap its
  parts; one that wraps a method binding has the types that
  wrap its parameters and its result; a binding that
  prescribes a kind is wrapped on demand; any other is refused
  with the reason why and is never wrapped.
-/
theorem wrappers_say_what_the_table_says
    {cache : Cache}
    (hReached : Reached (table, cache))
    (hAcyclic : table.Acyclic) :
    (∀ id ty, cache.typeOf? id = some ty →
      ∃ binding kind,
        table.get? id = some (.type binding) ∧
          cache.typeData ty = .ok ⟨kind, .host id⟩ ∧
          cache.prescribed? binding = some kind) ∧
    (∀ id ty, cache.executableOf? id = some ty →
      ∃ binding params returnType,
        table.get? id = some (.method binding) ∧
          cache.typeData ty =
            .ok ⟨.executable params returnType, .host id⟩ ∧
          binding.parameterTypes.mapM cache.typeOf? =
            some params ∧
          cache.returned? binding = some returnType) ∧
    (∀ id, table.Wrappable id →
      ∃ ty after,
        wrapHostType table id cache = .ok ty after ∧
          after.typeOf? id = some ty) ∧
    (∀ id cause, table.Refused id cause →
      cache.typeOf? id = none ∧
        ∃ after,
          wrapHostType table id cache =
              .error (.violation cause) after ∧
            after.typeOf? id = none) ∧
    (∀ id, table.Wrappable id ∨
      ∃ cause, table.Refused id cause) := by
  have hCoherent : cache.Coherent table :=
    hReached.coherent hAcyclic
  have hBase : 2 ≤ cache.types.base := hReached.sound.base
  have hCases := hCoherent.wrapHostType_cases hBase hAcyclic
  refine ⟨?_, ?_, ?_, ?_, ?_⟩
  · intro id ty hType
    exact hCoherent.typeOf? hBase hType
  · intro id ty hType
    exact hCoherent.executableOf? hBase hType
  · intro id hWrappable
    rcases hCases id with
      ⟨ty, after, hRun, hType, _⟩ | ⟨cause, _, _, _, hRefused⟩
    · exact ⟨ty, after, hRun, hType⟩
    · exact absurd hRefused hWrappable.not_refused
  · intro id cause hRefused
    constructor
    · cases hType : cache.typeOf? id with
      | none => rfl
      | some ty =>
          exact absurd hRefused (hCoherent.wrappable hBase
            hAcyclic hType).not_refused
    · rcases hCases id with
        ⟨_, _, _, _, hWrappable⟩ |
          ⟨other, after, hRun, hNone, hOther⟩
      · exact absurd hRefused hWrappable.not_refused
      · rw [hRefused.unique hOther]
        exact ⟨after, hRun, hNone⟩
  · intro id
    rcases hCases id with
      ⟨_, _, _, _, hWrappable⟩ | ⟨cause, _, _, _, hRefused⟩
    · exact Or.inl hWrappable
    · exact Or.inr ⟨cause, hRefused⟩

/- A new cache in which the array over `int` was wrapped. -/
def intArrayWrapped : Cache :=
  finalState ((Operation.wrapType (.host ⟨9⟩)).perform
    intArrayTable {})

/-
  The type of the array over `int` is the array over the type
  of `int`, and a binding that is not there is refused.
-/
theorem wrappers_say_what_the_table_says_intArray :
    Reached (intArrayTable, intArrayWrapped) ∧
      intArrayTable.Acyclic ∧
      intArrayWrapped.typeData ⟨3⟩ =
        .ok ⟨.array ⟨2⟩, .host ⟨9⟩⟩ ∧
      intArrayWrapped.typeOf? (BindingTable.primitive .int) =
        some ⟨2⟩ ∧
      ∃ after,
        wrapHostType intArrayTable ⟨10⟩ intArrayWrapped =
          .error (.violation (.danglingBinding ⟨10⟩)) after := by
  have hReached : Reached (intArrayTable, intArrayWrapped) :=
    (Reached.new intArrayTable).later
      (.perform (.wrapType (.host ⟨9⟩)) (.same _ _))
  have hInt : intArrayWrapped.typeOf?
      (BindingTable.primitive .int) = some ⟨2⟩ := by
    decide +kernel
  have hArray : intArrayWrapped.typeOf? ⟨9⟩ = some ⟨3⟩ := by
    decide +kernel
  rcases wrappers_say_what_the_table_says hReached
      acyclic_intArray with ⟨hTypes, _, _, hRefused, _⟩
  rcases hTypes ⟨9⟩ ⟨3⟩ hArray with
    ⟨binding, kind, hGet, hData, hKind⟩
  cases hGet
  have hPrescribed : intArrayWrapped.prescribed?
      (.arrayOf (BindingTable.primitive .int) "int" "I") =
        some (.array ⟨2⟩) := by
    change Option.map TypeKind.array (intArrayWrapped.typeOf?
      (BindingTable.primitive .int)) = _
    rw [hInt]
    rfl
  cases hPrescribed.symm.trans hKind
  rcases hRefused ⟨10⟩ _ (.dangling rfl) with ⟨_, after, hRun, _⟩
  exact ⟨hReached, acyclic_intArray, hData, hInt, after, hRun⟩

end Cache

end Lowering
