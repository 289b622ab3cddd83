import Lowering.Proofs.Cache.Additions
import Lowering.Proofs.Cache.Identity
import Lowering.Proofs.Cache.Prescription

/-
  This file states when an operation repeats itself, and
  proves it of wrapping host bindings over a table without
  circular ones: an answer is given again in every later
  state, and an error is met again at once, each time without
  a change of the cache.

  Wrapping looks for the wrapper first and makes it last. What
  fails on the way leaves wrappers of parts behind, which the
  next attempt finds, but never the wrapper itself.

  Key definitions include:
    * `Cache.Retries`
    * `Cache.Repeats`

  Main results:
    * `Cache.Repeats.memo`
    * `Cache.repeats_wrapHostType`
    * `Cache.repeats_wrapExecutable`
    * `Cache.repeats_wrapHostElementWithin`
-/

namespace Lowering

namespace Cache

variable {α β : Type}
variable {table : BindingTable}
variable {cache later : Cache}

------------------------------------------------------------
-- Judgements
------------------------------------------------------------

/-
  A run that fails has added wrappers at most, and fails again
  from where it ended, in the same way and changing nothing.
-/
def Retries
    (operation : CacheM α)
    (cache : Cache) : Prop :=
  ∀ error after,
    operation cache = .error error after →
      Adds cache after ∧ operation after = .error error after

/-
  A run adds wrappers at most, is retried as above if it fails,
  and if it answers, gives the answer again in every later
  state and changes nothing.
-/
structure Repeats
    (operation : CacheM α)
    (cache : Cache) : Prop where
  adds : Follows Adds operation cache
  retries : Retries operation cache
  again : ∀ answer after,
    operation cache = .ok answer after →
      ∀ later, Grown after later →
        operation later = .ok answer later

/- What fails and changes nothing fails again. -/
theorem Retries.of_untouched
    {operation : CacheM α}
    (hUntouched : ∀ error after,
      operation cache = .error error after → after = cache) :
    Retries operation cache := by
  intro error after hRun
  cases hUntouched error after hRun
  exact ⟨Adds.isHistory.refl cache, hRun⟩

/- A sequence fails again if its parts do. -/
theorem Retries.bind
    {first : CacheM α}
    {next : α → CacheM β}
    (hFirst : Repeats first cache)
    (hNext : ∀ answer middle,
      first cache = .ok answer middle →
        Retries (next answer) middle) :
    Retries (first >>= next) cache := by
  intro error after hRun
  rcases run_bind_eq_error hRun with
    hFail | ⟨answer, middle, hAnswer, hFail⟩
  · rcases hFirst.retries error after hFail with
      ⟨hAdds, hAgain⟩
    exact ⟨hAdds, run_bind_error hAgain⟩
  · rcases hNext answer middle hAnswer error after hFail with
      ⟨hAdds, hAgain⟩
    have hFound := hFirst.again answer middle hAnswer after
      hAdds.changes.grown
    refine ⟨Adds.isHistory.trans
      (hFirst.adds.run_ok hAnswer) hAdds, ?_⟩
    rw [run_bind_ok hFound]
    exact hAgain

/- A changed answer fails when the answer does. -/
theorem Retries.map
    {operation : CacheM α}
    (change : α → β)
    (hRetries : Retries operation cache) :
    Retries (change <$> operation) cache := by
  intro error after hRun
  rcases hRetries error after (run_map_eq_error hRun) with
    ⟨hAdds, hAgain⟩
  exact ⟨hAdds, run_map_error change hAgain⟩

/- What was read of the cache is read again. -/
theorem Retries.inspect
    {question : Cache → Except CacheError α}
    {next : α → CacheM β}
    (hNext : ∀ answer, question cache = .ok answer →
      Retries (next answer) cache)
    (hKept : ∀ answer after, Adds cache after →
      question cache = .ok answer → question after = .ok answer) :
    Retries (CacheM.inspect question >>= next) cache := by
  intro error after hRun
  cases hQuestion : question cache with
  | error cause =>
      have hFail :
          (CacheM.inspect question >>= next) cache =
            .error cause cache :=
        run_bind_error (run_inspectCache_error hQuestion)
      cases hFail.symm.trans hRun
      exact ⟨Adds.isHistory.refl cache, hFail⟩
  | ok answer =>
      rw [run_bind_ok (run_inspectCache_ok hQuestion)] at hRun
      rcases hNext answer hQuestion error after hRun with
        ⟨hAdds, hAgain⟩
      refine ⟨hAdds, ?_⟩
      rw [run_bind_ok (run_inspectCache_ok
        (hKept answer after hAdds hQuestion))]
      exact hAgain

namespace Repeats

theorem pure (answer : α) (cache : Cache) :
    Repeats (Pure.pure answer : CacheM α) cache where
  adds := Follows.pure Adds.isHistory _ _
  retries := by
    intro error after hRun
    cases hRun
  again := by
    intro found after hRun later _
    cases hRun
    rfl

theorem throw (error : CacheError) (cache : Cache) :
    Repeats (MonadExcept.throw error : CacheM α) cache where
  adds := Follows.throw Adds.isHistory _ _
  retries := by
    apply Retries.of_untouched
    intro cause after hRun
    cases hRun
    rfl
  again := by
    intro answer after hRun
    cases hRun

theorem bind
    {first : CacheM α}
    {next : α → CacheM β}
    (hFirst : Repeats first cache)
    (hNext : ∀ answer middle,
      first cache = .ok answer middle →
        Repeats (next answer) middle) :
    Repeats (first >>= next) cache where
  adds := hFirst.adds.bind Adds.isHistory
    fun answer middle hAnswer =>
      (hNext answer middle hAnswer).adds
  retries := Retries.bind hFirst
    fun answer middle hAnswer =>
      (hNext answer middle hAnswer).retries
  again := by
    intro answer after hRun later hLater
    rcases run_bind_eq_ok hRun with
      ⟨found, middle, hFound, hLast⟩
    have hRest := hNext found middle hFound
    have hGrown := (hRest.adds.run_ok hLast).changes.grown
    rw [run_bind_ok (hFirst.again found middle hFound later
      (hGrown.trans hLater))]
    exact hRest.again answer after hLast later hLater

/- Sequences of what repeats itself do so too. -/
theorem composes : Composes fun _ => Repeats where
  pure := Repeats.pure
  throw := Repeats.throw
  bind := Repeats.bind

/-
  What is looked up first and made when it is missing. If the
  making fails, it is still missing, and the making is retried.
-/
theorem memo
    (find : Cache → Option α)
    {operation make : CacheM α}
    (hForm : ∀ state, operation state =
      (find state).elim (make state) fun found =>
        .ok found state)
    (hAdds : Follows Adds operation cache)
    (hMake : find cache = none → ∀ error after,
      make cache = .error error after →
        find after = none ∧ make after = .error error after)
    (hMade : ∀ answer after,
      operation cache = .ok answer after →
        find after = some answer)
    (hKept : ∀ {before after answer}, Grown before after →
      find before = some answer → find after = some answer) :
    Repeats operation cache where
  adds := hAdds
  retries := by
    intro error after hRun
    refine ⟨hAdds.run_error hRun, ?_⟩
    rw [hForm] at hRun ⊢
    cases hFound : find cache with
    | some answer =>
        rw [hFound] at hRun
        cases hRun
    | none =>
        rw [hFound] at hRun
        rcases hMake hFound error after hRun with
          ⟨hMissing, hAgain⟩
        rw [hMissing]
        exact hAgain
  again := by
    intro answer after hRun later hLater
    rw [hForm, hKept hLater (hMade answer after hRun)]
    rfl

end Repeats

/- A text that was interned has its name in later states. -/
theorem repeats_intern
    (text : String)
    (cache : Cache) :
    Repeats (intern text) cache where
  adds := adds_intern text cache
  retries := by
    intro error after hRun
    cases hRun
  again := by
    intro name after hRun later hLater
    cases hRun
    have hAgain := Interner.intern_of_find?
      (hLater.names.find? (Interner.find?_intern _ _))
    show EStateM.Result.ok (later.names.intern text).1
      { later with names := (later.names.intern text).2 } = _
    rw [hAgain]
    rfl

------------------------------------------------------------
-- Types
------------------------------------------------------------

private theorem repeats_kindOfType
    (table : BindingTable)
    {wrap : BindingId → CacheM TypeId}
    (hWrap : ∀ part cache, Repeats (wrap part) cache)
    (id : BindingId)
    (binding : TypeBinding)
    (cache : Cache) :
    Repeats (kindOfType table wrap id binding) cache := by
  have hJ := Repeats.composes
  rw [kindOfType_eq]
  cases binding.form with
  | array =>
      cases binding.component with
      | some component =>
          exact hJ.map _ (hWrap component cache)
      | none => exact .throw _ _
  | intersection =>
      exact hJ.map _
        (hJ.mapM _ (fun part _ => hWrap part) cache)
  | native => exact hJ.map _ (repeats_intern _ cache)
  | void => exact .pure _ _
  | primitive =>
      cases PrimitiveKind.ofBinaryName? binding.binaryName with
      | some kind => exact .pure _ _
      | none => exact .throw _ _
  | typeVariable => exact hJ.map _ (repeats_intern _ cache)
  | wildcard =>
      exact hJ.map _
        (hJ.optionMapM _ (fun part _ => hWrap part) cache)
  | declared => exact hJ.map _ (repeats_intern _ cache)

private theorem eq_of_consult_error
    {question : Except ContractViolation α}
    {error : CacheError}
    (hRun : consult question cache = .error error later) :
    later = cache := by
  cases question with
  | ok answer => cases hRun
  | error cause =>
      cases hRun
      rfl

private theorem retries_addType
    (kind : TypeKind)
    (origin : TypeOrigin)
    (cache : Cache) :
    Retries (addType kind origin) cache := by
  intro error after hRun
  cases hRun

/-
  Wrapping a type binding fails before the wrapper is made,
  and what its parts left behind is no wrapper of it.
-/
theorem repeats_wrapHostTypeWithin
    (hAcyclic : table.Acyclic)
    (depth : Nat)
    (id : BindingId)
    (cache : Cache) :
    Repeats (wrapHostTypeWithin table depth id) cache := by
  induction depth generalizing id cache with
  | zero => exact .throw _ _
  | succ depth ih =>
      have hStrict : True → table.Acyclic := fun _ => hAcyclic
      have hLoose : False → table.Acyclic := False.elim
      have hMade := follows_wrapHostTypeWithin hLoose
        (depth + 1) id cache
      apply Repeats.memo (·.typeOf? id)
      · intro state
        unfold wrapHostTypeWithin
        rw [run_bind_ok (run_get state)]
        cases state.typeOf? id <;> rfl
      · exact hMade.mono fun _ _ hMade => hMade.typesOnly.adds
      · intro hMissing error after hRun
        have hRetries := Retries.bind
          (Repeats.composes.consult (table.typeBinding id) cache)
          (fun binding middle _ => Retries.bind
            (repeats_kindOfType table ih id binding middle)
            fun kind last _ =>
              retries_addType kind (.host id) last)
        refine ⟨?_, (hRetries error after hRun).2⟩
        rcases run_bind_eq_error hRun with
          hConsult | ⟨binding, middle, hConsult, hRest⟩
        · rw [eq_of_consult_error hConsult]
          exact hMissing
        · rcases run_consult_eq_ok hConsult with
            ⟨hBinding, rfl⟩
          rcases run_bind_eq_error hRest with
            hKind | ⟨kind, last, _, hAdd⟩
          · have hParts := follows_parts
              (follows_wrapHostTypeWithin hStrict depth)
              (typeBinding_eq_ok hBinding) middle
            exact (hParts.run_error hKind).typeOf?_eq_none
              (hAcyclic.consists id) hMissing
          · cases hAdd
      · intro ty after hRun
        exact typeOf?_of_wrapHostTypeWithin hAcyclic hRun
      · exact fun hGrown => hGrown.typeOf?

theorem repeats_wrapHostType
    (hAcyclic : table.Acyclic)
    (id : BindingId)
    (cache : Cache) :
    Repeats (wrapHostType table id) cache :=
  repeats_wrapHostTypeWithin hAcyclic _ id cache

/- The parts of a method are types, and none of a method. -/
theorem repeats_wrapExecutable
    (hAcyclic : table.Acyclic)
    (id : BindingId)
    (cache : Cache) :
    Repeats (wrapExecutable table id) cache := by
  have hMade := TypesMade.isHistory False fun _ => True
  have hLoose : False → table.Acyclic := False.elim
  apply Repeats.memo (·.executableOf? id)
  · intro state
    unfold wrapExecutable
    rw [run_bind_ok (run_get state)]
    cases state.executableOf? id <;> rfl
  · exact (makes_wrapExecutable table id cache).mono
      fun _ _ hMakes => hMakes.toAdds
  · intro hMissing error after hRun
    have hJ := Repeats.composes
    have hType := repeats_wrapHostType hAcyclic
    have hRetries := Retries.bind
      (hJ.consult (table.methodBinding id) cache)
      (fun binding middle _ => Retries.bind
        (hJ.mapM binding.parameterTypes
          (fun part _ => hType part) middle)
        fun params middle _ => Retries.bind
          (wrapReturnType_of_type hJ hType binding middle)
          fun returnType last _ => retries_addType
            (.executable params returnType) (.host id) last)
    refine ⟨?_, (hRetries error after hRun).2⟩
    rcases run_bind_eq_error hRun with
      hConsult | ⟨binding, middle, hConsult, hRest⟩
    · rw [eq_of_consult_error hConsult]
      exact hMissing
    · rcases run_consult_eq_ok hConsult with ⟨_, rfl⟩
      have hSignature := follows_signature hLoose binding
      rcases run_bind_eq_error hRest with
        hParams | ⟨params, middle', hParams, hRest⟩
      · exact ((hSignature middle).1.run_error
          hParams).executableOf?_eq_none hMissing
      · have hFirst := (hSignature middle).1.run_ok hParams
        rcases run_bind_eq_error hRest with
          hReturn | ⟨_, _, _, hAdd⟩
        · exact (hMade.trans hFirst
            ((hSignature middle').2.run_error
              hReturn)).executableOf?_eq_none hMissing
        · cases hAdd
  · intro ty after hRun
    exact executableOf?_of_wrapExecutable hRun
  · exact fun hGrown => hGrown.executableOf?

theorem repeats_wrapUses
    (hAcyclic : table.Acyclic)
    (annotations : List BindingId)
    (cache : Cache) :
    Repeats (wrapUses table annotations) cache :=
  wrapUses_of_type Repeats.composes
    (repeats_wrapHostType hAcyclic) annotations cache

------------------------------------------------------------
-- Elements
------------------------------------------------------------

/- What an element is described of is repeated. -/
private theorem wrapping_repeats
    (hAcyclic : table.Acyclic) :
    Wrapping (fun _ => Repeats) table where
  composes := Repeats.composes
  intern := repeats_intern
  type := repeats_wrapHostType hAcyclic
  executable := repeats_wrapExecutable hAcyclic

/-
  Wrapping a binding as an element fails before the element is
  made, and what its declarers left behind is none of it.
-/
theorem repeats_wrapHostElementWithin
    (hAcyclic : table.Acyclic)
    (depth : Nat)
    (id : BindingId)
    (cache : Cache) :
    Repeats (wrapHostElementWithin table depth id) cache := by
  induction depth generalizing id cache with
  | zero => exact .throw _ _
  | succ depth ih =>
      have hStrict : True → table.Acyclic := fun _ => hAcyclic
      apply Repeats.memo (·.hostElement? id)
      · intro state
        unfold wrapHostElementWithin
        rw [run_bind_ok (run_get state)]
        cases state.hostElement? id <;> rfl
      · exact (makes_wrapHostElementWithin table _ id cache).mono
          fun _ _ hMakes => hMakes.toAdds
      · intro hMissing error after hRun
        have hData := (wrapping_repeats hAcyclic).describeHost
          id (fun owner _ => ih owner) cache
        rcases run_bind_eq_error hRun with
          hFail | ⟨data, middle, _, hAdd⟩
        · have hDeclarers := follows_declarers hStrict
            (follows_wrapHostElementWithin hStrict depth) id cache
          exact ⟨(hDeclarers.run_error
              hFail).hostElement?_eq_none
                (hAcyclic.declares id) hMissing,
            run_bind_error (hData.retries error after hFail).2⟩
        · cases hAdd
      · intro element after hRun
        exact hostElement?_of_wrapHostElementWithin hAcyclic hRun
      · exact fun hGrown => hGrown.hostElement?

end Cache

end Lowering
