import Mathlib.Data.List.Forall2
import Lowering.Proofs.Cache.WrapType

/-
  This file states how programs on a state are judged and how
  judgements of the parts are put together: a run ends in a
  state that is related to the first, its answer keeps a
  promise, and it fails only in ways that are allowed.

  What must hold before a step is a hypothesis of its
  judgement. A sequence is judged part by part: each part
  learns from what state it begins and which promise the one
  before it kept.

  Key definitions include:
    * `Behaves`

  Main results:
    * `Behaves.bind`
    * `Behaves.mapM`
    * `Behaves.mapM_forall`
    * `Behaves.optionMapM`
-/

namespace Lowering

variable {ε σ α β : Type}

/-
  A run moves the state as a relation allows, keeps its
  promise where it answers, and fails as is allowed.
-/
structure Behaves
    (R : σ → σ → Prop)
    (Allowed : ε → Prop)
    (operation : EStateM ε σ α)
    (state : σ)
    (Promise : α → σ → Prop) : Prop where
  follows : Follows R operation state
  answer : ∀ answer after,
    operation state = .ok answer after → Promise answer after
  failure : ∀ error after,
    operation state = .error error after → Allowed error

namespace Behaves

variable {R : σ → σ → Prop}
variable {Allowed : ε → Prop}
variable {Promise : α → σ → Prop}
variable {Promise' : β → σ → Prop}
variable {state : σ}

theorem pure
    (hHistory : IsHistory R)
    {answer : α}
    (hPromise : Promise answer state) :
    Behaves R Allowed (Pure.pure answer : EStateM ε σ α) state
      Promise where
  follows := Follows.pure hHistory _ _
  answer := by
    intro found after hRun
    cases hRun
    exact hPromise
  failure := by
    intro error after hRun
    cases hRun

theorem throw
    (hHistory : IsHistory R)
    {error : ε}
    (hAllowed : Allowed error) :
    Behaves R Allowed (MonadExcept.throw error : EStateM ε σ α)
      state Promise where
  follows := Follows.throw hHistory _ _
  answer := by
    intro answer after hRun
    cases hRun
  failure := by
    intro cause after hRun
    cases hRun
    exact hAllowed

/- An operation keeps any promise that it is seen to keep. -/
theorem promise
    {operation : EStateM ε σ α}
    {Promise₁ : α → σ → Prop}
    (hRun : Behaves R Allowed operation state Promise₁)
    (hPromise : ∀ answer after,
      operation state = .ok answer after →
        Promise₁ answer after → Promise answer after) :
    Behaves R Allowed operation state Promise where
  follows := hRun.follows
  answer := fun answer after hEq =>
    hPromise answer after hEq (hRun.answer answer after hEq)
  failure := hRun.failure

/- A run moves the state as any wider relation allows. -/
theorem mono
    {R' : σ → σ → Prop}
    {operation : EStateM ε σ α}
    (hRun : Behaves R Allowed operation state Promise)
    (hWider : ∀ first second, R first second →
      R' first second) :
    Behaves R' Allowed operation state Promise where
  follows := hRun.follows.mono hWider
  answer := hRun.answer
  failure := hRun.failure

/- A sequence behaves if its parts do. -/
theorem bind
    (hHistory : IsHistory R)
    {first : EStateM ε σ α}
    {next : α → EStateM ε σ β}
    (hFirst : Behaves R Allowed first state Promise)
    (hNext : ∀ answer after,
      first state = .ok answer after →
        R state after →
          Promise answer after →
            Behaves R Allowed (next answer) after Promise') :
    Behaves R Allowed (first >>= next) state Promise' := by
  have hStep : ∀ answer after,
      first state = .ok answer after →
        Behaves R Allowed (next answer) after Promise' :=
    fun answer after hRun =>
      hNext answer after hRun (hFirst.follows.run_ok hRun)
        (hFirst.answer answer after hRun)
  refine ⟨?_, ?_, ?_⟩
  · apply hFirst.follows.bind hHistory
    intro answer after hRun
    exact (hStep answer after hRun).follows
  · intro answer after hRun
    rcases run_bind_eq_ok hRun with ⟨found, middle, hFound, hLast⟩
    exact (hStep found middle hFound).answer answer after hLast
  · intro error after hRun
    rcases run_bind_eq_error hRun with
      hFail | ⟨found, middle, hFound, hLast⟩
    · exact hFirst.failure error after hFail
    · exact (hStep found middle hFound).failure error after hLast

theorem map
    (hHistory : IsHistory R)
    {operation : EStateM ε σ α}
    {change : α → β}
    (hRun : Behaves R Allowed operation state
      fun answer after => Promise' (change answer) after) :
    Behaves R Allowed (change <$> operation) state Promise' := by
  rw [map_eq_pure_bind]
  apply hRun.bind hHistory
  intro answer after _ _ hPromise
  exact .pure hHistory hPromise

/- What follows a read of the state may use what was read. -/
theorem get
    (hHistory : IsHistory R)
    {next : σ → EStateM ε σ α}
    (hNext : Behaves R Allowed (next state) state Promise) :
    Behaves R Allowed (MonadState.get >>= next) state
      Promise := by
  have hRead : Behaves R Allowed
      (MonadState.get : EStateM ε σ σ) state
      fun answer after => answer = state ∧ after = state := by
    refine ⟨hHistory.refl state, ?_, ?_⟩
    · intro answer after hRun
      cases hRun
      exact ⟨rfl, rfl⟩
    · intro error after hRun
      cases hRun
  apply hRead.bind hHistory
  rintro answer after _ _ ⟨rfl, rfl⟩
  exact hNext

/-
  A list of runs from states with a property that lasts: each
  keeps its own promise to its item, and the promises last.
-/
theorem mapM
    (hHistory : IsHistory R)
    {Before : σ → Prop}
    {Kept : α → β → σ → Prop}
    {operation : α → EStateM ε σ β}
    (hBefore : ∀ {first second}, R first second →
      Before first → Before second)
    (hKept : ∀ {first second}, R first second →
      ∀ {item answer}, Kept item answer first →
        Kept item answer second)
    (items : List α)
    (hEach : ∀ item ∈ items, ∀ state, Before state →
      Behaves R Allowed (operation item) state (Kept item))
    {state : σ}
    (hState : Before state) :
    Behaves R Allowed (items.mapM operation) state
      fun answers after =>
        List.Forall₂ (fun item answer => Kept item answer after)
          items answers := by
  induction items generalizing state with
  | nil =>
      rw [List.mapM_nil]
      exact .pure hHistory .nil
  | cons item items ih =>
      rw [List.mapM_cons]
      apply (hEach item (by simp) state hState).bind hHistory
      intro answer middle _ hStep hAnswer
      apply (ih (fun other hMem => hEach other (by simp [hMem]))
        (hBefore hStep hState)).bind hHistory
      intro answers after _ hRest hAnswers
      exact .pure hHistory (.cons (hKept hRest hAnswer) hAnswers)

/- Promises that are the same for every item. -/
theorem mapM_forall
    (hHistory : IsHistory R)
    {Before : σ → Prop}
    {Kept : β → σ → Prop}
    {operation : α → EStateM ε σ β}
    (hBefore : ∀ {first second}, R first second →
      Before first → Before second)
    (hKept : ∀ {first second}, R first second →
      ∀ {answer}, Kept answer first → Kept answer second)
    (items : List α)
    (hEach : ∀ item ∈ items, ∀ state, Before state →
      Behaves R Allowed (operation item) state Kept)
    {state : σ}
    (hState : Before state) :
    Behaves R Allowed (items.mapM operation) state
      fun answers after =>
        ∀ answer ∈ answers, Kept answer after := by
  have hKept' : ∀ {first second}, R first second →
      ∀ {_ : α} {answer : β},
        Kept answer first → Kept answer second :=
    fun hStep _ _ hFirst => hKept hStep hFirst
  have hList : ∀ {items : List α} {answers : List β} {after : σ},
      List.Forall₂ (fun _ answer => Kept answer after) items
          answers →
        ∀ answer ∈ answers, Kept answer after := by
    intro items answers after hAll
    induction hAll with
    | nil => simp
    | cons hFirst _ ih => simpa using ⟨hFirst, ih⟩
  apply (mapM hHistory hBefore hKept' items hEach
    hState).promise
  exact fun _ _ _ hAll => hList hAll

theorem optionMapM
    (hHistory : IsHistory R)
    {Kept : β → σ → Prop}
    {operation : α → EStateM ε σ β}
    (item : Option α)
    (hEach : ∀ found, item = some found →
      Behaves R Allowed (operation found) state Kept) :
    Behaves R Allowed (item.mapM operation) state
      fun answer after =>
        ∀ made, answer = some made → Kept made after := by
  cases item with
  | none =>
      apply Behaves.pure hHistory
      intro made hMade
      cases hMade
  | some found =>
      apply Behaves.map hHistory
      apply (hEach found rfl).promise
      intro answer after _ hKept made hMade
      cases hMade
      exact hKept

------------------------------------------------------------
-- Steps Of The Cache
------------------------------------------------------------

section Cache

variable {R : Cache → Cache → Prop}
variable {Allowed : CacheError → Prop}
variable {cache : Cache}
variable {Promise : α → Cache → Prop}

/- A question changes nothing. -/
theorem inspect
    (hHistory : IsHistory R)
    {question : Cache → Except CacheError α}
    (hAllowed : ∀ error,
      question cache = .error error → Allowed error) :
    Behaves R Allowed (CacheM.inspect question) cache
      fun answer after =>
        after = cache ∧ question cache = .ok answer where
  follows := Follows.inspect hHistory _ _
  answer := by
    intro answer after hRun
    exact (run_inspectCache_eq_ok hRun).symm
  failure := by
    intro error after hRun
    cases hQuestion : question cache with
    | ok answer =>
        rw [run_inspectCache_ok hQuestion] at hRun
        cases hRun
    | error cause =>
        rw [run_inspectCache_error hQuestion] at hRun
        cases hRun
        exact hAllowed error hQuestion

/- Reading the table changes nothing. -/
theorem consult
    (hHistory : IsHistory R)
    {question : Except ContractViolation α}
    (hAllowed : ∀ cause, question = .error cause →
      Allowed (.violation cause)) :
    Behaves R Allowed (Cache.consult question) cache
      fun answer after =>
        after = cache ∧ question = .ok answer := by
  cases question with
  | ok answer => exact .pure hHistory ⟨rfl, rfl⟩
  | error cause => exact .throw hHistory (hAllowed cause rfl)

end Cache

end Behaves

end Lowering
