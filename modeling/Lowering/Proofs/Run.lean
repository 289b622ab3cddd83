import Lowering.Workspace

/-
  This file states how runs of the state monads are put
  together: a sequence runs its parts one after the other, up
  to the first that fails, and a step on a part of the
  workspace leaves the other parts alone.

  Proofs about a program follow its text by rewriting with
  these lemmas, one for each line that is executed.

  A run follows a relation when the state in which it ends,
  whether it succeeds or fails, is so related to the state in
  which it began. Sequences inherit this from their parts, and
  with it whatever is made of sequences does.

  Key definitions include:
    * `finalState`
    * `Composes`
    * `Follows`

  Key lemmas include:
    * `run_bind_ok`
    * `run_bind_error`
    * `bind_ok`
    * `bind_eq_error`
    * `Composes.mapM`
    * `Follows.bind`
    * `run_liftTree_ok`
    * `run_liftSymbols_ok`
    * `run_liftCache_ok`
-/

namespace Lowering

------------------------------------------------------------
-- Sequences
------------------------------------------------------------

section Sequences

variable {ε σ α β : Type}

theorem run_bind_ok
    {first : EStateM ε σ α}
    {next : α → EStateM ε σ β}
    {state state' : σ}
    {answer : α}
    (hFirst : first state = .ok answer state') :
    (first >>= next) state = next answer state' := by
  show EStateM.bind first next state = next answer state'
  simp only [EStateM.bind, hFirst]

theorem run_bind_error
    {first : EStateM ε σ α}
    {next : α → EStateM ε σ β}
    {state state' : σ}
    {error : ε}
    (hFirst : first state = .error error state') :
    (first >>= next) state = .error error state' := by
  show EStateM.bind first next state = .error error state'
  simp only [EStateM.bind, hFirst]

theorem run_get
    (state : σ) :
    (get : EStateM ε σ σ) state = .ok state state := rfl

/-
  A sequence that succeeds is made of parts that succeed.
-/
theorem run_bind_eq_ok
    {first : EStateM ε σ α}
    {next : α → EStateM ε σ β}
    {state state'' : σ}
    {answer' : β}
    (hRun : (first >>= next) state = .ok answer' state'') :
    ∃ answer state',
      first state = .ok answer state' ∧
        next answer state' = .ok answer' state'' := by
  cases hFirst : first state with
  | ok answer state' =>
      rw [run_bind_ok hFirst] at hRun
      exact ⟨answer, state', rfl, hRun⟩
  | error error state' =>
      rw [run_bind_error hFirst] at hRun
      exact absurd hRun (by simp)

/-
  A sequence that fails has a part that fails, which is the
  last one that is run.
-/
theorem run_bind_eq_error
    {first : EStateM ε σ α}
    {next : α → EStateM ε σ β}
    {state state'' : σ}
    {error : ε}
    (hRun : (first >>= next) state = .error error state'') :
    first state = .error error state'' ∨
      ∃ answer state',
        first state = .ok answer state' ∧
          next answer state' = .error error state'' := by
  cases hFirst : first state with
  | ok answer state' =>
      rw [run_bind_ok hFirst] at hRun
      exact Or.inr ⟨answer, state', rfl, hRun⟩
  | error cause state' =>
      rw [run_bind_error hFirst] at hRun
      cases hRun
      exact Or.inl rfl

theorem run_map_ok
    {operation : EStateM ε σ α}
    {state state' : σ}
    {answer : α}
    (change : α → β)
    (hRun : operation state = .ok answer state') :
    (change <$> operation) state = .ok (change answer) state' := by
  rw [map_eq_pure_bind, run_bind_ok hRun]
  rfl

/- An answer that was changed is one that was given. -/
theorem run_map_eq_ok
    {change : α → β}
    {operation : EStateM ε σ α}
    {state state' : σ}
    {answer : β}
    (hRun : (change <$> operation) state =
      .ok answer state') :
    ∃ found, operation state = .ok found state' ∧
      answer = change found := by
  rw [map_eq_pure_bind] at hRun
  rcases run_bind_eq_ok hRun with ⟨found, _, hFound, hPure⟩
  cases hPure
  exact ⟨found, hFound, rfl⟩

theorem run_map_error
    {operation : EStateM ε σ α}
    {state state' : σ}
    {error : ε}
    (change : α → β)
    (hRun : operation state = .error error state') :
    (change <$> operation) state = .error error state' := by
  rw [map_eq_pure_bind, run_bind_error hRun]

/- A change of the answer does not fail. -/
theorem run_map_eq_error
    {change : α → β}
    {operation : EStateM ε σ α}
    {state state' : σ}
    {error : ε}
    (hRun : (change <$> operation) state =
      .error error state') :
    operation state = .error error state' := by
  rw [map_eq_pure_bind] at hRun
  cases hFirst : operation state with
  | ok answer middle =>
      rw [run_bind_ok hFirst] at hRun
      cases hRun
  | error cause middle =>
      rw [run_bind_error hFirst] at hRun
      cases hRun
      rfl

end Sequences

------------------------------------------------------------
-- Questions
------------------------------------------------------------

section Questions

variable {ε α β : Type}

theorem bind_ok
    {first : Except ε α}
    {next : α → Except ε β}
    {answer : α}
    (hFirst : first = .ok answer) :
    first >>= next = next answer := by
  rw [hFirst]
  rfl

/- A question that has an answer goes on with one. -/
theorem bind_eq_ok
    {first : Except ε α}
    {next : α → Except ε β}
    {answer : β}
    (hAnswer : first >>= next = .ok answer) :
    ∃ middle, first = .ok middle ∧ next middle = .ok answer := by
  cases first with
  | ok middle => exact ⟨middle, rfl, hAnswer⟩
  | error cause => cases hAnswer

/- A question that goes on with an answer fails in one of two. -/
theorem bind_eq_error
    {first : Except ε α}
    {next : α → Except ε β}
    {error : ε}
    (hError : first >>= next = .error error) :
    first = .error error ∨
      ∃ answer, first = .ok answer ∧
        next answer = .error error := by
  cases first with
  | ok answer => exact Or.inr ⟨answer, rfl, hError⟩
  | error cause =>
      cases hError
      exact Or.inl rfl

/- What always has an answer is not what fails. -/
theorem eq_error_of_bind
    {first : Except ε α}
    {next : α → Except ε β}
    {error : ε}
    (hNext : ∀ answer, ∃ found, next answer = .ok found)
    (hError : first >>= next = .error error) :
    first = .error error := by
  rcases bind_eq_error hError with hFirst | ⟨answer, _, hLast⟩
  · exact hFirst
  · rcases hNext answer with ⟨found, hFound⟩
    cases hFound.symm.trans hLast

theorem map_eq_error
    {question : Except ε α}
    {build : α → β}
    {error : ε}
    (hError : build <$> question = .error error) :
    question = .error error := by
  cases question with
  | ok answer => cases hError
  | error cause =>
      cases hError
      rfl

/- A list of questions fails with one of them. -/
theorem exists_of_mapM_error
    {question : α → Except ε β}
    {items : List α}
    {error : ε}
    (hError : items.mapM question = .error error) :
    ∃ item ∈ items, question item = .error error := by
  induction items with
  | nil =>
      rw [List.mapM_nil] at hError
      cases hError
  | cons item items ih =>
      rw [List.mapM_cons] at hError
      rcases bind_eq_error hError with hItem | ⟨_, _, hRest⟩
      · exact ⟨item, List.mem_cons_self, hItem⟩
      · rcases ih (eq_error_of_bind (fun _ => ⟨_, rfl⟩) hRest)
          with ⟨other, hMem, hOther⟩
        exact ⟨other, List.mem_cons_of_mem _ hMem, hOther⟩

/- Questions that are answered alike have the same answers. -/
theorem mapM_eq_ok
    {question question' : α → Except ε β}
    {items : List α}
    {answers : List β}
    (hSame : ∀ item ∈ items, ∀ answer,
      question item = .ok answer → question' item = .ok answer)
    (hAnswers : items.mapM question = .ok answers) :
    items.mapM question' = .ok answers := by
  induction items generalizing answers with
  | nil => exact hAnswers
  | cons item items ih =>
      rw [List.mapM_cons] at hAnswers ⊢
      rcases bind_eq_ok hAnswers with ⟨first, hFirst, hRest⟩
      rcases bind_eq_ok hRest with ⟨rest, hItems, hLast⟩
      rw [bind_ok (hSame item List.mem_cons_self first hFirst),
        bind_ok (ih (fun other hMem =>
          hSame other (List.mem_cons_of_mem _ hMem)) hItems)]
      exact hLast

end Questions

------------------------------------------------------------
-- First And Last States
------------------------------------------------------------

section States

variable {ε σ α β : Type}

/- The state in which a run ends, successful or not. -/
def finalState : EStateM.Result ε σ α → σ
  | .ok _ state => state
  | .error _ state => state

/- The answer of a run, if it has one. -/
def answer? : EStateM.Result ε σ α → Option α
  | .ok answer _ => some answer
  | .error _ _ => none

/- The error of a run, if it has one. -/
def error? : EStateM.Result ε σ α → Option ε
  | .ok _ _ => none
  | .error error _ => some error

theorem eq_ok_of_answer?
    {run : EStateM.Result ε σ α}
    {answer : α}
    (hAnswer : answer? run = some answer) :
    run = .ok answer (finalState run) := by
  cases run with
  | ok found state =>
      cases hAnswer
      rfl
  | error error state => cases hAnswer

theorem eq_error_of_error?
    {run : EStateM.Result ε σ α}
    {error : ε}
    (hError : error? run = some error) :
    run = .error error (finalState run) := by
  cases run with
  | ok answer state => cases hError
  | error found state =>
      cases hError
      rfl

/-
  A property of operations in a state that sequences inherit:
  a sequence has it if the parts of it that are run have it.
-/
structure Composes
    (J : (α : Type) → EStateM ε σ α → σ → Prop) : Prop where
  pure : ∀ {α : Type} (answer : α) (state : σ),
    J α (pure answer) state
  throw : ∀ {α : Type} (error : ε) (state : σ),
    J α (throw error) state
  bind : ∀ {α β : Type} {first : EStateM ε σ α}
      {next : α → EStateM ε σ β} {state : σ},
    J α first state →
      (∀ answer state', first state = .ok answer state' →
        J β (next answer) state') →
        J β (first >>= next) state

namespace Composes

variable {J : (α : Type) → EStateM ε σ α → σ → Prop}

theorem map
    (hJ : Composes J)
    {operation : EStateM ε σ α}
    {state : σ}
    (change : α → β)
    (hRun : J α operation state) :
    J β (change <$> operation) state := by
  rw [map_eq_pure_bind]
  exact hJ.bind hRun fun _ _ _ => hJ.pure _ _

theorem mapM
    (hJ : Composes J)
    {operation : α → EStateM ε σ β}
    (items : List α)
    (hEach : ∀ item ∈ items, ∀ state,
      J β (operation item) state)
    (state : σ) :
    J (List β) (items.mapM operation) state := by
  induction items generalizing state with
  | nil =>
      rw [List.mapM_nil]
      exact hJ.pure _ _
  | cons item items ih =>
      rw [List.mapM_cons]
      apply hJ.bind (hEach item (by simp) state)
      intro answer state' _
      apply hJ.bind (ih (fun other hMem =>
        hEach other (by simp [hMem])) state')
      intro answers state'' _
      exact hJ.pure _ _

theorem forM
    (hJ : Composes J)
    {operation : α → EStateM ε σ PUnit}
    (items : List α)
    (hEach : ∀ item ∈ items, ∀ state,
      J PUnit (operation item) state)
    (state : σ) :
    J PUnit (items.forM operation) state := by
  induction items generalizing state with
  | nil => exact hJ.pure _ _
  | cons item items ih =>
      apply hJ.bind (hEach item (by simp) state)
      intro _ state' _
      exact ih (fun other hMem =>
        hEach other (by simp [hMem])) state'

theorem optionMapM
    (hJ : Composes J)
    {operation : α → EStateM ε σ β}
    (item : Option α)
    (hEach : ∀ found, item = some found → ∀ state,
      J β (operation found) state)
    (state : σ) :
    J (Option β) (item.mapM operation) state := by
  cases item with
  | none => exact hJ.pure _ _
  | some found => exact hJ.map some (hEach found rfl state)

end Composes

/- The last state of a run is related to its first. -/
def Follows
    (R : σ → σ → Prop)
    (operation : EStateM ε σ α)
    (state : σ) : Prop :=
  R state (finalState (operation state))

/- What makes a relation one between earlier and later states. -/
structure IsHistory (R : σ → σ → Prop) : Prop where
  refl : ∀ state, R state state
  trans : ∀ {first second third},
    R first second → R second third → R first third

namespace Follows

variable {R : σ → σ → Prop}

theorem pure
    (hHistory : IsHistory R)
    (answer : α)
    (state : σ) :
    Follows R (pure answer : EStateM ε σ α) state :=
  hHistory.refl state

theorem throw
    (hHistory : IsHistory R)
    (error : ε)
    (state : σ) :
    Follows R (throw error : EStateM ε σ α) state :=
  hHistory.refl state

/- A sequence follows a relation if its parts do. -/
theorem bind
    (hHistory : IsHistory R)
    {first : EStateM ε σ α}
    {next : α → EStateM ε σ β}
    {state : σ}
    (hFirst : Follows R first state)
    (hNext : ∀ answer state',
      first state = .ok answer state' →
        Follows R (next answer) state') :
    Follows R (first >>= next) state := by
  unfold Follows at hFirst ⊢
  cases hRun : first state with
  | ok answer state' =>
      rw [run_bind_ok hRun]
      rw [hRun] at hFirst
      exact hHistory.trans hFirst (hNext answer state' hRun)
  | error error state' =>
      rw [run_bind_error hRun]
      rw [hRun] at hFirst
      exact hFirst

theorem composes (hHistory : IsHistory R) :
    Composes fun α (operation : EStateM ε σ α) state =>
      Follows R operation state where
  pure := Follows.pure hHistory
  throw := Follows.throw hHistory
  bind := Follows.bind hHistory

theorem map
    (hHistory : IsHistory R)
    {operation : EStateM ε σ α}
    {state : σ}
    (change : α → β)
    (hRun : Follows R operation state) :
    Follows R (change <$> operation) state :=
  (composes hHistory).map change hRun

theorem mapM
    (hHistory : IsHistory R)
    {operation : α → EStateM ε σ β}
    (items : List α)
    (hEach : ∀ item ∈ items, ∀ state,
      Follows R (operation item) state)
    (state : σ) :
    Follows R (items.mapM operation) state :=
  (composes hHistory).mapM items hEach state

theorem forM
    (hHistory : IsHistory R)
    {operation : α → EStateM ε σ PUnit}
    (items : List α)
    (hEach : ∀ item ∈ items, ∀ state,
      Follows R (operation item) state)
    (state : σ) :
    Follows R (items.forM operation) state :=
  (composes hHistory).forM items hEach state

theorem optionMapM
    (hHistory : IsHistory R)
    {operation : α → EStateM ε σ β}
    (item : Option α)
    (hEach : ∀ found, item = some found → ∀ state,
      Follows R (operation found) state)
    (state : σ) :
    Follows R (item.mapM operation) state :=
  (composes hHistory).optionMapM item hEach state

/- A run follows a relation by how it is known to end. -/
theorem of_ok
    {operation : EStateM ε σ α}
    {state state' : σ}
    {answer : α}
    (hRun : operation state = .ok answer state')
    (hRelated : R state state') :
    Follows R operation state := by
  unfold Follows
  rw [hRun]
  exact hRelated

theorem of_error
    {operation : EStateM ε σ α}
    {state state' : σ}
    {error : ε}
    (hRun : operation state = .error error state')
    (hRelated : R state state') :
    Follows R operation state := by
  unfold Follows
  rw [hRun]
  exact hRelated

/- The state that a run is known to end in is so related. -/
theorem run_ok
    {operation : EStateM ε σ α}
    {state state' : σ}
    {answer : α}
    (hFollows : Follows R operation state)
    (hRun : operation state = .ok answer state') :
    R state state' := by
  unfold Follows at hFollows
  rw [hRun] at hFollows
  exact hFollows

theorem run_error
    {operation : EStateM ε σ α}
    {state state' : σ}
    {error : ε}
    (hFollows : Follows R operation state)
    (hRun : operation state = .error error state') :
    R state state' := by
  unfold Follows at hFollows
  rw [hRun] at hFollows
  exact hFollows

theorem mono
    {R' : σ → σ → Prop}
    {operation : EStateM ε σ α}
    {state : σ}
    (hRun : Follows R operation state)
    (hMono : ∀ first second, R first second → R' first second) :
    Follows R' operation state :=
  hMono _ _ hRun

end Follows

end States

------------------------------------------------------------
-- Steps On Parts Of The Whole
------------------------------------------------------------

section Parts

variable {α : Type}

theorem run_inspect_ok
    {question : Tree → Except TreeFault α}
    {tree : Tree}
    {answer : α}
    (hAnswer : question tree = .ok answer) :
    TreeM.inspect question tree = .ok answer tree := by
  simp only [TreeM.inspect, hAnswer]

theorem run_inspect_error
    {question : Tree → Except TreeFault α}
    {tree : Tree}
    {fault : TreeFault}
    (hFault : question tree = .error fault) :
    TreeM.inspect question tree = .error fault tree := by
  simp only [TreeM.inspect, hFault]

theorem run_inspect_eq_ok
    {question : Tree → Except TreeFault α}
    {before after : Tree}
    {answer : α}
    (hRun : TreeM.inspect question before =
      .ok answer after) :
    question before = .ok answer ∧ after = before := by
  unfold TreeM.inspect at hRun
  split at hRun
  · next found hFound =>
    cases hRun
    exact ⟨hFound, rfl⟩
  · exact absurd hRun (by simp)

theorem run_liftTree_ok
    {operation : TreeM α}
    {workspace : Workspace}
    {answer : α}
    {tree : Tree}
    (hRun : operation workspace.tree = .ok answer tree) :
    (liftM operation : LowerM α) workspace =
      .ok answer { workspace with tree } := by
  simp only [liftM, monadLift, MonadLift.monadLift, hRun]

theorem run_liftTree_error
    {operation : TreeM α}
    {workspace : Workspace}
    {fault : TreeFault}
    {tree : Tree}
    (hRun : operation workspace.tree = .error fault tree) :
    (liftM operation : LowerM α) workspace =
      .error (.treeFault fault) { workspace with tree } := by
  simp only [liftM, monadLift, MonadLift.monadLift, hRun]

theorem run_inTree_ok
    {question : Tree → Except TreeFault α}
    {workspace : Workspace}
    {answer : α}
    (hAnswer : question workspace.tree = .ok answer) :
    Workspace.inTree question workspace =
      .ok answer workspace :=
  run_liftTree_ok (run_inspect_ok hAnswer)

theorem run_inTree_eq_ok
    {question : Tree → Except TreeFault α}
    {workspace workspace' : Workspace}
    {answer : α}
    (hRun : Workspace.inTree question workspace =
      .ok answer workspace') :
    question workspace.tree = .ok answer ∧
      workspace' = workspace := by
  cases hAnswer : question workspace.tree with
  | ok found =>
      rw [run_inTree_ok hAnswer] at hRun
      cases hRun
      exact ⟨rfl, rfl⟩
  | error fault =>
      have hFails : TreeM.inspect question workspace.tree =
          .error fault workspace.tree := by
        simp only [TreeM.inspect, hAnswer]
      rw [Workspace.inTree, run_liftTree_error hFails] at hRun
      cases hRun

/- The symbols of a workspace. -/
def Workspace.symbols (workspace : Workspace) : Symbols :=
  ⟨workspace.cache, workspace.env⟩

/- A workspace with other symbols. -/
def Workspace.withSymbols
    (workspace : Workspace)
    (symbols : Symbols) : Workspace :=
  { workspace with cache := symbols.cache, env := symbols.env }

theorem run_liftSymbols_ok
    {operation : SymbolM α}
    {workspace : Workspace}
    {answer : α}
    {symbols : Symbols}
    (hRun : operation workspace.symbols = .ok answer symbols) :
    (liftM operation : LowerM α) workspace =
      .ok answer (workspace.withSymbols symbols) := by
  unfold Workspace.symbols at hRun
  simp only [liftM, monadLift, MonadLift.monadLift, hRun]
  rfl

theorem run_liftSymbols_error
    {operation : SymbolM α}
    {workspace : Workspace}
    {error : LoweringError}
    {symbols : Symbols}
    (hRun : operation workspace.symbols = .error error symbols) :
    (liftM operation : LowerM α) workspace =
      .error error (workspace.withSymbols symbols) := by
  unfold Workspace.symbols at hRun
  simp only [liftM, monadLift, MonadLift.monadLift, hRun]
  rfl

theorem run_liftCache_ok
    {operation : CacheM α}
    {symbols : Symbols}
    {answer : α}
    {cache : Cache}
    (hRun : operation symbols.cache = .ok answer cache) :
    (liftM operation : SymbolM α) symbols =
      .ok answer ⟨cache, symbols.env⟩ := by
  simp only [liftM, monadLift, MonadLift.monadLift, hRun]

theorem run_liftCache_error
    {operation : CacheM α}
    {symbols : Symbols}
    {error : CacheError}
    {cache : Cache}
    (hRun : operation symbols.cache = .error error cache) :
    (liftM operation : SymbolM α) symbols =
      .error (.ofCache error) ⟨cache, symbols.env⟩ := by
  simp only [liftM, monadLift, MonadLift.monadLift, hRun]

/- Questions to the cache, and steps that must not fail. -/
theorem run_inspectCache_ok
    {question : Cache → Except CacheError α}
    {cache : Cache}
    {answer : α}
    (hAnswer : question cache = .ok answer) :
    CacheM.inspect question cache = .ok answer cache := by
  unfold CacheM.inspect
  rw [hAnswer]

theorem run_inspectCache_eq_ok
    {question : Cache → Except CacheError α}
    {cache cache' : Cache}
    {answer : α}
    (hRun : CacheM.inspect question cache = .ok answer cache') :
    question cache = .ok answer ∧ cache' = cache := by
  unfold CacheM.inspect at hRun
  cases hQuestion : question cache with
  | ok found =>
      rw [hQuestion] at hRun
      cases hRun
      exact ⟨rfl, rfl⟩
  | error error =>
      rw [hQuestion] at hRun
      cases hRun

theorem run_inspectCache_error
    {question : Cache → Except CacheError α}
    {cache : Cache}
    {error : CacheError}
    (hAnswer : question cache = .error error) :
    CacheM.inspect question cache = .error error cache := by
  unfold CacheM.inspect
  rw [hAnswer]

theorem run_fatal_ok
    {operation : CacheM α}
    {cache cache' : Cache}
    {answer : α}
    (hRun : operation cache = .ok answer cache') :
    CacheM.fatal operation cache = .ok answer cache' := by
  unfold CacheM.fatal EStateM.adaptExcept
  rw [hRun]

theorem run_fatal_error
    {operation : CacheM α}
    {cache cache' : Cache}
    {error : CacheError}
    (hRun : operation cache = .error error cache') :
    CacheM.fatal operation cache =
      .error error.fatal cache' := by
  unfold CacheM.fatal EStateM.adaptExcept
  rw [hRun]

end Parts

end Lowering
