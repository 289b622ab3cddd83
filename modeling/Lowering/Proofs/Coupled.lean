import Lowering.Proofs.Run

/-
  This file states when two runs of the state monads are
  coupled: both have an answer, and the answers and the last
  states are related as is asked, or both fail with the same
  error.

  Two programs are compared part by part, as long as they take
  their parts in the same order. What relates the states
  between two parts is chosen by whoever compares them.

  Key definitions include:
    * `Coupled`

  Main results:
    * `Coupled.bind`
    * `Coupled.forM`
    * `Coupled.mapM`
    * `Coupled.liftTree`
    * `Coupled.liftSymbols`
    * `Coupled.liftCache`
-/

namespace Lowering

section Coupled

variable {ε σ σ' α α' β β' : Type}

/-
  Two runs end alike. Of the states in which they fail nothing
  is said, for nothing is run after a failure.
-/
inductive Coupled
    (Post : α → σ → α' → σ' → Prop) :
    EStateM.Result ε σ α → EStateM.Result ε σ' α' → Prop
  | ok
      {answer : α}
      {answer' : α'}
      {state : σ}
      {state' : σ'}
      (post : Post answer state answer' state') :
      Coupled Post (.ok answer state) (.ok answer' state')
  | error
      (cause : ε)
      (state : σ)
      (state' : σ') :
      Coupled Post (.error cause state) (.error cause state')

namespace Coupled

variable {Post Post₂ : α → σ → α' → σ' → Prop}
variable {Post' : β → σ → β' → σ' → Prop}
variable {state : σ} {state' : σ'}

theorem of_ok
    {operation : EStateM ε σ α}
    {operation' : EStateM ε σ' α'}
    {answer : α}
    {answer' : α'}
    {after : σ}
    {after' : σ'}
    (hRun : operation state = .ok answer after)
    (hRun' : operation' state' = .ok answer' after')
    (hPost : Post answer after answer' after') :
    Coupled Post (operation state) (operation' state') := by
  rw [hRun, hRun']
  exact .ok hPost

theorem of_error
    {operation : EStateM ε σ α}
    {operation' : EStateM ε σ' α'}
    {cause : ε}
    {after : σ}
    {after' : σ'}
    (hRun : operation state = .error cause after)
    (hRun' : operation' state' = .error cause after') :
    Coupled Post (operation state) (operation' state') := by
  rw [hRun, hRun']
  exact .error cause after after'

theorem throw (cause : ε) :
    Coupled Post
      ((MonadExcept.throw cause : EStateM ε σ α) state)
      ((MonadExcept.throw cause : EStateM ε σ' α') state') :=
  .error cause state state'

theorem mono
    {run : EStateM.Result ε σ α}
    {run' : EStateM.Result ε σ' α'}
    (hRuns : Coupled Post run run')
    (hMono : ∀ answer after answer' after',
      Post answer after answer' after' →
        Post₂ answer after answer' after') :
    Coupled Post₂ run run' := by
  cases hRuns with
  | ok hPost => exact .ok (hMono _ _ _ _ hPost)
  | error cause after after' => exact .error cause after after'

/- What each run keeps by itself is kept by both. -/
theorem follows
    {R : σ → σ → Prop}
    {R' : σ' → σ' → Prop}
    {operation : EStateM ε σ α}
    {operation' : EStateM ε σ' α'}
    (hRuns : Coupled Post (operation state) (operation' state'))
    (hFollows : Follows R operation state)
    (hFollows' : Follows R' operation' state') :
    Coupled
      (fun answer after answer' after' =>
        R state after ∧ R' state' after' ∧
          Post answer after answer' after')
      (operation state) (operation' state') := by
  generalize hRun : operation state = run at hRuns ⊢
  generalize hRun' : operation' state' = run' at hRuns ⊢
  cases hRuns with
  | ok hPost =>
      exact .ok ⟨hFollows.run_ok hRun, hFollows'.run_ok hRun',
        hPost⟩
  | error cause after after' => exact .error cause after after'

/- Sequences are coupled if their parts are. -/
theorem bind
    {first : EStateM ε σ α}
    {first' : EStateM ε σ' α'}
    {next : α → EStateM ε σ β}
    {next' : α' → EStateM ε σ' β'}
    (hFirst : Coupled Post (first state) (first' state'))
    (hNext : ∀ answer after answer' after',
      Post answer after answer' after' →
        Coupled Post' (next answer after)
          (next' answer' after')) :
    Coupled Post' ((first >>= next) state)
      ((first' >>= next') state') := by
  cases hRun : first state with
  | ok answer after =>
      cases hRun' : first' state' with
      | ok answer' after' =>
          rw [run_bind_ok hRun, run_bind_ok hRun']
          rw [hRun, hRun'] at hFirst
          cases hFirst with
          | ok hPost => exact hNext _ _ _ _ hPost
      | error cause after' =>
          rw [hRun, hRun'] at hFirst
          cases hFirst
  | error cause after =>
      cases hRun' : first' state' with
      | ok answer' after' =>
          rw [hRun, hRun'] at hFirst
          cases hFirst
      | error cause' after' =>
          rw [run_bind_error hRun, run_bind_error hRun']
          rw [hRun, hRun'] at hFirst
          cases hFirst
          exact .error cause after after'

section Lists

variable {Still : σ → σ' → Prop}

/- What is done with each item in a row keeps what holds. -/
theorem forM
    {step : α → EStateM ε σ PUnit}
    {step' : α → EStateM ε σ' PUnit}
    (items : List α)
    (hStep : ∀ item state state', Still state state' →
      Coupled (fun _ after _ after' => Still after after')
        (step item state) (step' item state'))
    (hStill : Still state state') :
    Coupled (fun _ after _ after' => Still after after')
      (items.forM step state) (items.forM step' state') := by
  induction items generalizing state state' with
  | nil => exact .ok hStill
  | cons item items ih =>
      apply (hStep item state state' hStill).bind
      intro _ after _ after' hAfter
      exact ih hAfter

/- Where each item has one answer in both, so has the list. -/
theorem mapM
    {step : α → EStateM ε σ β}
    {step' : α → EStateM ε σ' β}
    (items : List α)
    (hStep : ∀ item state state', Still state state' →
      Coupled
        (fun answer after answer' after' =>
          answer = answer' ∧ Still after after')
        (step item state) (step' item state'))
    (hStill : Still state state') :
    Coupled
      (fun answers after answers' after' =>
        answers = answers' ∧ Still after after')
      (items.mapM step state) (items.mapM step' state') := by
  induction items generalizing state state' with
  | nil =>
      rw [List.mapM_nil, List.mapM_nil]
      exact .ok ⟨rfl, hStill⟩
  | cons item items ih =>
      rw [List.mapM_cons, List.mapM_cons]
      apply (hStep item state state' hStill).bind
      rintro answer after _ after' ⟨rfl, hAfter⟩
      apply (ih hAfter).bind
      rintro answers last _ last' ⟨rfl, hLast⟩
      exact .ok ⟨rfl, hLast⟩

end Lists

end Coupled

end Coupled

------------------------------------------------------------
-- Steps On Parts Of The Whole
------------------------------------------------------------

namespace Coupled

variable {α α' : Type}

/- The same question to two trees. -/
theorem inTree
    {Post : α → Workspace → α → Workspace → Prop}
    {question : Tree → Except TreeFault α}
    {workspace workspace' : Workspace}
    (hSame : question workspace.tree =
      question workspace'.tree)
    (hPost : ∀ answer,
      question workspace.tree = .ok answer →
        Post answer workspace answer workspace') :
    Coupled Post (Workspace.inTree question workspace)
      (Workspace.inTree question workspace') := by
  cases hAnswer : question workspace.tree with
  | ok answer =>
      exact of_ok (run_inTree_ok hAnswer)
        (run_inTree_ok (hSame ▸ hAnswer)) (hPost answer hAnswer)
  | error fault =>
      have hFails : ∀ tree : Tree,
          question tree = .error fault →
            TreeM.inspect question tree =
              .error fault tree := by
        intro tree hTree
        simp only [TreeM.inspect, hTree]
      exact of_error
        (run_liftTree_error (hFails _ hAnswer))
        (run_liftTree_error (hFails _ (hSame ▸ hAnswer)))

/- A step on the trees alone. -/
theorem liftTree
    {Post : α → Tree → α' → Tree → Prop}
    {Post' : α → Workspace → α' → Workspace → Prop}
    {operation : TreeM α}
    {operation' : TreeM α'}
    {workspace workspace' : Workspace}
    (hRuns : Coupled Post (operation workspace.tree)
      (operation' workspace'.tree))
    (hPost : ∀ answer tree answer' tree',
      Post answer tree answer' tree' →
        Post' answer { workspace with tree } answer'
          { workspace' with tree := tree' }) :
    Coupled Post' ((liftM operation : LowerM α) workspace)
      ((liftM operation' : LowerM α') workspace') := by
  generalize hRun : operation workspace.tree = run at hRuns
  generalize hRun' : operation' workspace'.tree = run' at hRuns
  cases hRuns with
  | ok hFound =>
      exact of_ok (run_liftTree_ok hRun)
        (run_liftTree_ok hRun') (hPost _ _ _ _ hFound)
  | error =>
      exact of_error (run_liftTree_error hRun)
        (run_liftTree_error hRun')

/- A step on the symbols alone. -/
theorem liftSymbols
    {Post : α → Symbols → α' → Symbols → Prop}
    {Post' : α → Workspace → α' → Workspace → Prop}
    {operation : SymbolM α}
    {operation' : SymbolM α'}
    {workspace workspace' : Workspace}
    (hRuns : Coupled Post (operation workspace.symbols)
      (operation' workspace'.symbols))
    (hPost : ∀ answer symbols answer' symbols',
      Post answer symbols answer' symbols' →
        Post' answer (workspace.withSymbols symbols) answer'
          (workspace'.withSymbols symbols')) :
    Coupled Post' ((liftM operation : LowerM α) workspace)
      ((liftM operation' : LowerM α') workspace') := by
  generalize hRun : operation workspace.symbols = run at hRuns
  generalize hRun' : operation' workspace'.symbols =
    run' at hRuns
  cases hRuns with
  | ok hFound =>
      exact of_ok (run_liftSymbols_ok hRun)
        (run_liftSymbols_ok hRun') (hPost _ _ _ _ hFound)
  | error =>
      exact of_error (run_liftSymbols_error hRun)
        (run_liftSymbols_error hRun')

/- A step on the caches alone. -/
theorem liftCache
    {Post : α → Cache → α' → Cache → Prop}
    {Post' : α → Symbols → α' → Symbols → Prop}
    {operation : CacheM α}
    {operation' : CacheM α'}
    {symbols symbols' : Symbols}
    (hRuns : Coupled Post (operation symbols.cache)
      (operation' symbols'.cache))
    (hPost : ∀ answer cache answer' cache',
      Post answer cache answer' cache' →
        Post' answer ⟨cache, symbols.env⟩ answer'
          ⟨cache', symbols'.env⟩) :
    Coupled Post' ((liftM operation : SymbolM α) symbols)
      ((liftM operation' : SymbolM α') symbols') := by
  generalize hRun : operation symbols.cache = run at hRuns
  generalize hRun' : operation' symbols'.cache = run' at hRuns
  cases hRuns with
  | ok hFound =>
      exact of_ok (run_liftCache_ok hRun)
        (run_liftCache_ok hRun') (hPost _ _ _ _ hFound)
  | error =>
      exact of_error (run_liftCache_error hRun)
        (run_liftCache_error hRun')

/- Questions with one answer, also if violations are faults. -/
theorem inspect
    {Post : α → Cache → α → Cache → Prop}
    {question question' : Cache → Except CacheError α}
    {cache cache' : Cache}
    (hSame : question cache = question' cache')
    (hPost : ∀ answer, question cache = .ok answer →
      Post answer cache answer cache') :
    Coupled Post (CacheM.inspect question cache)
      (CacheM.inspect question' cache') := by
  cases hAnswer : question cache with
  | ok answer =>
      exact of_ok (run_inspectCache_ok hAnswer)
        (run_inspectCache_ok (hSame ▸ hAnswer))
        (hPost answer hAnswer)
  | error error =>
      exact of_error (run_inspectCache_error hAnswer)
        (run_inspectCache_error (hSame ▸ hAnswer))

theorem fatal
    {Post : α → Cache → α' → Cache → Prop}
    {operation : CacheM α}
    {operation' : CacheM α'}
    {cache cache' : Cache}
    (hRuns : Coupled Post (operation cache)
      (operation' cache')) :
    Coupled Post (CacheM.fatal operation cache)
      (CacheM.fatal operation' cache') := by
  generalize hRun : operation cache = run at hRuns
  generalize hRun' : operation' cache' = run' at hRuns
  cases hRuns with
  | ok hFound =>
      exact of_ok (run_fatal_ok hRun) (run_fatal_ok hRun') hFound
  | error =>
      exact of_error (run_fatal_error hRun)
        (run_fatal_error hRun')

end Coupled

end Lowering
