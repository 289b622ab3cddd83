import Lowering.Proofs.Cache.Lifetime

/-
  This file follows a table and a cache through any steps:
  operations, failed ones among them, bindings that are added,
  and resets.

  Without a reset nothing is lost, and with one every element
  that was there is gone for good.

  Key definitions include:
    * `Cache.advance`
    * `Cache.advanceAll`

  Main results:
    * `Cache.Later.get?`
    * `Cache.later_advanceAll`
    * `Cache.reached_advanceAll`
    * `Cache.stale_of_reset`
-/

namespace Lowering

namespace Cache

------------------------------------------------------------
-- Steps
------------------------------------------------------------

/- A table and a cache after a step. -/
def advance
    (state : BindingTable × Cache) :
    Step → BindingTable × Cache
  | .perform operation =>
    (state.1, finalState (operation.perform state.1 state.2))
  | .add binding => ((state.1.add binding).2, state.2)
  | .reset => (state.1, state.2.reset)

/- A table and a cache after some steps, in turn. -/
def advanceAll
    (state : BindingTable × Cache)
    (steps : List Step) : BindingTable × Cache :=
  steps.foldl advance state

theorem advanceAll_append
    (state : BindingTable × Cache)
    (first second : List Step) :
    advanceAll state (first ++ second) =
      advanceAll (advanceAll state first) second :=
  List.foldl_append

theorem later_advance
    (state : BindingTable × Cache)
    (step : Step)
    (hStep : step ≠ .reset) :
    Later state (advance state step) := by
  cases step with
  | perform operation => exact .perform operation (.same _ _)
  | add binding => exact .add binding (.same _ _)
  | reset => exact absurd rfl hStep

/- Steps without a reset stay in the generation. -/
theorem later_advanceAll
    {steps : List Step}
    (hSteps : .reset ∉ steps)
    (state : BindingTable × Cache) :
    Later state (advanceAll state steps) := by
  induction steps generalizing state with
  | nil => exact .same _ _
  | cons step steps ih =>
      rw [List.mem_cons, not_or] at hSteps
      exact (later_advance state step (Ne.symm hSteps.1)).trans
        (ih hSteps.2 _)

theorem reached_advance
    {state : BindingTable × Cache}
    (hReached : Reached state)
    (step : Step) :
    Reached (advance state step) := by
  cases step with
  | perform operation =>
      exact hReached.later (.perform operation (.same _ _))
  | add binding =>
      exact hReached.later (.add binding (.same _ _))
  | reset => exact hReached.reset

theorem reached_advanceAll
    {state : BindingTable × Cache}
    (hReached : Reached state)
    (steps : List Step) :
    Reached (advanceAll state steps) := by
  induction steps generalizing state with
  | nil => exact hReached
  | cons step steps ih => exact ih (reached_advance hReached step)

/- A table that has grown still has its bindings. -/
theorem Later.get?
    {before after : BindingTable × Cache}
    (hLater : Later before after)
    {id : BindingId}
    {host : HostBinding}
    (hGet : before.1.get? id = some host) :
    after.1.get? id = some host :=
  hLater.keeps (fun table _ => table.get? id = some host)
    (fun _ _ _ hHost => hHost) (fun _ _ _ => get?_add) hGet

------------------------------------------------------------
-- Stale Elements
------------------------------------------------------------

/- No step gives back the handle of an element. -/
private theorem lt_next_advance
    {element : ElementId}
    {state : BindingTable × Cache}
    (hOld : element.raw < state.2.elements.next)
    (step : Step) :
    element.raw < (advance state step).2.elements.next := by
  cases step with
  | perform operation =>
      have hLater :=
        later_advance state (.perform operation) (by simp)
      exact Nat.lt_of_lt_of_le hOld hLater.grown.elements.next_le
  | add binding => exact hOld
  | reset =>
      unfold Generation.next at hOld ⊢
      exact hOld

/- A handle from before a reset stays behind every base. -/
private theorem lt_base_advance
    {element : ElementId}
    {state : BindingTable × Cache}
    (hOld : element.raw < state.2.elements.base)
    (step : Step) :
    element.raw < (advance state step).2.elements.base := by
  cases step with
  | perform operation =>
      have hLater :=
        later_advance state (.perform operation) (by simp)
      rw [hLater.grown.elements.base]
      exact hOld
  | add binding => exact hOld
  | reset => exact Nat.lt_of_lt_of_le hOld (Nat.le_add_right _ _)

private theorem lt_base_of_reset
    {element : ElementId}
    {state : BindingTable × Cache}
    {steps : List Step}
    (hOld : element.raw < state.2.elements.next)
    (hReset : .reset ∈ steps) :
    element.raw < (advanceAll state steps).2.elements.base := by
  have hKept : ∀ (steps : List Step)
      (state : BindingTable × Cache),
      element.raw < state.2.elements.base →
        element.raw <
          (advanceAll state steps).2.elements.base := by
    intro steps
    induction steps with
    | nil => exact fun _ hBase => hBase
    | cons step steps ih =>
        exact fun state hBase =>
          ih _ (lt_base_advance hBase step)
  induction steps generalizing state with
  | nil => cases hReset
  | cons step steps ih =>
      rcases List.mem_cons.mp hReset with rfl | hReset
      · exact hKept steps (advance state .reset) hOld
      · exact ih (lt_next_advance hOld step) hReset

/- An element from before a reset is stale for ever after it. -/
theorem stale_of_reset
    {element : ElementId}
    {data : ElementData}
    {state : BindingTable × Cache}
    {steps : List Step}
    (hLive : state.2.elements.get? element.raw = some data)
    (hReset : .reset ∈ steps) :
    (advanceAll state steps).2.elements.get? element.raw =
      none := by
  have hBase := lt_base_of_reset
    (Generation.bounds_of_get? hLive).2 hReset
  unfold Generation.get?
  rw [if_pos hBase]

end Cache

end Lowering
