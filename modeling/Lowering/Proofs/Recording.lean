import Lowering.Proofs.Run
import Lowering.Proofs.Tree.Validation

/-
  This file defines what it is to record what a visitor is
  asked. A step that fails keeps what was asked before, so the
  record of a walk is also known if the walk is refused. What is
  known of the parts of a sequence is known of the whole.

  Key definitions include:
    * `Visitor.recording`
    * `Records`
    * `Recounts`
    * `known`
-/

namespace Lowering

------------------------------------------------------------
-- Records
------------------------------------------------------------

/- What a pass works on, and what was asked so far. -/
structure Recording where
  workspace : Workspace
  asked : List Visit

/-
  A step of lowering on record. A failed step keeps what was
  asked before it failed.
-/
abbrev RecordM := EStateM LoweringError Recording

/- A result, with what was asked until then. -/
def onRecord
    {α : Type}
    (asked : List Visit) :
    EStateM.Result LoweringError Workspace α →
      EStateM.Result LoweringError Recording α
  | .ok answer workspace => .ok answer ⟨workspace, asked⟩
  | .error error workspace => .error error ⟨workspace, asked⟩

instance : MonadLift LowerM RecordM where
  monadLift operation := fun ⟨workspace, asked⟩ =>
    onRecord asked (operation workspace)

/- Record that something is asked. -/
def record (visit : Visit) : RecordM Unit :=
  modify fun ⟨workspace, asked⟩ => ⟨workspace, asked ++ [visit]⟩

/- A visitor that records each question and then answers it. -/
def Visitor.recording
    (visitor : Visitor LowerM) : Visitor RecordM where
  enter id tag := do
    record (.enter id)
    visitor.enter id tag
  leave id tag := do
    record (.leave id)
    visitor.leave id tag
  reach := visitor.reach

/- On record, an operation has a result after some questions. -/
def Records
    {α : Type}
    (operation : RecordM α)
    (before : Workspace)
    (result : EStateM.Result LoweringError Workspace α)
    (asked : List Visit) : Prop :=
  ∀ earlier,
    operation ⟨before, earlier⟩ =
      onRecord (earlier ++ asked) result

namespace Records

variable {α β : Type}
variable {before middle : Workspace}
variable {asked asked' : List Visit}

theorem bind
    {first : RecordM α}
    {next : α → RecordM β}
    {answer : α}
    {result : EStateM.Result LoweringError Workspace β}
    (hFirst : Records first before (.ok answer middle) asked)
    (hNext : Records (next answer) middle result asked') :
    Records (first >>= next) before result
      (asked ++ asked') := by
  intro earlier
  have hLast := hNext (earlier ++ asked)
  rw [List.append_assoc] at hLast
  exact (run_bind_ok (hFirst earlier)).trans hLast

/- After a failure, nothing is asked. -/
theorem fail
    {first : RecordM α}
    {error : LoweringError}
    (hFirst : Records first before (.error error middle) asked)
    (next : α → RecordM β) :
    Records (first >>= next) before (.error error middle)
      asked :=
  fun earlier => run_bind_error (hFirst earlier)

theorem pure (answer : α) (workspace : Workspace) :
    Records (Pure.pure answer) workspace (.ok answer workspace)
      [] := by
  intro earlier
  rw [List.append_nil]
  rfl

/- What the plain visitor does is not recorded. -/
theorem lift
    {operation : LowerM α}
    {result : EStateM.Result LoweringError Workspace α}
    (hRun : operation before = result) :
    Records (liftM operation) before result [] := by
  intro earlier
  rw [List.append_nil, ← hRun]
  rfl

/- A question is recorded, and then it is answered. -/
theorem recorded
    {visit : Visit}
    {operation : LowerM α}
    {result : EStateM.Result LoweringError Workspace α}
    (hRun : operation before = result) :
    Records (do
        record visit
        liftM operation) before result [visit] := by
  have hRecord : Records (record visit) before (.ok () before)
      [visit] := fun _ => rfl
  exact hRecord.bind (lift hRun)

/- A question about the tree is none of the visitor. -/
theorem inTree
    {question : Tree → Except TreeFault α}
    {answer : α}
    (hAnswer : question before.tree = .ok answer) :
    Records (liftM (TreeM.inspect question)) before
      (.ok answer before) [] :=
  lift (run_inTree_ok hAnswer)

end Records

------------------------------------------------------------
-- Operations And Their Records
------------------------------------------------------------

/-
  On record, an operation comes out as it does otherwise, and
  something is known of what was asked until then, if it
  succeeds and if it is refused.
-/
structure Recounts
    {α : Type}
    (operation : LowerM α)
    (recorded : RecordM α)
    (before : Workspace)
    (passes : α → Workspace → List Visit → Prop)
    (stops : LoweringViolation → Workspace → List Visit → Prop) :
    Prop where
  of_ok : ∀ answer after,
    operation before = .ok answer after →
      ∃ asked,
        Records recorded before (.ok answer after) asked ∧
          passes answer after asked
  of_refused : ∀ cause after,
    operation before = .error (.violation cause) after →
      ∃ asked,
        Records recorded before
            (.error (.violation cause) after) asked ∧
          stops cause after asked

namespace Recounts

variable {α β : Type}
variable {operation : LowerM α}
variable {recorded : RecordM α}
variable {next : α → LowerM β}
variable {nextRecorded : α → RecordM β}
variable {before : Workspace}
variable {passes passes' : α → Workspace → List Visit → Prop}
variable {passesAll : β → Workspace → List Visit → Prop}
variable {stops stopsAll :
  LoweringViolation → Workspace → List Visit → Prop}

theorem mono
    (hRecounts : Recounts operation recorded before passes
      stops)
    (hPasses : ∀ answer after asked,
      passes answer after asked → passes' answer after asked)
    (hStops : ∀ cause after asked,
      stops cause after asked → stopsAll cause after asked) :
    Recounts operation recorded before passes' stopsAll where
  of_ok := by
    intro answer after hRun
    rcases hRecounts.of_ok answer after hRun with
      ⟨asked, hRecords, hPass⟩
    exact ⟨asked, hRecords, hPasses _ _ _ hPass⟩
  of_refused := by
    intro cause after hRun
    rcases hRecounts.of_refused cause after hRun with
      ⟨asked, hRecords, hStop⟩
    exact ⟨asked, hRecords, hStops _ _ _ hStop⟩

/-
  A sequence asks what its first part asks, and then, if that
  succeeds, what the second part asks.
-/
theorem bind
    (hFirst : Recounts operation recorded before passes stops)
    (hNext : ∀ answer middle asked,
      passes answer middle asked →
        Recounts (next answer) (nextRecorded answer) middle
          (fun last after later =>
            passesAll last after (asked ++ later))
          (fun cause after later =>
            stopsAll cause after (asked ++ later)))
    (hStops : ∀ cause after asked,
      stops cause after asked → stopsAll cause after asked) :
    Recounts (operation >>= next) (recorded >>= nextRecorded)
      before passesAll stopsAll where
  of_ok := by
    intro last after hRun
    rcases run_bind_eq_ok hRun with
      ⟨answer, middle, hHere, hRest⟩
    rcases hFirst.of_ok answer middle hHere with
      ⟨asked, hRecords, hPass⟩
    rcases (hNext answer middle asked hPass).of_ok last after
        hRest with ⟨later, hLater, hWhole⟩
    exact ⟨asked ++ later, hRecords.bind hLater, hWhole⟩
  of_refused := by
    intro cause after hRun
    rcases run_bind_eq_error hRun with
      hHere | ⟨answer, middle, hHere, hRest⟩
    · rcases hFirst.of_refused cause after hHere with
        ⟨asked, hRecords, hStop⟩
      exact ⟨asked, hRecords.fail _, hStops _ _ _ hStop⟩
    · rcases hFirst.of_ok answer middle hHere with
        ⟨asked, hRecords, hPass⟩
      rcases (hNext answer middle asked hPass).of_refused cause
          after hRest with ⟨later, hLater, hWhole⟩
      exact ⟨asked ++ later, hRecords.bind hLater, hWhole⟩

theorem pure
    {answer : α}
    (hPass : passes answer before []) :
    Recounts (Pure.pure answer) (Pure.pure answer) before passes
      stops where
  of_ok := by
    intro _ _ hRun
    cases hRun
    exact ⟨[], Records.pure answer before, hPass⟩
  of_refused := nofun

/- A question to the visitor is asked, and then it runs. -/
theorem asks
    (visit : Visit)
    (operation : LowerM α)
    (before : Workspace) :
    Recounts operation
      (do
        record visit
        liftM operation) before
      (fun answer after asked =>
        operation before = .ok answer after ∧ asked = [visit])
      (fun cause after asked =>
        operation before = .error (.violation cause) after ∧
          asked = [visit]) where
  of_ok _ _ hRun :=
    ⟨[visit], Records.recorded hRun, hRun, rfl⟩
  of_refused _ _ hRun :=
    ⟨[visit], Records.recorded hRun, hRun, rfl⟩

/- A question about the tree is none of the visitor. -/
theorem inTree
    {question : Tree → Except TreeFault α}
    {answer : α}
    (hAnswer : question before.tree = .ok answer)
    (hNext : Recounts (next answer) (nextRecorded answer) before
      passesAll stopsAll) :
    Recounts (Workspace.inTree question >>= next)
      (liftM (TreeM.inspect question) >>= nextRecorded) before
      passesAll stopsAll where
  of_ok := by
    intro last after hRun
    rw [run_bind_ok (run_inTree_ok hAnswer)] at hRun
    rcases hNext.of_ok last after hRun with
      ⟨asked, hRecords, hPass⟩
    exact ⟨asked, (Records.inTree hAnswer).bind hRecords, hPass⟩
  of_refused := by
    intro cause after hRun
    rw [run_bind_ok (run_inTree_ok hAnswer)] at hRun
    rcases hNext.of_refused cause after hRun with
      ⟨asked, hRecords, hStop⟩
    exact ⟨asked, (Records.inTree hAnswer).bind hRecords, hStop⟩

end Recounts

------------------------------------------------------------
-- Visits Of Known Nodes
------------------------------------------------------------

/- The node that a visitor is asked about. -/
def Visit.node : Visit → NodeId
  | enter id => id
  | leave id => id

/- The visits of nodes that were there from the start. -/
def known (size : Nat) (visits : List Visit) : List Visit :=
  visits.filter fun visit => visit.node.raw < size

section Known

variable (size : Nat)

@[simp] theorem known_nil : known size [] = [] := rfl

@[simp] theorem known_append (front back : List Visit) :
    known size (front ++ back) =
      known size front ++ known size back :=
  List.filter_append _ _

theorem known_cons
    {later later' : List Visit}
    (visit : Visit)
    (hLater : known size later = known size later') :
    known size (visit :: later) = known size (visit :: later') := by
  unfold known at hLater ⊢
  rw [List.filter_cons, List.filter_cons, hLater]

/- A visit of a node that was made later is no known one. -/
theorem known_cons_made
    {visit : Visit}
    (hMade : size ≤ visit.node.raw)
    (later : List Visit) :
    known size (visit :: later) = known size later := by
  unfold known
  rw [List.filter_cons_of_neg]
  simpa using hMade

end Known

end Lowering
