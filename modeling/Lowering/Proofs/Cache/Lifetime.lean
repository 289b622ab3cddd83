import Mathlib.Data.List.Nodup
import Lowering.Proofs.Cache.Operation

/-
  This file proves how long handles live. A run is written up
  in a ledger: each step issues the handles that are live after
  it and were not live before, with the items that stand there.

  No handle is issued twice, whatever resets lie between. The
  live handles are those issued since the last reset; a type
  stays what it was when it was issued, and an element stays
  so but for what may be added to it.

  Key definitions include:
    * `Generation.entries`
    * `Ledger`
    * `Cache.Run`
    * `Cache.Run.through`

  Main results:
    * `Ledger.Agrees.record`
    * `Ledger.Agrees.close`
    * `Cache.Run.faithful_through`
    * `Cache.handles_live_until_reset`
-/

namespace Lowering

------------------------------------------------------------
-- Entries
------------------------------------------------------------

namespace Generation

variable {α : Type}

/- The live items, each with its handle. -/
def entries (generation : Generation α) : List (α × Nat) :=
  generation.items.toList.zipIdx generation.base

theorem mem_entries
    {generation : Generation α}
    {item : α}
    {handle : Nat} :
    (item, handle) ∈ generation.entries ↔
      generation.get? handle = some item := by
  unfold entries get?
  rw [List.mk_mem_zipIdx_iff_le_and_getElem?_sub,
    Array.getElem?_toList]
  constructor
  · rintro ⟨hBase, hItem⟩
    rw [if_neg (Nat.not_lt.mpr hBase)]
    exact hItem
  · intro hItem
    split at hItem
    · simp at hItem
    · next hBase => exact ⟨Nat.le_of_not_lt hBase, hItem⟩

/- Different items have different handles. -/
theorem nodup_entries (generation : Generation α) :
    (generation.entries.map Prod.snd).Nodup := by
  unfold entries
  rw [List.zipIdx_map_snd]
  exact List.nodup_range'

theorem entries_push
    (generation : Generation α)
    (item : α) :
    (generation.push item).entries =
      generation.entries ++ [(item, generation.next)] := by
  unfold entries push next
  rw [Array.toList_push, List.zipIdx_append]
  simp

end Generation

------------------------------------------------------------
-- Ledgers
------------------------------------------------------------

/-
  What a generation and its predecessors issued: the items
  since the last reset with their handles, as they were when
  they were issued, and the handles from before it.
-/
structure Ledger (α : Type) where
  current : List (α × Nat) := []
  past : List Nat := []

namespace Ledger

variable {α : Type}

/- Every handle that was ever issued. -/
def handles (ledger : Ledger α) : List Nat :=
  ledger.past ++ ledger.current.map Prod.snd

/- What became live in a step. -/
def fresh (before after : Generation α) : List (α × Nat) :=
  after.entries.filter
    fun entry => (before.get? entry.2).isNone

/- Write up a step. -/
def record
    (ledger : Ledger α)
    (before after : Generation α) : Ledger α :=
  { ledger with
    current := ledger.current ++ fresh before after }

/- Write up a reset. -/
def close (ledger : Ledger α) : Ledger α where
  current := []
  past := ledger.handles

theorem mem_fresh
    {before after : Generation α}
    {item : α}
    {handle : Nat} :
    (item, handle) ∈ fresh before after ↔
      after.get? handle = some item ∧
        before.get? handle = none := by
  unfold fresh
  rw [List.mem_filter, Generation.mem_entries,
    Option.isNone_iff_eq_none]

theorem handles_close (ledger : Ledger α) :
    ledger.close.handles = ledger.handles := by
  show ledger.handles ++ [] = ledger.handles
  exact List.append_nil _

/- A handle was issued before or is live after the step. -/
theorem mem_handles_record
    {ledger : Ledger α}
    {before after : Generation α}
    {handle : Nat}
    (hMem : handle ∈ (ledger.record before after).handles) :
    handle ∈ ledger.handles ∨
      ∃ item, after.get? handle = some item := by
  unfold handles record at hMem
  rw [List.map_append, ← List.append_assoc,
    List.mem_append] at hMem
  rcases hMem with hOld | hNew
  · exact Or.inl hOld
  · rcases List.mem_map.mp hNew with ⟨⟨item, _⟩, hFresh, rfl⟩
    exact Or.inr ⟨item, (mem_fresh.mp hFresh).1⟩

/- Making an item issues the next handle and no other. -/
theorem fresh_push
    (generation : Generation α)
    (item : α) :
    fresh generation (generation.push item) =
      [(item, generation.next)] := by
  have hOld : generation.entries.filter
      (fun entry => (generation.get? entry.2).isNone) = [] := by
    rw [List.filter_eq_nil_iff]
    rintro ⟨old, handle⟩ hMem
    rw [Generation.mem_entries.mp hMem]
    simp
  have hNew : generation.get? generation.next = none := by
    cases hGet : generation.get? generation.next with
    | none => rfl
    | some found =>
        exact absurd (Generation.bounds_of_get? hGet).2
          (Nat.lt_irrefl _)
  unfold fresh
  rw [Generation.entries_push, List.filter_append, hOld]
  simp [hNew]

/-
  The ledger and the generation tell the same: no handle was
  issued twice, those from before the last reset lie behind
  the base, and those since are live, with what is kept of
  the items that were issued.
-/
structure Agrees
    (Kept : α → α → Prop)
    (ledger : Ledger α)
    (generation : Generation α) : Prop where
  nodup : ledger.handles.Nodup
  past : ∀ handle ∈ ledger.past, handle < generation.base
  live : ∀ item handle, (item, handle) ∈ ledger.current →
    ∃ found, generation.get? handle = some found ∧
      Kept item found
  issued : ∀ item handle,
    generation.get? handle = some item →
      ∃ made, (made, handle) ∈ ledger.current

namespace Agrees

variable {Kept : α → α → Prop}
variable {ledger : Ledger α}
variable {before after : Generation α}

/- An empty generation has issued nothing. -/
theorem new (base : Nat) :
    Agrees Kept ({} : Ledger α) ⟨base, #[]⟩ where
  nodup := List.nodup_nil
  past := by simp
  live := by simp
  issued := by
    intro item handle hItem
    have hBounds := Generation.bounds_of_get? hItem
    exact absurd hBounds.1 (Nat.not_le.mpr hBounds.2)

/- A handle that becomes live was not issued before. -/
private theorem not_mem_handles
    (hAgrees : Agrees Kept ledger before)
    (hBase : after.base = before.base)
    {item : α}
    {handle : Nat}
    (hFresh : (item, handle) ∈ fresh before after) :
    handle ∉ ledger.handles := by
  rcases mem_fresh.mp hFresh with ⟨hAfter, hBefore⟩
  intro hMem
  rcases List.mem_append.mp hMem with hPast | hCurrent
  · have hLow := hAgrees.past handle hPast
    have hHigh := (Generation.bounds_of_get? hAfter).1
    omega
  · rcases List.mem_map.mp hCurrent with
      ⟨⟨made, _⟩, hMade, rfl⟩
    rcases hAgrees.live made _ hMade with ⟨found, hFound, _⟩
    rw [hBefore] at hFound
    cases hFound

/- A step that loses nothing is written up. -/
theorem record
    (hRefl : ∀ item, Kept item item)
    (hTrans : ∀ a b c, Kept a b → Kept b c → Kept a c)
    (hAgrees : Agrees Kept ledger before)
    (hGrown : Generation.Grown Kept before after) :
    Agrees Kept (ledger.record before after) after where
  nodup := by
    show (ledger.past ++ (ledger.current ++
      fresh before after).map Prod.snd).Nodup
    rw [List.map_append, ← List.append_assoc]
    apply List.Nodup.append hAgrees.nodup
    · exact (Generation.nodup_entries after).sublist
        (List.filter_sublist.map Prod.snd)
    · intro handle hOld hNew
      rcases List.mem_map.mp hNew with
        ⟨⟨item, _⟩, hFresh, rfl⟩
      exact hAgrees.not_mem_handles hGrown.base hFresh hOld
  past := by
    intro handle hPast
    rw [hGrown.base]
    exact hAgrees.past handle hPast
  live := by
    intro item handle hMem
    rcases List.mem_append.mp hMem with hOld | hNew
    · rcases hAgrees.live item handle hOld with
        ⟨found, hFound, hKept⟩
      rcases hGrown.kept handle found hFound with
        ⟨later, hLater, hKept'⟩
      exact ⟨later, hLater, hTrans _ _ _ hKept hKept'⟩
    · exact ⟨item, (mem_fresh.mp hNew).1, hRefl item⟩
  issued := by
    intro item handle hItem
    cases hBefore : before.get? handle with
    | none =>
        exact ⟨item, List.mem_append_right _
          (mem_fresh.mpr ⟨hItem, hBefore⟩)⟩
    | some old =>
        rcases hAgrees.issued old handle hBefore with
          ⟨made, hMade⟩
        exact ⟨made, List.mem_append_left _ hMade⟩

/- A reset is written up. -/
theorem close
    (hAgrees : Agrees Kept ledger before) :
    Agrees Kept ledger.close before.restart where
  nodup := by
    rw [handles_close]
    exact hAgrees.nodup
  past := by
    intro handle hMem
    show handle < before.next
    rcases List.mem_append.mp hMem with hPast | hCurrent
    · have hLow := hAgrees.past handle hPast
      unfold Generation.next
      omega
    · rcases List.mem_map.mp hCurrent with
        ⟨⟨made, _⟩, hMade, rfl⟩
      rcases hAgrees.live made _ hMade with ⟨found, hFound, _⟩
      exact (Generation.bounds_of_get? hFound).2
  live := by
    intro item handle hMem
    exact absurd hMem List.not_mem_nil
  issued :=
    have hNew : Agrees Kept ({} : Ledger α) before.restart :=
      new before.next
    hNew.issued

/- Items that stay as they are stand in the ledger. -/
theorem mem_current_iff
    (hAgrees : Agrees Eq ledger before)
    {item : α}
    {handle : Nat} :
    (item, handle) ∈ ledger.current ↔
      before.get? handle = some item := by
  constructor
  · intro hMem
    rcases hAgrees.live item handle hMem with ⟨_, hGet, rfl⟩
    exact hGet
  · intro hGet
    rcases hAgrees.issued item handle hGet with ⟨made, hMade⟩
    rcases hAgrees.live made handle hMade with ⟨_, hSame, rfl⟩
    rw [hGet] at hSame
    cases hSame
    exact hMade

end Agrees

end Ledger

namespace Cache

------------------------------------------------------------
-- Runs
------------------------------------------------------------

/- What can happen in a run. An operation may fail. -/
inductive Step
  | perform (operation : Operation)
  | add (binding : HostBinding)
  | reset

/- A table and a cache, with the ledgers of the run so far. -/
structure Run where
  table : BindingTable
  cache : Cache := {}
  types : Ledger TypeData := {}
  elements : Ledger ElementData := {}

namespace Run

/- Go on by a step and write it up. -/
def next (run : Run) : Step → Run
  | .perform operation =>
    let after :=
      finalState (operation.perform run.table run.cache)
    { run with
      cache := after
      types := run.types.record run.cache.types after.types
      elements :=
        run.elements.record run.cache.elements after.elements }
  | .add binding =>
    { run with table := (run.table.add binding).2 }
  | .reset =>
    { run with
      cache := run.cache.reset
      types := run.types.close
      elements := run.elements.close }

/- The run of a new cache through some steps. -/
def through (table : BindingTable) (steps : List Step) : Run :=
  steps.foldl next { table }

/-
  The ledgers tell what is in the cache, and that the fixed
  types were never issued.
-/
structure Faithful (run : Run) : Prop where
  reached : Reached (run.table, run.cache)
  types : run.types.Agrees Eq run.cache.types
  elements :
    run.elements.Agrees ElementData.Kept run.cache.elements
  fixed : ∀ handle ∈ run.types.handles, 2 ≤ handle

theorem Faithful.new (table : BindingTable) :
    Faithful { table } where
  reached := .new table
  types := .new 2
  elements := .new 0
  fixed := by simp [Ledger.handles]

/- Every step is written up faithfully. -/
theorem Faithful.next
    {run : Run}
    (hFaithful : run.Faithful)
    (step : Step) :
    (run.next step).Faithful := by
  cases step with
  | perform operation =>
      have hLater : Later (run.table, run.cache)
          (run.table, _) :=
        .perform operation (.same run.table run.cache)
      have hReached := hFaithful.reached.later hLater
      refine ⟨hReached, ?_, ?_, ?_⟩
      · exact hFaithful.types.record (fun _ => rfl)
          (fun _ _ _ => Eq.trans) hLater.grown.types
      · exact hFaithful.elements.record ElementData.Kept.refl
          ElementData.Kept.trans hLater.grown.elements
      · intro handle hMem
        rcases Ledger.mem_handles_record hMem with
          hOld | ⟨data, hLive⟩
        · exact hFaithful.fixed handle hOld
        · exact Nat.le_trans hReached.sound.base
            (Generation.bounds_of_get? hLive).1
  | add binding =>
      exact ⟨hFaithful.reached.later
          (.add binding (.same run.table run.cache)),
        hFaithful.types, hFaithful.elements, hFaithful.fixed⟩
  | reset =>
      refine ⟨hFaithful.reached.reset, hFaithful.types.close,
        hFaithful.elements.close, ?_⟩
      intro handle hMem
      rw [Run.next, Ledger.handles_close] at hMem
      exact hFaithful.fixed handle hMem

/- Every run is written up faithfully. -/
theorem faithful_through
    (table : BindingTable)
    (steps : List Step) :
    (through table steps).Faithful := by
  have hSteps : ∀ (steps : List Step) (run : Run),
      run.Faithful → (steps.foldl Run.next run).Faithful := by
    intro steps
    induction steps with
    | nil => exact fun _ hFaithful => hFaithful
    | cons step steps ih =>
        exact fun run hFaithful =>
          ih (run.next step) (hFaithful.next step)
  exact hSteps steps _ (.new table)

end Run

------------------------------------------------------------
-- Lifetimes
------------------------------------------------------------

/-
  In every run no handle is issued twice, where making a type
  or an element issues the handle that is given out for it. A
  type handle is live exactly if it is a fixed one or was
  issued since the last reset, and then stands for the type it
  was issued for. An element handle is live exactly if it was
  issued since the last reset, and then stands for the element
  it was issued for, to which only parameters, or annotations
  of a package, may have been added. Every other handle is
  answered as stale.
-/
theorem handles_live_until_reset
    (table : BindingTable)
    (steps : List Step)
    (run : Run)
    (hRun : run = Run.through table steps) :
    run.types.handles.Nodup ∧
    run.elements.handles.Nodup ∧
    (∀ kind origin ty after,
      addType kind origin run.cache = .ok ty after →
        Ledger.fresh run.cache.types after.types =
          [(⟨kind, origin⟩, ty.raw)]) ∧
    (∀ data element after,
      addElement data run.cache = .ok element after →
        Ledger.fresh run.cache.elements after.elements =
          [(data, element.raw)]) ∧
    (∀ ty data, run.cache.typeData ty = .ok data ↔
      (ty = noType ∧ data = ⟨.noType, .synthetic⟩) ∨
      (ty = nullType ∧ data = ⟨.nullType, .synthetic⟩) ∨
      (data, ty.raw) ∈ run.types.current) ∧
    (∀ ty, ty ≠ noType → ty ≠ nullType →
      (∀ data, (data, ty.raw) ∉ run.types.current) →
        run.cache.typeData ty =
          .error (.violation (.staleHandle (toString ty)))) ∧
    (∀ element made,
      (made, element.raw) ∈ run.elements.current →
        ∃ data, run.cache.element element = .ok data ∧
          made.Kept data) ∧
    (∀ element,
      (∀ made, (made, element.raw) ∉ run.elements.current) →
        run.cache.element element =
          .error
            (.violation (.staleHandle (toString element)))) := by
  have hFaithful := Run.faithful_through table steps
  rw [← hRun] at hFaithful
  have hBase := hFaithful.reached.sound.base
  refine ⟨hFaithful.types.nodup, hFaithful.elements.nodup,
    ?_, ?_, ?_, ?_, ?_, ?_⟩
  · intro kind origin ty after hAdd
    cases hAdd
    exact Ledger.fresh_push run.cache.types ⟨kind, origin⟩
  · intro data element after hAdd
    cases hAdd
    exact Ledger.fresh_push run.cache.elements data
  · intro ty data
    rw [hFaithful.types.mem_current_iff, typeData_eq_ok_iff,
      type?_eq_some_iff hBase]
  · intro ty hNoType hNullType hNone
    apply typeData_eq_stale
    cases hGet : run.cache.type? ty with
    | none => rfl
    | some data =>
        rcases (type?_eq_some_iff hBase).mp hGet with
          ⟨hEq, _⟩ | ⟨hEq, _⟩ | hLive
        · exact absurd hEq hNoType
        · exact absurd hEq hNullType
        · exact absurd
            (hFaithful.types.mem_current_iff.mpr hLive)
            (hNone data)
  · intro element made hMem
    rcases hFaithful.elements.live made element.raw hMem with
      ⟨data, hGet, hKept⟩
    exact ⟨data, element_eq_ok_iff.mpr hGet, hKept⟩
  · intro element hNone
    apply element_eq_stale
    cases hGet : run.cache.elements.get? element.raw with
    | none => rfl
    | some data =>
        rcases hFaithful.elements.issued data element.raw hGet
          with ⟨made, hMade⟩
        exact absurd hMade (hNone made)

/-
  A target scalar, made once more after a reset, and a method
  that takes it.
-/
def renewedScalar : Run :=
  Run.through {}
    [.perform (.nativeType "id"),
      .reset,
      .perform (.nativeType "id"),
      .perform (.newMethod "get:" ⟨0⟩ noType {}),
      .perform (.newParameter ⟨0⟩ "index" ⟨3⟩)]

/-
  The scalar has a new handle and the old one is stale. The
  method, made without parameters, is still live.
-/
theorem handles_live_until_reset_renewedScalar :
    renewedScalar.types.handles = [2, 3] ∧
    renewedScalar.types.handles.Nodup ∧
    renewedScalar.cache.typeData ⟨3⟩ =
      .ok ⟨.native ⟨1⟩, .synthetic⟩ ∧
    renewedScalar.cache.typeData ⟨2⟩ =
      .error (.violation (.staleHandle "TypeId(2)")) ∧
    ∃ data,
      renewedScalar.cache.element ⟨0⟩ = .ok data ∧
      ElementData.Kept
        { name := ⟨2⟩
          kind := .executable (some ⟨3⟩) [] noType
          origin := .generated
          enclosing := some ⟨0⟩ }
        data := by
  have hLive := handles_live_until_reset {} _ renewedScalar rfl
  have hCurrent : renewedScalar.types.current =
      [(⟨.native ⟨1⟩, .synthetic⟩, 3)] := by
    decide +kernel
  refine ⟨by decide +kernel, hLive.1, ?_, ?_, ?_⟩
  · apply (hLive.2.2.2.2.1 ⟨3⟩ _).mpr
    right
    right
    rw [hCurrent]
    exact List.mem_singleton.mpr rfl
  · apply hLive.2.2.2.2.2.1 ⟨2⟩ (by decide) (by decide)
    intro data hMem
    rw [hCurrent] at hMem
    cases List.mem_singleton.mp hMem
  · apply hLive.2.2.2.2.2.2.1 ⟨0⟩
    decide +kernel

end Cache

end Lowering
