import Lowering.Proofs.Arrays.Halted

/-
  This file describes how a walk of the pass comes out, and
  follows a walk over the children of a node. If no check on
  its way is refused, a walk has lowered its subtree. If one is,
  it has halted at the first: it has passed all checks before
  that one and asked nothing later.

  Key definitions include:
    * `Arrays.Went`
    * `Arrays.Stopped`
    * `Arrays.FaresWithin`

  Main results:
    * `Arrays.fares_children`
-/

namespace Lowering

namespace Arrays

open Symbols

------------------------------------------------------------
-- Outcomes
------------------------------------------------------------

section Outcomes

variable (symbols : Symbols)
variable (size : Nat)

/-
  A walk went over a subtree: it passed all checks, and the
  accesses that stores assign to are left as they were.
-/
structure Went
    (before after : Workspace)
    (old new : Placed)
    (asked : List Visit) : Prop where
  lowered : Lowered before after old new
  told : Told symbols after.symbols old new
  clean : ∀ check ∈ checks symbols old, check.flaw? = none
  asked : known size asked =
    known size (visits (checks symbols old))
  left : ∀ id target operands value,
    Storing symbols id target operands value old →
      target ∉ new.ids ∧
        after.tree.get? target = before.tree.get? target

/-
  A walk was stopped within a subtree, at the first check that
  was refused.
-/
structure Stopped
    (before after : Workspace)
    (old new : Placed)
    (passed : List Check)
    (check : Check)
    (cause : LoweringViolation)
    (asked : List Visit) : Prop where
  lowered : Lowered before after old new
  halted : Halted symbols after.symbols size passed check old
    new
  clean : ∀ earlier ∈ passed, earlier.flaw? = none
  flaw : check.flaw? = some cause
  asked : known size asked =
    known size (visits (passed ++ [check]))
  left : ∀ id target operands value,
    Storing symbols id target operands value old →
      .enter id ∈ visits passed →
        after.tree.get? target = before.tree.get? target

/- A loop over the children of a node went over them all. -/
structure LoopWent
    (before after : Workspace)
    (id : NodeId)
    (label : Label)
    (front rest news : List Placed)
    (asked : List Visit) : Prop where
  lowered : Lowered before after
    (.node id label (front ++ rest))
    (.node id label (front ++ news))
  told : List.Forall₂ (Told symbols after.symbols) rest news
  clean : ∀ check ∈ checksAll symbols rest, check.flaw? = none
  asked : known size asked =
    known size (visits (checksAll symbols rest))
  left : ∀ child ∈ rest, ∀ id target operands value,
    Storing symbols id target operands value child →
      target ∉ Placed.idsAll news ∧
        after.tree.get? target = before.tree.get? target
  origin : ∀ n ∈ Placed.idsAll news,
    n ∈ Placed.idsAll rest ∨ before.tree.size ≤ n.raw
  kept : ∀ n, n.raw < before.tree.size →
    n ∉ Placed.idsAll rest →
      n ≠ id →
        after.tree.get? n = before.tree.get? n

/- A loop over the children was stopped within one of them. -/
structure LoopStopped
    (before after : Workspace)
    (id : NodeId)
    (label : Label)
    (front walked : List Placed)
    (child : Placed)
    (back news : List Placed)
    (new : Placed)
    (passed : List Check)
    (check : Check)
    (cause : LoweringViolation)
    (asked : List Visit) : Prop where
  length_eq : walked.length = news.length
  lowered : Lowered before after
    (.node id label (front ++ (walked ++ child :: back)))
    (.node id label (front ++ (news ++ new :: back)))
  halted : Halted symbols after.symbols size passed check child
    new
  clean : ∀ earlier ∈ checksAll symbols walked ++ passed,
    earlier.flaw? = none
  flaw : check.flaw? = some cause
  asked : known size asked = known size
    (visits (checksAll symbols walked ++ passed ++ [check]))
  left : ∀ other id target operands value,
    Storing symbols id target operands value other →
      other ∈ walked ∨
          other = child ∧ .enter id ∈ visits passed →
        after.tree.get? target = before.tree.get? target
  kept : ∀ n, n.raw < before.tree.size →
    n ∉ Placed.idsAll (walked ++ child :: back) →
      n ≠ id →
        after.tree.get? n = before.tree.get? n

end Outcomes

------------------------------------------------------------
-- Loops
------------------------------------------------------------

section Walks

variable (table : BindingTable)
variable (options : Options)
variable (symbols : Symbols)
variable (size : Nat)

/-
  To a depth, a walk that succeeds went over its subtree, and
  one that is refused was stopped within it.
-/
def FaresWithin (depth : Nat) : Prop :=
  ∀ (before : Workspace) (placed : Placed),
    before.At placed →
      placed.ids.length ≤ depth →
        placed.view.Safe symbols.cache →
          symbols.Grown before.symbols →
            size ≤ before.tree.size →
    (∀ after,
      (visitor table options).walkWithin depth placed.id
          before = .ok () after →
        ∃ new asked,
          Records ((visitor table options).recording.walkWithin
            depth placed.id) before (.ok () after) asked ∧
            Went symbols size before after placed new
              asked) ∧
    ∀ cause after,
      (visitor table options).walkWithin depth placed.id
          before = .error (.violation cause) after →
        ∃ new passed check asked,
          Records ((visitor table options).recording.walkWithin
            depth placed.id) before
              (.error (.violation cause) after) asked ∧
            Stopped symbols size before after placed new passed
              check cause asked

variable {table} {options} {symbols} {size}
variable {before middle after : Workspace}
variable {id : NodeId}
variable {label : Label}
variable {front rest news : List Placed}
variable {child new : Placed}
variable {asked asked' : List Visit}
variable {depth : Nat}

/- What is said of a walk is said of it on record. -/
theorem faresWithin_iff :
    FaresWithin table options symbols size depth ↔
      ∀ (before : Workspace) (placed : Placed),
        before.At placed →
          placed.ids.length ≤ depth →
            placed.view.Safe symbols.cache →
              symbols.Grown before.symbols →
                size ≤ before.tree.size →
        Recounts
          ((visitor table options).walkWithin depth placed.id)
          ((visitor table options).recording.walkWithin depth
            placed.id)
          before
          (fun _ after asked => ∃ new,
            Went symbols size before after placed new asked)
          (fun cause after asked => ∃ new passed check,
            Stopped symbols size before after placed new passed
              check cause asked) := by
  constructor
  · intro hFares before placed hAt hDepth hSafe hGrown hSize
    rcases hFares before placed hAt hDepth hSafe hGrown hSize
      with ⟨hOk, hRefused⟩
    constructor
    · intro _ after hRun
      rcases hOk after hRun with ⟨new, asked, hRecords, hWent⟩
      exact ⟨asked, hRecords, new, hWent⟩
    · intro cause after hRun
      rcases hRefused cause after hRun with
        ⟨new, passed, check, asked, hRecords, hStopped⟩
      exact ⟨asked, hRecords, new, passed, check, hStopped⟩
  · intro hFares before placed hAt hDepth hSafe hGrown hSize
    have hRecounts :=
      hFares before placed hAt hDepth hSafe hGrown hSize
    constructor
    · intro after hRun
      rcases hRecounts.of_ok () after hRun with
        ⟨asked, hRecords, new, hWent⟩
      exact ⟨new, asked, hRecords, hWent⟩
    · intro cause after hRun
      rcases hRecounts.of_refused cause after hRun with
        ⟨asked, hRecords, new, passed, check, hStopped⟩
      exact ⟨new, passed, check, asked, hRecords, hStopped⟩

/- What lies in the siblings of a child lies apart from it. -/
private theorem apart_of_rest
    (hAt : before.At (.node id label (front ++ child :: rest)))
    {n : NodeId}
    (hIn : n ∈ Placed.idsAll rest) :
    n.raw < before.tree.size ∧ n ∉ child.ids ∧ n ≠ id := by
  have hBelow : n ∈
      (Placed.node id label (front ++ child :: rest)).ids := by
    simp [hIn]
  refine ⟨hAt.standing.holds.lt_size n hBelow, ?_, ?_⟩
  · intro hChild
    exact (hAt.standing.apart_of_child (Or.inl hChild)).1 hIn
  · rintro rfl
    have hNodup := hAt.standing.nodup
    rw [Placed.ids_node, List.nodup_cons] at hNodup
    exact hNodup.1 (by simp [hIn])

/- What was left in a sibling is left from before the child. -/
private theorem kept_of_rest
    (hAt : before.At (.node id label (front ++ child :: rest)))
    (hLowered : Lowered before middle child new)
    {n : NodeId}
    (hIn : n ∈ Placed.idsAll rest)
    (hLater : after.tree.get? n = middle.tree.get? n) :
    after.tree.get? n = before.tree.get? n := by
  rcases apart_of_rest hAt hIn with ⟨hLt, hNot, hNe⟩
  exact hLater.trans
    (hLowered.replaced.kept_of_child hAt.standing hLt hNot hNe)

namespace LoopWent

theorem nil
    (hAt : before.At (.node id label (front ++ []))) :
    LoopWent symbols size before before id label front [] []
      [] where
  lowered := Lowered.refl hAt
  told := .nil
  clean := by simp
  asked := by simp [visits]
  left := by simp
  origin := by simp
  kept := fun _ _ _ _ => rfl

/- A child was walked over, and then its siblings. -/
theorem cons
    (hAt : before.At (.node id label (front ++ child :: rest)))
    (hSafe : child.view.Safe symbols.cache)
    (hFirst : Went symbols size before middle child new asked)
    (hRest : LoopWent symbols size middle after id label
      (front ++ [new]) rest news asked') :
    LoopWent symbols size before after id label front
      (child :: rest) (new :: news) (asked ++ asked') := by
  have hLowered := hFirst.lowered
  have hSize := hLowered.replaced.grown
  have hWhole := hRest.lowered
  rw [← List.append_cons, ← List.append_cons] at hWhole
  have hUp := Lowered.ofChild hAt hLowered
  refine ⟨hUp.trans hAt hWhole, ?_, ?_, ?_, ?_, ?_, ?_⟩
  · exact .cons (hFirst.told.mono hWhole.grown hSafe)
      hRest.told
  · intro check hMem
    rw [checksAll_cons] at hMem
    rcases List.mem_append.mp hMem with hMem | hMem
    · exact hFirst.clean check hMem
    · exact hRest.clean check hMem
  · rw [known_append, hFirst.asked, hRest.asked]
    simp only [checksAll_cons, visits, List.map_append,
      known_append]
  · intro other hOther store target operands value hStoring
    have hIn := hStoring.mem_ids.2.1
    rw [Placed.idsAll_cons, List.mem_append, not_or]
    rcases List.mem_cons.mp hOther with rfl | hOther
    · rcases hFirst.left _ _ _ _ hStoring with ⟨hNot, hKept⟩
      rcases hAt.standing.apart_of_child (Or.inl hIn) with
        ⟨hApart, hNe⟩
      have hLt := hAt.standing.holds.lt_size target
        (Placed.ids_child_subset (by simp) hIn)
      refine ⟨⟨hNot, ?_⟩,
        (hRest.kept target (by omega) hApart hNe).trans hKept⟩
      intro hNew
      rcases hRest.origin target hNew with hRest | hMade
      · exact hApart hRest
      · omega
    · have hIn := Placed.ids_subset_idsAll hOther hIn
      rcases apart_of_rest hAt hIn with ⟨hLt, hApart, _⟩
      rcases hRest.left other hOther _ _ _ _ hStoring with
        ⟨hNot, hKept⟩
      refine ⟨⟨?_, hNot⟩,
        kept_of_rest hAt hLowered hIn hKept⟩
      intro hNew
      rcases hLowered.replaced.origin target hNew with
        hOld | hMade
      · exact hApart hOld
      · omega
  · intro n hMem
    rw [Placed.idsAll_cons, List.mem_append] at hMem ⊢
    rcases hMem with hMem | hMem
    · rcases hLowered.replaced.origin n hMem with hOld | hMade
      · exact Or.inl (Or.inl hOld)
      · exact Or.inr hMade
    · rcases hRest.origin n hMem with hOld | hMade
      · exact Or.inl (Or.inr hOld)
      · exact Or.inr (Nat.le_trans hSize hMade)
  · intro n hLt hNot hNe
    rw [Placed.idsAll_cons, List.mem_append, not_or] at hNot
    rw [hRest.kept n (by omega) hNot.2 hNe]
    exact hLowered.replaced.kept_of_child hAt.standing hLt
      hNot.1 hNe

end LoopWent

namespace LoopStopped

variable {walked back : List Placed}
variable {last newLast : Placed}
variable {passed : List Check}
variable {check : Check}
variable {cause : LoweringViolation}

/- The walk of a child was stopped. -/
theorem here
    (hAt : before.At (.node id label (front ++ child :: back)))
    (hStopped : Stopped symbols size before after child new
      passed check cause asked) :
    LoopStopped symbols size before after id label front []
      child back [] new passed check cause asked where
  length_eq := rfl
  lowered := Lowered.ofChild hAt hStopped.lowered
  halted := hStopped.halted
  clean := by
    rw [checksAll_nil, List.nil_append]
    exact hStopped.clean
  flaw := hStopped.flaw
  asked := by
    rw [checksAll_nil, List.nil_append]
    exact hStopped.asked
  left := by
    intro other store target operands value hStoring hPlace
    rcases hPlace with hWalked | ⟨rfl, hBegun⟩
    · exact absurd hWalked List.not_mem_nil
    · exact hStopped.left _ _ _ _ hStoring hBegun
  kept := by
    intro n hLt hNot hNe
    rw [List.nil_append, Placed.idsAll_cons, List.mem_append,
      not_or] at hNot
    exact hStopped.lowered.replaced.kept_of_child hAt.standing
      hLt hNot.1 hNe

/- A child was walked over, and then a sibling was not. -/
theorem later
    (hAt : before.At (.node id label
      (front ++ child :: (walked ++ last :: back))))
    (hFirst : Went symbols size before middle child new asked)
    (hRest : LoopStopped symbols size middle after id label
      (front ++ [new]) walked last back news newLast passed
        check cause asked') :
    LoopStopped symbols size before after id label front
      (child :: walked) last back (new :: news) newLast passed
        check cause (asked ++ asked') := by
  have hLowered := hFirst.lowered
  have hSize := hLowered.replaced.grown
  have hWhole := hRest.lowered
  rw [← List.append_cons, ← List.append_cons] at hWhole
  have hUp := Lowered.ofChild hAt hLowered
  refine ⟨congrArg (· + 1) hRest.length_eq,
    hUp.trans hAt hWhole, hRest.halted, ?_, hRest.flaw, ?_, ?_,
    ?_⟩
  · intro earlier hMem
    rw [checksAll_cons, List.append_assoc] at hMem
    rcases List.mem_append.mp hMem with hMem | hMem
    · exact hFirst.clean earlier hMem
    · exact hRest.clean earlier hMem
  · rw [known_append, hFirst.asked, hRest.asked]
    simp only [checksAll_cons, visits, List.map_append,
      known_append, List.append_assoc]
  · intro other store target operands value hStoring hPlace
    have hIn := hStoring.mem_ids.2.1
    have hLater
        (hMem : other ∈ walked ++ last :: back)
        (hPlace : other ∈ walked ∨
          other = last ∧ .enter store ∈ visits passed) :
        after.tree.get? target = before.tree.get? target :=
      kept_of_rest hAt hLowered
        (Placed.ids_subset_idsAll hMem hIn)
        (hRest.left _ _ _ _ _ hStoring hPlace)
    rcases hPlace with hWalked | ⟨rfl, hBegun⟩
    · rcases List.mem_cons.mp hWalked with rfl | hWalked
      · rcases hAt.standing.apart_of_child (Or.inl hIn) with
          ⟨hApart, hNe⟩
        have hLt := hAt.standing.holds.lt_size target
          (Placed.ids_child_subset (by simp) hIn)
        exact (hRest.kept target (by omega) hApart hNe).trans
          (hFirst.left _ _ _ _ hStoring).2
      · exact hLater (by simp [hWalked]) (Or.inl hWalked)
    · exact hLater (by simp) (Or.inr ⟨rfl, hBegun⟩)
  · intro n hLt hNot hNe
    rw [List.cons_append, Placed.idsAll_cons, List.mem_append,
      not_or] at hNot
    rw [hRest.kept n (by omega) hNot.2 hNe]
    exact hLowered.replaced.kept_of_child hAt.standing hLt
      hNot.1 hNe

end LoopStopped

/-
  The children are walked one after the other, up to the first
  whose walk is refused.
-/
theorem fares_children
    (hFares : FaresWithin table options symbols size depth)
    (rest front : List Placed)
    (hAt : before.At (.node id label (front ++ rest)))
    (hDepth : ∀ child ∈ rest, child.ids.length ≤ depth)
    (hSafe : ∀ child ∈ rest, child.view.Safe symbols.cache)
    (hGrown : symbols.Grown before.symbols)
    (hSize : size ≤ before.tree.size) :
    Recounts
      ((rest.map (·.id)).forM
        ((visitor table options).walkWithin depth))
      ((rest.map (·.id)).forM
        ((visitor table options).recording.walkWithin depth))
      before
      (fun _ after asked => ∃ news,
        LoopWent symbols size before after id label front rest
          news asked)
      (fun cause after asked =>
        ∃ walked child back news new passed check,
          rest = walked ++ child :: back ∧
            LoopStopped symbols size before after id label front
              walked child back news new passed check cause
                asked) := by
  induction rest generalizing front before with
  | nil => exact Recounts.pure ⟨[], .nil hAt⟩
  | cons child rest ih =>
      have hHere := faresWithin_iff.mp hFares before child
        (hAt.child (by simp)) (hDepth child (by simp))
        (hSafe child (by simp)) hGrown hSize
      refine hHere.bind ?_ ?_
      · rintro _ middle asked ⟨new, hWent⟩
        have hLowered := hWent.lowered
        have hStays := (Lowered.ofChild hAt hLowered).stays hAt
        rw [List.append_cons] at hStays
        refine (ih (front ++ [new]) hStays
          (fun other hMem => hDepth other (by simp [hMem]))
          (fun other hMem => hSafe other (by simp [hMem]))
          (hGrown.trans hLowered.grown)
          (Nat.le_trans hSize hLowered.replaced.grown)).mono
            ?_ ?_
        · rintro _ after later ⟨news, hLoop⟩
          exact ⟨new :: news,
            hLoop.cons hAt (hSafe child (by simp)) hWent⟩
        · rintro cause after later
            ⟨walked, last, back, news, newLast, passed, check,
              rfl, hLoop⟩
          exact ⟨child :: walked, last, back, new :: news,
            newLast, passed, check, rfl, hLoop.later hAt hWent⟩
      · rintro cause after asked ⟨new, passed, check, hStopped⟩
        exact ⟨[], child, rest, [], new, passed, check, rfl,
          .here hAt hStopped⟩

end Walks

end Arrays

end Lowering
