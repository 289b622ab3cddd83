import Lowering.Proofs.Arrays.Outcomes

/-
  This file proves that each walk of the pass comes out in one
  of two ways: it goes over its subtree, or it is stopped at the
  first check that is refused.

  A node is checked, then its children are walked, then it is
  checked again. At a store, the walk goes through the call that
  has taken its place; the call is never refused itself, so that
  the walk is stopped within an operand or not at all.

  Main results:
    * `Arrays.faresWithin`
-/

namespace Lowering

namespace Arrays

open Symbols

section Walks

variable {table : BindingTable}
variable {options : Options}
variable {symbols : Symbols}
variable {size : Nat}
variable {before middle after : Workspace}
variable {id : NodeId}
variable {label : Label}
variable {news : List Placed}
variable {child new : Placed}
variable {asked : List Visit}
variable {depth : Nat}

/- What was told of subtrees is told in later symbols. -/
private theorem told_mono
    {later latest : Symbols}
    {olds : List Placed}
    (hGrown : later.Grown latest)
    (hSafe : ∀ child ∈ olds, child.view.Safe symbols.cache)
    (hTold : List.Forall₂ (Told symbols later) olds news) :
    List.Forall₂ (Told symbols latest) olds news := by
  induction hTold with
  | nil => exact .nil
  | cons hFirst _ ih =>
      exact .cons (hFirst.mono hGrown (hSafe _ (by simp)))
        (ih fun child hMem => hSafe child (by simp [hMem]))

/- What is told of subtrees is told of their views. -/
private theorem retyped_views
    {later : Symbols}
    {olds : List Placed}
    (hTold : List.Forall₂ (Told symbols later) olds news) :
    List.Forall₂ (Retyped symbols later) (olds.map (·.view))
      (news.map (·.view)) := by
  rw [List.forall₂_map_left_iff, List.forall₂_map_right_iff]
  exact hTold.imp fun _ _ hTold => hTold.retyped

/-
  What has come apart from a place is left there when something
  is put into the place.
-/
private theorem left_of_lowered
    {old : Placed}
    {n : NodeId}
    (hLowered : Lowered before after old new)
    (hLt : n.raw < before.tree.size)
    (hNot : n ∉ old.ids)
    (hOwner : before.tree.owner? old.id ≠ some n) :
    n ∉ new.ids ∧ after.tree.get? n = before.tree.get? n := by
  refine ⟨?_, hLowered.replaced.kept n hLt hNot hOwner⟩
  intro hIn
  rcases hLowered.replaced.origin n hIn with hOld | hMade
  · exact hNot hOld
  · omega

/- Other symbols at the start change no outcome. -/
private theorem Went.ofSymbols
    {chosen : Symbols}
    {old : Placed}
    (hGrown : before.symbols.Grown chosen)
    (hWent : Went symbols size (before.withSymbols chosen) after
      old new asked) :
    Went symbols size before after old new asked :=
  ⟨hWent.lowered.ofSymbols hGrown, hWent.told, hWent.clean,
    hWent.asked, hWent.left⟩

private theorem Stopped.ofSymbols
    {chosen : Symbols}
    {old : Placed}
    {passed : List Check}
    {check : Check}
    {cause : LoweringViolation}
    (hGrown : before.symbols.Grown chosen)
    (hStopped : Stopped symbols size (before.withSymbols chosen)
      after old new passed check cause asked) :
    Stopped symbols size before after old new passed check cause
      asked :=
  ⟨hStopped.lowered.ofSymbols hGrown, hStopped.halted,
    hStopped.clean, hStopped.flaw, hStopped.asked,
    hStopped.left⟩

/- What stores nothing is no store. -/
private theorem not_stored_of_none
    {views : List View}
    (hNone : stored? symbols label views = some none)
    (store : Store) :
    stored? symbols label views ≠ some (some store) := by
  rw [hNone]
  simp

------------------------------------------------------------
-- Through A Node
------------------------------------------------------------

section Through

variable {children : List Placed}

/- The visits of a node are around those of its children. -/
private theorem visits_checks_kept
    (hNot : ∀ store,
      stored? symbols label (children.map (·.view)) ≠
        some (some store)) :
    visits (checks symbols (.node id label children)) =
      .enter id ::
        (visits (checksAll symbols children) ++
          [.leave id]) := by
  rw [checks_of_kept hNot, visits, List.cons_append,
    List.map_cons, List.map_append]
  rfl

/-
  Above the lowered children, a node is judged by the flaw that
  was told of it.
-/
private theorem LoopWent.judged
    (table : BindingTable)
    (options : Options)
    (hAt : before.At (.node id label children))
    (hSafe : (Placed.node id label children).view.Safe
      symbols.cache)
    (hGrown : symbols.Grown before.symbols)
    (hLoop : LoopWent symbols size before middle id label []
      children news asked) :
    leaveFlaw? middle.symbols (·.label.ty.isNone) id label
        news =
      (leaveCheck symbols id label children).flaw? ∧
    Judged (leaveCheck symbols id label children).flaw?
      (leave table options id label.shape.tag) middle := by
  have hLowered := hLoop.lowered
  rw [List.nil_append, List.nil_append] at hLowered
  have hLater := hGrown.trans hLowered.grown
  have hLive ty (hTy : label.ty = some ty) :
      symbols.cache.Live ty := by
    rw [Placed.view_node] at hSafe
    exact hSafe.label.live ty hTy
  have hSame := @leaveFlaw?_eq _ _ id _ _ _ hLater hLive
    hLoop.told
  have hJudged := judged_leave table options
    (hLowered.stays hAt)
    fun ty hTy => (hLive ty hTy).mono hLater.cache
  rw [hSame] at hJudged
  exact ⟨hSame, hJudged⟩

/- A node is left after all its children were walked over. -/
private theorem LoopWent.went
    (hAt : before.At (.node id label children))
    (hSafe : (Placed.node id label children).view.Safe
      symbols.cache)
    (hGrown : symbols.Grown before.symbols)
    (hNone : stored? symbols label (children.map (·.view)) =
      some none)
    (hClean : enterFlaw? label children = none)
    (hLoop : LoopWent symbols size before middle id label []
      children news asked)
    (hLeave : leave table options id label.shape.tag middle =
      .ok () after) :
    ∃ new,
      Went symbols size before after (.node id label children)
        new (.enter id :: (asked ++ [.leave id])) := by
  have hNot := not_stored_of_none hNone
  have hFlaw := (hLoop.judged table options hAt hSafe
    hGrown).2.of_ok hLeave
  have hLowered := hLoop.lowered
  rw [List.nil_append, List.nil_append] at hLowered
  have hStill := hLowered.stays hAt
  rcases hStill.standing.isAssigned_ok with ⟨_, hAssigned⟩
  rcases exists_left hStill hAssigned hLeave with
    ⟨new, hLeft, hFinish, _⟩
  have hWhole := hLowered.trans hAt hLeft
  rw [Placed.view_node] at hSafe
  have hBelow := told_mono hLeft.grown
    (fun child hMem => hSafe.child (List.mem_map_of_mem hMem))
    hLoop.told
  refine ⟨new, hWhole, ⟨?_, hWhole.untyped⟩, ?_, ?_, ?_⟩
  · rw [Placed.view_node]
    exact @retyped_of_finish? _ _ _ _ _ false _ _ _ _
      (hGrown.trans hWhole.grown) hWhole.ready hSafe hNone
      (retyped_views hBelow) hFinish
  · intro check hMem
    rw [checks_of_kept hNot] at hMem
    simp only [List.cons_append, List.mem_cons,
      List.mem_append, List.not_mem_nil, or_false] at hMem
    rcases hMem with rfl | hMem | rfl
    · exact hClean
    · exact hLoop.clean check hMem
    · exact hFlaw
  · rw [visits_checks_kept hNot]
    apply known_cons
    rw [known_append, known_append, hLoop.asked]
  · intro store target operands value hStoring
    rcases hStoring.below_of_kept hNot with
      ⟨child, hChild, hBelow⟩
    have hIn := Placed.ids_subset_idsAll hChild
      hBelow.mem_ids.2.1
    rcases hLoop.left child hChild _ _ _ _ hBelow with
      ⟨hOut, hKept⟩
    have hHere : target ∈ (Placed.node id label children).ids :=
      List.mem_cons_of_mem _ hIn
    have hLt := hAt.standing.holds.lt_size target hHere
    have hSize := hLowered.replaced.grown
    have hNodup := hAt.standing.nodup
    rw [Placed.ids_node, List.nodup_cons] at hNodup
    have hApart : target ∉ (Placed.node id label news).ids := by
      rw [Placed.ids_node, List.mem_cons, not_or]
      refine ⟨?_, hOut⟩
      rintro rfl
      exact hNodup.1 hIn
    have hNoOwner : middle.tree.owner? id ≠ some target := by
      have hOwner := hLowered.replaced.owner
      rw [Placed.id_node, Placed.id_node] at hOwner
      rw [hOwner]
      exact fun hOwned =>
        hAt.standing.outside target hOwned hHere
    rcases left_of_lowered hLeft (Nat.lt_of_lt_of_le hLt hSize)
        hApart hNoOwner with ⟨hGone, hLast⟩
    exact ⟨hGone, hLast.trans hKept⟩

/- A node is refused after its children were walked over. -/
private theorem LoopWent.stopped
    {cause : LoweringViolation}
    (hAt : before.At (.node id label children))
    (hSafe : (Placed.node id label children).view.Safe
      symbols.cache)
    (hGrown : symbols.Grown before.symbols)
    (hNone : stored? symbols label (children.map (·.view)) =
      some none)
    (hClean : enterFlaw? label children = none)
    (hLoop : LoopWent symbols size before middle id label []
      children news asked)
    (hLeave : leave table options id label.shape.tag middle =
      .error (.violation cause) after) :
    Stopped symbols size before after (.node id label children)
      (.node id label news)
      (enterCheck id label children ::
        checksAll symbols children)
      (leaveCheck symbols id label children) cause
      (.enter id :: (asked ++ [.leave id])) := by
  have hNot := not_stored_of_none hNone
  rcases hLoop.judged table options hAt hSafe hGrown with
    ⟨hSame, hJudged⟩
  rcases hJudged.of_refused hLeave with ⟨hFlaw, rfl⟩
  have hLowered := hLoop.lowered
  rw [List.nil_append, List.nil_append] at hLowered
  refine ⟨hLowered,
    .leaving hNot hLoop.told.length_eq hSame, ?_, hFlaw, ?_, ?_⟩
  · intro check hMem
    rcases List.mem_cons.mp hMem with rfl | hMem
    · exact hClean
    · exact hLoop.clean check hMem
  · rw [← checks_of_kept hNot, visits_checks_kept hNot]
    apply known_cons
    rw [known_append, known_append, hLoop.asked]
  · intro store target operands value hStoring _
    rcases hStoring.below_of_kept hNot with
      ⟨child, hChild, hBelow⟩
    exact (hLoop.left child hChild _ _ _ _ hBelow).2

/- A node is left unfinished if a child is. -/
private theorem LoopStopped.stopped
    {walked back : List Placed}
    {passed : List Check}
    {check : Check}
    {cause : LoweringViolation}
    (hAt : before.At
      (.node id label (walked ++ child :: back)))
    (hNone : stored? symbols label
      ((walked ++ child :: back).map (·.view)) = some none)
    (hClean : enterFlaw? label (walked ++ child :: back) = none)
    (hLoop : LoopStopped symbols size before after id label []
      walked child back news new passed check cause asked) :
    Stopped symbols size before after
      (.node id label (walked ++ child :: back))
      (.node id label (news ++ new :: back))
      (enterCheck id label (walked ++ child :: back) ::
        checksAll symbols walked ++ passed)
      check cause (.enter id :: asked) := by
  have hNot := not_stored_of_none hNone
  refine ⟨hLoop.lowered,
    .within hNot hLoop.length_eq hLoop.halted, ?_, hLoop.flaw,
    ?_, ?_⟩
  · intro earlier hMem
    rw [List.cons_append] at hMem
    rcases List.mem_cons.mp hMem with rfl | hMem
    · exact hClean
    · exact hLoop.clean earlier hMem
  · exact known_cons size (.enter id) hLoop.asked
  · intro store target operands value hStoring hBegun
    rcases hStoring.below_of_kept hNot with
      ⟨other, hOther, hBelow⟩
    have hNodup := hAt.standing.nodup
    rw [Placed.ids_node] at hNodup
    exact hLoop.left other _ _ _ _ hBelow
      (place_of_begun hNodup hOther hBelow.mem_ids.1 hBegun
        hLoop.halted.passed_subset)

/- The walk goes down through a node and up again. -/
private theorem fares_through
    (hFares : FaresWithin table options symbols size depth)
    (hAt : before.At (.node id label children))
    (hDepth : (Placed.node id label children).ids.length ≤
      depth + 1)
    (hSafe : (Placed.node id label children).view.Safe
      symbols.cache)
    (hGrown : symbols.Grown before.symbols)
    (hSize : size ≤ before.tree.size)
    (hNone : stored? symbols label (children.map (·.view)) =
      some none)
    (hClean : enterFlaw? label children = none) :
    Recounts
      (do
        let below ← Workspace.inTree (·.children id)
        below.forM ((visitor table options).walkWithin depth)
        leave table options id label.shape.tag)
      (do
        let below ← liftM (TreeM.inspect (·.children id))
        below.forM
          ((visitor table options).recording.walkWithin depth)
        (visitor table options).recording.leave id
          label.shape.tag)
      before
      (fun _ after asked => ∃ new,
        Went symbols size before after (.node id label children)
          new (.enter id :: asked))
      (fun cause after asked => ∃ new passed check,
        Stopped symbols size before after
          (.node id label children) new passed check cause
          (.enter id :: asked)) := by
  have hLoop := fares_children hFares children [] hAt
    (by
      intro child hMem
      have hLength := Placed.length_ids_le_of_mem hMem
      rw [Placed.ids_node, List.length_cons] at hDepth
      omega)
    (by
      intro child hMem
      rw [Placed.view_node] at hSafe
      exact hSafe.child (List.mem_map_of_mem hMem))
    hGrown hSize
  refine Recounts.inTree hAt.standing.holds.children
    (hLoop.bind ?_ ?_)
  · rintro _ middle asked ⟨news, hWent⟩
    refine (Recounts.asks (.leave id) _ middle).mono ?_ ?_
    · rintro _ after _ ⟨hLeave, rfl⟩
      exact hWent.went hAt hSafe hGrown hNone hClean hLeave
    · rintro cause after _ ⟨hLeave, rfl⟩
      exact ⟨_, _, _,
        hWent.stopped hAt hSafe hGrown hNone hClean hLeave⟩
  · rintro cause after asked
      ⟨walked, child, back, news, new, passed, check, rfl,
        hStopped⟩
    exact ⟨_, _, check, hStopped.stopped hAt hNone hClean⟩

end Through

------------------------------------------------------------
-- Through The Call For A Store
------------------------------------------------------------

section Stores

variable {target callId : NodeId}
variable {outer callLabel : Label}
variable {operands : List Placed}
variable {value : Placed}

/-
  At a store the walk is in the call, which has the type of the
  element and can be asked about as the store can.
-/
private theorem Stored.told
    (hSafe : (Placed.node id label
      [.node target outer operands, value]).view.Safe
        symbols.cache)
    (hGrown : symbols.Grown middle.symbols)
    (hStored : Stored False table options before middle
      (.node id label [.node target outer operands, value])
      (.node callId callLabel (operands ++ [value.retain]))) :
    callLabel.shape.tag = .functionInvocation ∧
      (∃ store,
        stored? symbols label
            [.node outer (operands.map (·.view)), value.view] =
          some (some store) ∧
          callLabel.ty = some store.component) ∧
      (Placed.node callId callLabel
        (operands ++ [value.retain])).view.Safe
          symbols.cache := by
  have hTaken := hStored.taken
  rcases hStored.typed with ⟨store, hStores, hTy⟩
  simp only [Placed.view_node, Placed.label_node,
    Placed.children_node, List.map_cons, List.map_nil]
    at hTaken hStores hTy hSafe ⊢
  have hTag := (stored_of_taken hTaken).1
  rw [stored?_eq hGrown fun child hMem => hSafe.child hMem]
    at hStores
  refine ⟨hTag, ⟨store, hStores, hTy⟩, .node ⟨?_, ?_⟩ ?_⟩
  · intro ty hSome
    rcases eq_of_stored? hStores with
      ⟨_, _, hPair, _, _, hElement, _⟩
    cases hPair
    cases hTy.symm.trans hSome
    exact (hSafe.child List.mem_cons_self).label.live _ hElement
  · intro identifier hShape
    simp [hShape, NodeKind.tag] at hTag
  · intro argument hMem
    rcases List.mem_map.mp hMem with ⟨placed, hPlaced, rfl⟩
    rcases List.mem_append.mp hPlaced with hOperand | hValue
    · exact (hSafe.child List.mem_cons_self).child
        (List.mem_map_of_mem hOperand)
    · rw [List.mem_singleton.mp hValue, Placed.view_retain]
      exact (hSafe.child (by simp)).retain

/- The access that a store assigns to is left by the store. -/
private theorem Stored.target_left
    (hAt : before.At
      (.node id label [.node target outer operands, value]))
    (hStored : Stored False table options before middle
      (.node id label [.node target outer operands, value])
      (.node callId callLabel (operands ++ [value.retain])))
    (hLowered : Lowered middle after
      (.node callId callLabel (operands ++ [value.retain]))
      new) :
    target ∉ new.ids ∧
      after.tree.get? target = before.tree.get? target := by
  have hHolds := hAt.standing.holds
  have hHere : target ∈ (Placed.node id label
      [.node target outer operands, value]).ids := by
    simp
  have hLt := hHolds.lt_size target hHere
  have hFresh := hStored.fresh
  have hReplaced := hStored.lowered.replaced
  have hSize := hReplaced.grown
  have hNot : target ∉ (Placed.node callId callLabel
      (operands ++ [value.retain])).ids := by
    have hNodup := hAt.standing.nodup
    simp only [Placed.ids_node, Placed.idsAll_cons,
      Placed.idsAll_nil, List.append_nil, List.cons_append,
      List.nodup_cons] at hNodup
    simp only [Placed.ids_node, Placed.idsAll_append,
      Placed.idsAll_cons, Placed.idsAll_nil,
      Placed.ids_retain, List.append_nil, List.mem_cons, not_or]
    refine ⟨?_, hNodup.2.1⟩
    rintro rfl
    rw [Placed.id_node] at hFresh
    omega
  have hOwner : middle.tree.owner? target =
      before.tree.owner? target := by
    have hOwned := hStored.owned _ rfl
    have hList := hHolds.owner?_child
      (List.mem_cons_self : .node target outer operands ∈
        [.node target outer operands, value])
    exact hOwned.trans hList.symm
  have hFirst := Tree.get?_eq_of_sameAt hLt
    (hStored.left target hHere hNot) hOwner
  rcases left_of_lowered hLowered (n := target) (by omega) hNot
      (by
        rw [hReplaced.owner]
        exact fun hOwned =>
          hAt.standing.outside target hOwned hHere) with
    ⟨hGone, hLast⟩
  exact ⟨hGone, hLast.trans hFirst⟩

/- A call stores nothing itself. -/
private theorem not_stored_of_call
    {views : List View}
    (hTag : callLabel.shape.tag = .functionInvocation)
    (store : Store) :
    stored? symbols callLabel views ≠ some (some store) :=
  not_stored_of_none (stored?_of_tag (by simp [hTag]) _) store

/- A store below an operand is a store below the call. -/
private theorem Stored.storing
    {store access : NodeId}
    {others : List Placed}
    {last part : Placed}
    (hAt : before.At
      (.node id label [.node target outer operands, value]))
    (hStored : Stored False table options before middle
      (.node id label [.node target outer operands, value])
      (.node callId callLabel (operands ++ [value.retain])))
    (hTag : callLabel.shape.tag = .functionInvocation)
    (hMem : part ∈ operands ++ [value])
    (hStoring : Storing symbols store access others last
      part) :
    Storing symbols store access others last
        (.node callId callLabel (operands ++ [value.retain])) ∧
      middle.tree.get? access = before.tree.get? access := by
  rcases mem_operands hMem with ⟨handed, hOperand⟩
  have hArgument := hOperand.argument
  refine ⟨.deeper (.kept ?_ hArgument)
    (storing_retainIf.mpr hStoring), ?_⟩
  · exact not_stored_of_call hTag
  · rcases hStoring.hangs with ⟨outer', above, hHangs⟩
    have hOld := (hOperand.hangs hHangs).holds
      hAt.standing.holds
    rcases hHangs.retainIf handed with ⟨above', hHangs'⟩
    have hNew := (Hangs.deeper hArgument hHangs').holds
      hStored.lowered.replaced.holds
    exact Tree.get?_eq_of_holds hOld.1 hNew.1
      (hNew.2.1.trans hOld.2.1.symm)

/- Of the visits of a call, those of the operands are known. -/
private theorem known_checks_call
    (hTag : callLabel.shape.tag = .functionInvocation)
    (hMade : size ≤ callId.raw) :
    known size (visits (checks symbols
        (.node callId callLabel
          (operands ++ [value.retain])))) =
      known size
        (visits (checksAll symbols (operands ++ [value]))) := by
  have hDown := @known_cons_made size (.enter callId) hMade
  have hUp := @known_cons_made size (.leave callId) hMade []
  rw [checks_of_kept (not_stored_of_call hTag),
    checksAll_arguments, visits, List.cons_append,
    List.map_cons, List.map_append]
  refine (hDown _).trans ?_
  rw [known_append]
  refine (congrArg (_ ++ ·) hUp).trans ?_
  rw [known_nil, List.append_nil]

/- The visits of a store are around those of the operands. -/
private theorem visits_checks_store
    {store : Store}
    (hStores : stored? symbols label
      [.node outer (operands.map (·.view)), value.view] =
        some (some store)) :
    visits (checks symbols
        (.node id label
          [.node target outer operands, value])) =
      .enter id ::
        (visits (checksAll symbols (operands ++ [value])) ++
          [.leave id]) := by
  rw [checks_of_stored hStores, visits, List.cons_append,
    List.map_cons, List.map_append]
  rfl

/- The call for a store was walked over. -/
private theorem Went.ofCall
    (hAt : before.At
      (.node id label [.node target outer operands, value]))
    (hSafe : (Placed.node id label
      [.node target outer operands, value]).view.Safe
        symbols.cache)
    (hGrown : symbols.Grown middle.symbols)
    (hSize : size ≤ before.tree.size)
    (hClean : enterFlaw? label
      [.node target outer operands, value] = none)
    (hStored : Stored False table options before middle
      (.node id label [.node target outer operands, value])
      (.node callId callLabel (operands ++ [value.retain])))
    (hCall : Went symbols size middle after
      (.node callId callLabel (operands ++ [value.retain])) new
      asked) :
    Went symbols size before after
      (.node id label [.node target outer operands, value]) new
      (.enter id :: (asked ++ [.leave id])) := by
  rcases hStored.told hSafe hGrown with
    ⟨hTag, ⟨store, hStores, hTy⟩, _⟩
  have hMade : size ≤ callId.raw :=
    Nat.le_trans hSize hStored.fresh
  have hWhole := hStored.lowered.trans hAt hCall.lowered
  refine ⟨hWhole, ⟨?_, hWhole.untyped⟩, ?_, ?_, ?_⟩
  · have hRetyped := hCall.told.retyped
    simp only [Placed.view_node, List.map_cons, List.map_nil]
      at hRetyped ⊢
    exact .ofCall hStores hTag hTy hRetyped
  · intro check hMem
    rw [checks_of_stored hStores] at hMem
    rcases List.mem_append.mp hMem with hMem | hLast
    · rcases List.mem_cons.mp hMem with rfl | hBelow
      · exact hClean
      · apply hCall.clean check
        rw [checks_of_kept (not_stored_of_call hTag),
          checksAll_arguments]
        exact List.mem_append_left _
          (List.mem_cons_of_mem _ hBelow)
    · rw [List.mem_singleton.mp hLast]
      have hIs : label.shape.tag = .assignment :=
        hStored.assignment
      exact leaveFlaw?_of_tag (by simp [hIs])
  · rw [visits_checks_store hStores]
    apply known_cons
    rw [known_append, known_append, hCall.asked,
      known_checks_call hTag hMade]
  · intro other access others last hStoring
    rcases hStoring.of_stored hStores with
      ⟨rfl, rfl, rfl, rfl⟩ | ⟨part, hPart, hBelow⟩
    · exact hStored.target_left hAt hCall.lowered
    · rcases hStored.storing hAt hTag hPart hBelow with
        ⟨hThere, hFirst⟩
      rcases hCall.left _ _ _ _ hThere with ⟨hGone, hLast⟩
      exact ⟨hGone, hLast.trans hFirst⟩

/-
  A walk that was stopped within a call was stopped within an
  argument, as the call itself is not flawed.
-/
private theorem Halted.of_call
    {cause : LoweringViolation}
    {passed : List Check}
    {check : Check}
    {arguments : List Placed}
    {later : Symbols}
    (hTag : callLabel.shape.tag = .functionInvocation)
    (hFlaw : check.flaw? = some cause)
    (hHalted : Halted symbols later size passed check
      (.node callId callLabel arguments) new) :
    ∃ front back news child now begun,
      arguments = front ++ child :: back ∧
        new = .node callId callLabel (news ++ now :: back) ∧
        passed = enterCheck callId callLabel arguments ::
          checksAll symbols front ++ begun ∧
        front.length = news.length ∧
        Halted symbols later size begun check child now := by
  cases hHalted with
  | entering =>
      have hNone := @enterFlaw?_of_tag callLabel arguments
        (by simp [hTag])
      cases hNone.symm.trans hFlaw
  | leaving =>
      have hNone := @leaveFlaw?_of_tag callId callLabel
        arguments symbols (lacksType symbols) (by simp [hTag])
      cases hNone.symm.trans hFlaw
  | within _ hLength hHalted =>
      exact ⟨_, _, _, _, _, _, rfl, rfl, rfl, hLength, hHalted⟩
  | stored hStores =>
      exact absurd hStores (not_stored_of_call hTag _)

/- The walk of the call for a store was stopped. -/
private theorem Stopped.ofCall
    {passed : List Check}
    {check : Check}
    {cause : LoweringViolation}
    (hAt : before.At
      (.node id label [.node target outer operands, value]))
    (hSafe : (Placed.node id label
      [.node target outer operands, value]).view.Safe
        symbols.cache)
    (hGrown : symbols.Grown middle.symbols)
    (hSize : size ≤ before.tree.size)
    (hClean : enterFlaw? label
      [.node target outer operands, value] = none)
    (hStored : Stored False table options before middle
      (.node id label [.node target outer operands, value])
      (.node callId callLabel (operands ++ [value.retain])))
    (hCall : Stopped symbols size middle after
      (.node callId callLabel (operands ++ [value.retain])) new
      passed check cause asked) :
    ∃ begun,
      Stopped symbols size before after
        (.node id label [.node target outer operands, value])
        new begun check cause (.enter id :: asked) := by
  rcases hStored.told hSafe hGrown with
    ⟨hTag, ⟨store, hStores, _⟩, _⟩
  have hMade : size ≤ callId.raw :=
    Nat.le_trans hSize hStored.fresh
  rcases hCall.halted.of_call hTag hCall.flaw with
    ⟨front, back, news, child, now, begun, hArguments, rfl,
      rfl, hLength, hHalted⟩
  refine ⟨enterCheck id label
      [.node target outer operands, value] ::
        checksAll symbols front ++ begun,
    hStored.lowered.trans hAt hCall.lowered,
    .stored hStores hMade hTag hArguments hLength hHalted, ?_,
    hCall.flaw, ?_, ?_⟩
  · intro earlier hMem
    rw [List.cons_append] at hMem
    rcases List.mem_cons.mp hMem with rfl | hMem
    · exact hClean
    · exact hCall.clean earlier (List.mem_cons_of_mem _ hMem)
  · apply known_cons
    rw [hCall.asked]
    exact @known_cons_made size (.enter callId) hMade _
  · intro other access others last hStoring hBegun
    rcases hStoring.of_stored hStores with
      ⟨rfl, rfl, rfl, rfl⟩ | ⟨part, hPart, hBelow⟩
    · exact (hStored.target_left hAt hCall.lowered).2
    · rcases hStored.storing hAt hTag hPart hBelow with
        ⟨hThere, hFirst⟩
      refine (hCall.left _ _ _ _ hThere ?_).trans hFirst
      rw [visits, List.cons_append, List.map_cons] at hBegun ⊢
      rcases List.mem_cons.mp hBegun with hIs | hLater
      · cases hIs
        have hIn :=
          Placed.ids_subset_idsAll hPart hBelow.mem_ids.1
        have hNodup := hAt.standing.nodup
        simp only [Placed.ids_node, Placed.idsAll_append,
          Placed.idsAll_cons, Placed.idsAll_nil,
          List.append_nil, List.cons_append, List.nodup_cons,
          List.mem_cons, not_or] at hIn hNodup
        exact absurd hIn hNodup.1.2
      · exact List.mem_cons_of_mem _ hLater

/- At a store, the walk goes through the call instead. -/
private theorem fares_stored
    {children : List Placed}
    {call : Placed}
    (hFares : FaresWithin table options symbols size depth)
    (hAt : before.At (.node id label children))
    (hDepth : (Placed.node id label children).ids.length ≤
      depth + 1)
    (hSafe : (Placed.node id label children).view.Safe
      symbols.cache)
    (hGrown : symbols.Grown before.symbols)
    (hSize : size ≤ before.tree.size)
    (hClean : enterFlaw? label children = none)
    (hStored : Stored False table options before middle
      (.node id label children) call) :
    Recounts
      (do
        (visitor table options).walkWithin depth call.id
        leave table options id label.shape.tag)
      (do
        (visitor table options).recording.walkWithin depth
          call.id
        (visitor table options).recording.leave id
          label.shape.tag)
      middle
      (fun _ after asked => ∃ new,
        Went symbols size before after (.node id label children)
          new (.enter id :: asked))
      (fun cause after asked => ∃ new passed check,
        Stopped symbols size before after
          (.node id label children) new passed check cause
          (.enter id :: asked)) := by
  have hFewer := hStored.fewer
  have hLater := hGrown.trans hStored.lowered.grown
  have hLeave (workspace : Workspace) :
      leave table options id label.shape.tag workspace =
        .ok () workspace := by
    rw [show label.shape.tag = .assignment from
      hStored.assignment]
    rfl
  rcases hStored.operands with
    ⟨target, outer, operands, value, hChildren, hArguments⟩
  rcases call with ⟨callId, callLabel, arguments⟩
  rw [Placed.children_node] at hChildren hArguments
  subst hChildren hArguments
  have hCall := faresWithin_iff.mp hFares middle _
    (hStored.lowered.stays hAt) (by omega)
    (hStored.told hSafe hLater).2.2 hLater
    (Nat.le_trans hSize hStored.lowered.replaced.grown)
  refine hCall.bind ?_ ?_
  · rintro _ last asked ⟨new, hWent⟩
    refine (Recounts.asks (.leave id) _ last).mono ?_ ?_
    · rintro _ after _ ⟨hUp, rfl⟩
      cases (hLeave last).symm.trans hUp
      exact ⟨new,
        hWent.ofCall hAt hSafe hLater hSize hClean hStored⟩
    · rintro cause after _ ⟨hUp, _⟩
      cases (hLeave last).symm.trans hUp
  · rintro cause after asked ⟨new, passed, check, hStopped⟩
    rcases hStopped.ofCall hAt hSafe hLater hSize hClean
      hStored with ⟨begun, hWhole⟩
    exact ⟨new, begun, check, hWhole⟩

end Stores

------------------------------------------------------------
-- All Walks
------------------------------------------------------------

/-
  A walk goes over a subtree, or is stopped at the first check
  that is refused, by induction on the depth.
-/
theorem faresWithin
    (table : BindingTable)
    (options : Options)
    (symbols : Symbols)
    (size depth : Nat) :
    FaresWithin table options symbols size depth := by
  induction depth with
  | zero =>
      intro before placed _ hDepth
      cases placed
      simp at hDepth
  | succ depth ih =>
      rw [faresWithin_iff]
      intro before placed hAt hDepth hSafe hGrown hSize
      rcases placed with ⟨id, label, children⟩
      have hEntered := completes_enter table options hAt
        (@False.elim _)
      have hJudged := judged_enter table hAt.standing.holds
      unfold Visitor.walkWithin
      refine Recounts.inTree hAt.standing.holds.tag
        ((Recounts.asks (.enter id) _ before).bind ?_ ?_)
      · rintro descent middle _ ⟨hEnter, rfl⟩
        have hDown : enter table id label.shape.tag before =
            .ok descent middle := hEnter
        have hClean := hJudged.of_ok hDown
        rw [hDown] at hEntered
        cases hEntered with
        | @children chosen hChosen hReady hNone =>
            have hLater := hGrown.trans hChosen
            have hNone' : stored? symbols label
                (children.map (·.view)) = some none := by
              rw [← hNone]
              rw [Placed.view_node] at hSafe
              exact (stored?_eq hLater
                fun child hMem => hSafe.child hMem).symm
            refine (fares_through ih (hAt.withSymbols hReady)
              hDepth hSafe hLater hSize hNone' hClean).mono
                ?_ ?_
            · rintro _ after asked ⟨new, hWent⟩
              exact ⟨new, hWent.ofSymbols hChosen⟩
            · rintro cause after asked
                ⟨new, passed, check, hStopped⟩
              exact ⟨new, passed, check,
                hStopped.ofSymbols hChosen⟩
        | stored hStored =>
            exact fares_stored ih hAt hDepth hSafe hGrown hSize
              hClean hStored
      · rintro cause after _ ⟨hEnter, rfl⟩
        have hDown : enter table id label.shape.tag before =
            .error (.violation cause) after := hEnter
        rcases hJudged.of_refused hDown with ⟨hFlaw, rfl⟩
        refine ⟨_, [], _, Lowered.refl hAt, .entering, by simp,
          hFlaw, rfl, ?_⟩
        intro id target operands value _ hBegun
        simp [visits] at hBegun

end Walks

end Arrays

end Lowering
