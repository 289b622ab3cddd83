import Lowering.Proofs.Arrays.Passed
import Lowering.Proofs.Arrays.Settled

/-
  This file tells what a run leaves of every node that it
  walks, wherever the node ends up: also of nodes that are
  copied, taken apart or left behind.

  At the place of a subtree stands what it was lowered to. The
  nodes of the subtree are still in the store. Each has its
  label, with a mark if it was handed over retained, and lists
  what stands where its children were. The operands of a store
  are listed by the call instead, and what the assignment and
  the access list is as it was.

  Key definitions include:
    * `Tree.Looks`
    * `Arrays.InPlace`
    * `Arrays.Remains`

  Main results:
    * `Arrays.remainsWithin`
    * `Arrays.remains_lower`
-/

namespace Lowering

namespace Tree

/- A node of a store has a label and lists some children. -/
def Looks
    (tree : Tree)
    (n : NodeId)
    (label : Label)
    (listed : List NodeId) : Prop :=
  ∃ stored,
    tree.get? n = some stored ∧
      stored.label = label ∧
      stored.kind.children = listed

theorem Looks.frame
    {before after : Tree}
    {n : NodeId}
    {label : Label}
    {listed : List NodeId}
    (hLooks : before.Looks n label listed)
    (hSame : before.SameAt after n) :
    after.Looks n label listed := by
  rcases hLooks with ⟨stored, hStored, rfl, rfl⟩
  exact hSame stored hStored

/- What is shown looks as it is shown. -/
theorem Shows.looks
    {tree : Tree}
    {placed : Placed}
    (hShows : tree.Shows placed) :
    tree.Looks placed.id placed.label
      (placed.children.map (·.id)) := by
  cases hShows with
  | node hStored hLabel hListed _ =>
      exact ⟨_, hStored, hLabel, hListed⟩

/- A node looks in one way. -/
theorem Looks.unique
    {tree : Tree}
    {n : NodeId}
    {label label' : Label}
    {listed listed' : List NodeId}
    (hLooks : tree.Looks n label listed)
    (hLooks' : tree.Looks n label' listed') :
    label = label' ∧ listed = listed' := by
  rcases hLooks with ⟨stored, hStored, rfl, rfl⟩
  rcases hLooks' with ⟨other, hOther, rfl, rfl⟩
  rw [hStored] at hOther
  cases hOther
  exact ⟨rfl, rfl⟩

theorem Looks.lt_size
    {tree : Tree}
    {n : NodeId}
    {label : Label}
    {listed : List NodeId}
    (hLooks : tree.Looks n label listed) :
    n.raw < tree.size := by
  rcases hLooks with ⟨stored, hStored, _⟩
  exact lt_size_of_get? hStored

/- Each slot of a node holds what the node lists there. -/
theorem Looks.occupies
    {tree : Tree}
    {n child : NodeId}
    {label : Label}
    {listed : List NodeId}
    {slot : Nat}
    (hLooks : tree.Looks n label listed)
    (hSlot : listed[slot]? = some child) :
    tree.Occupies n slot child := by
  rcases hLooks with ⟨stored, hStored, _, rfl⟩
  exact ⟨stored, hStored, hSlot⟩

end Tree

namespace Arrays

open Symbols

section Remains

variable (symbols : Symbols)
variable (table : BindingTable)
variable (options : Options)
variable (size : Nat)
variable (tree : Tree)

------------------------------------------------------------
-- What Remains
------------------------------------------------------------

/-
  What a subtree was lowered to is shown, at the place of the
  subtree or at a new one. It lies in places of the subtree and
  in those from a size of the store on.
-/
structure InPlace (passage : Passage) : Prop where
  shows : tree.Shows passage.new
  nodup : passage.new.ids.Nodup
  origin : ∀ n ∈ passage.new.ids,
    n ∈ passage.old.ids ∨ size ≤ n.raw
  place : passage.new.id = passage.old.id ∨
    size ≤ passage.new.id.raw
  valid : passage.Valid symbols table options

/- What remains of a subtree and of all that is below it. -/
inductive Remains : Passage → Prop
  | kept
      {assigned handed : Bool}
      {id : NodeId}
      {label : Label}
      {children news : List Placed}
      {new : Placed}
      (site : InPlace symbols table options size tree
        ⟨assigned, handed, .node id label children, new⟩)
      (none_stored : stored? symbols label
        (children.map (·.view)) = some none)
      (length_eq : children.length = news.length)
      (looks : tree.Looks id (label.retainIf handed)
        (news.map (·.id)))
      (below : ∀ part ∈
        along label.shape.assignsFirst children news,
          Remains part)
      /- What is no construct stays where it is. -/
      (stays : mayLower label.shape.tag = false →
        new.id = id) :
      Remains
        ⟨assigned, handed, .node id label children, new⟩
  | stored
      {assigned handed : Bool}
      {id target : NodeId}
      {label outer : Label}
      {operands news : List Placed}
      {value last new : Placed}
      {store : Store}
      (site : InPlace symbols table options size tree
        ⟨assigned, handed,
          .node id label [.node target outer operands, value],
          new⟩)
      (stored : stored? symbols label
        [.node outer (operands.map (·.view)), value.view] =
          some (some store))
      (length_eq : operands.length = news.length)
      (assignment : tree.Looks id label [target, value.id])
      (access : tree.Looks target outer
        (operands.map (·.id)))
      (fresh : size ≤ new.id.raw)
      (call : tree.Looks new.id new.label
        ((news ++ [last]).map (·.id)))
      (below : ∀ part ∈ along false operands news,
        Remains part)
      (handed_over : Remains ⟨false, true, value, last⟩) :
      Remains
        ⟨assigned, handed,
          .node id label [.node target outer operands, value],
          new⟩

variable {symbols} {table} {options}
variable {size} {tree}
variable {passage : Passage}

theorem Remains.site
    (hRemains : Remains symbols table options size tree
      passage) :
    InPlace symbols table options size tree passage := by
  cases hRemains with
  | kept hSite => exact hSite
  | stored hSite => exact hSite

/- The places of operands are places of what lists them. -/
private theorem ids_along
    {first : Bool}
    {id : NodeId}
    {label : Label}
    {children news : List Placed}
    {part : Passage}
    (hMem : part ∈ along first children news) :
    part.old.ids ⊆ (Placed.node id label children).ids :=
  Placed.ids_child_subset (mem_along hMem).2.1

/- What remains stays where all it lies in looks as before. -/
theorem Remains.frame
    {after : Tree}
    (hRemains : Remains symbols table options size tree passage)
    (hSame : ∀ n, n ∈ passage.old.ids ∨ size ≤ n.raw →
      n.raw < tree.size → tree.SameAt after n) :
    Remains symbols table options size after passage := by
  have hFrame {passage : Passage}
      (hSite : InPlace symbols table options size tree passage)
      (hSame : ∀ n, n ∈ passage.old.ids ∨ size ≤ n.raw →
        n.raw < tree.size → tree.SameAt after n) :
      InPlace symbols table options size after passage :=
    ⟨hSite.shows.frame fun n hMem => hSame n
        (hSite.origin n hMem) (hSite.shows.lt_size n hMem),
      hSite.nodup, hSite.origin, hSite.place, hSite.valid⟩
  induction hRemains with
  | kept hSite hNone hLength hLooks _ hStays ih =>
      have hLooks' := hLooks.frame
        (hSame _ (Or.inl (by simp)) hLooks.lt_size)
      refine .kept (hFrame hSite hSame) hNone hLength hLooks' ?_
        hStays
      intro part hMem
      apply ih part hMem
      intro n hFrom
      exact hSame n (hFrom.imp_left fun hIn =>
        ids_along hMem hIn)
  | @stored assigned handed id target label outer operands news
      value last new store hSite hStored hLength hAssignment
      hAccess hFresh hCall _ _ ihBelow ihValue =>
      have hTarget {n : NodeId}
          (hIn : n ∈ (Placed.node target outer operands).ids) :
          n ∈ (Placed.node id label
            [.node target outer operands, value]).ids :=
        Placed.ids_child_subset List.mem_cons_self hIn
      refine .stored (hFrame hSite hSame) hStored hLength
        (hAssignment.frame
          (hSame _ (Or.inl (by simp)) hAssignment.lt_size))
        (hAccess.frame (hSame _
          (Or.inl (hTarget (by simp))) hAccess.lt_size))
        hFresh
        (hCall.frame (hSame _ (Or.inr hFresh) hCall.lt_size))
        ?_ ?_
      · intro part hMem
        apply ihBelow part hMem
        intro n hFrom
        exact hSame n (hFrom.imp_left fun hIn =>
          hTarget (ids_along hMem hIn))
      · apply ihValue
        intro n hFrom
        exact hSame n (hFrom.imp_left fun hIn =>
          Placed.ids_child_subset (by simp) hIn)

/- What remains in an older store lies behind its size too. -/
theorem Remains.widen
    {size' : Nat}
    (hRemains : Remains symbols table options size tree passage)
    (hSize : size' ≤ size) :
    Remains symbols table options size' tree passage := by
  have hWiden {passage : Passage}
      (hSite : InPlace symbols table options size tree
        passage) :
      InPlace symbols table options size' tree passage :=
    ⟨hSite.shows, hSite.nodup,
      fun n hMem => (hSite.origin n hMem).imp_right
        (Nat.le_trans hSize),
      hSite.place.imp_right (Nat.le_trans hSize), hSite.valid⟩
  induction hRemains with
  | kept hSite hNone hLength hLooks _ hStays ih =>
      exact .kept (hWiden hSite) hNone hLength hLooks ih hStays
  | stored hSite hStored hLength hAssignment hAccess hFresh
      hCall _ _ ihBelow ihValue =>
      exact .stored (hWiden hSite) hStored hLength hAssignment
        hAccess (Nat.le_trans hSize hFresh) hCall ihBelow
        ihValue

/- What remains of a node that stores nothing. -/
theorem Remains.of_kept
    {assigned handed : Bool}
    {id : NodeId}
    {label : Label}
    {children : List Placed}
    {new : Placed}
    (hRemains : Remains symbols table options size tree
      ⟨assigned, handed, .node id label children, new⟩)
    (hNone : stored? symbols label (children.map (·.view)) =
      some none) :
    ∃ news,
      children.length = news.length ∧
        tree.Looks id (label.retainIf handed)
          (news.map (·.id)) ∧
        (∀ part ∈ along label.shape.assignsFirst children news,
          Remains symbols table options size tree part) ∧
        (mayLower label.shape.tag = false → new.id = id) := by
  cases hRemains with
  | kept _ _ hLength hLooks hBelow hStays =>
      exact ⟨_, hLength, hLooks, hBelow, hStays⟩
  | stored _ hStored =>
      simp only [List.map_cons, List.map_nil,
        Placed.view_node] at hNone
      rw [hNone] at hStored
      exact absurd hStored (by simp)

/- What was marked to be handed over is handed over. -/
theorem Remains.of_retain
    {assigned : Bool}
    {old new : Placed}
    (hRemains : Remains symbols table options size tree
      ⟨assigned, false, old.retain, new⟩) :
    Remains symbols table options size tree
      ⟨assigned, true, old, new⟩ := by
  have hSite := hRemains.site
  have hHanded : InPlace symbols table options size tree
      ⟨assigned, true, old, new⟩ := by
    refine ⟨hSite.shows, hSite.nodup, ?_, ?_, ?_⟩
    · have hOrigin := hSite.origin
      rw [Placed.ids_retain] at hOrigin
      exact hOrigin
    · have hPlace := hSite.place
      rw [Placed.id_retain] at hPlace
      exact hPlace
    · have hValid := hSite.valid
      unfold Passage.Valid at hValid ⊢
      rw [Placed.view_retain, lower?_retain] at hValid
      exact hValid
  rcases old with ⟨id, label, children⟩
  rw [Placed.retain] at hRemains
  cases hRemains with
  | kept _ hNone hLength hLooks hBelow hStays =>
      rw [stored?_retain] at hNone
      have hFirst : label.retain.shape.assignsFirst =
          label.shape.assignsFirst :=
        label.assignsFirst_retainIf true
      rw [hFirst] at hBelow
      refine .kept hHanded hNone hLength hLooks hBelow ?_
      intro hTag
      apply hStays
      rw [← hTag]
      exact congrArg mayLower (NodeKind.tag_retain label.shape)
  | stored _ hStored hLength hAssignment hAccess hFresh hCall
      hBelow hValue =>
      rw [stored?_retain] at hStored
      have hSame : label.retain = label := by
        rcases eq_of_stored? hStored with
          ⟨_, _, _, hShape, _⟩
        apply label.retainIf_eq_self true
        rw [hShape]
        rfl
      rw [hSame] at hAssignment
      exact .stored hHanded hStored hLength hAssignment hAccess
        hFresh hCall hBelow hValue

end Remains

------------------------------------------------------------
-- Walks
------------------------------------------------------------

section Walks

variable (table : BindingTable)
variable (options : Options)

/-
  To a depth, a walk lowers a subtree in its place, and all
  that is below it remains.
-/
def RemainsWithin (depth : Nat) : Prop :=
  ∀ (before : Workspace) (placed : Placed) (after : Workspace)
      (assigned : Bool),
    before.At placed →
      placed.ids.length ≤ depth →
        before.tree.isAssigned placed.id = .ok assigned →
          (visitor table options).walkWithin depth placed.id
              before = .ok () after →
            ∃ new,
              Lowered before after placed new ∧
                ∀ last,
                  after.symbols.Grown last →
                    Remains last table options
                      before.tree.size after.tree
                      ⟨assigned, false, placed, new⟩

variable {table} {options}
variable {before after : Workspace}
variable {id : NodeId}
variable {label : Label}
variable {depth : Nat}

/- What a loop over the children of a node has done. -/
private structure LoopRemains
    (table : BindingTable)
    (options : Options)
    (before after : Workspace)
    (id : NodeId)
    (label : Label)
    (front children news : List Placed) : Prop where
  lowered : Lowered before after
    (.node id label (front ++ children))
    (.node id label (front ++ news))
  length_eq : children.length = news.length
  kept : ∀ n, n.raw < before.tree.size →
    n ∉ Placed.idsAll children →
      n ≠ id →
        after.tree.get? n = before.tree.get? n
  below : ∀ last,
    after.symbols.Grown last →
      ∀ part ∈
        along (label.shape.assignsFirst && front.isEmpty)
          children news,
        Remains last table options before.tree.size after.tree
          part

private theorem remains_children
    (hRemains : RemainsWithin table options depth)
    (rest front : List Placed)
    (hAt : before.At (.node id label (front ++ rest)))
    (hDepth : ∀ child ∈ rest, child.ids.length ≤ depth)
    (hRun : ((rest.map (·.id)).forM
      ((visitor table options).walkWithin depth) :
        LowerM Unit) before = .ok () after) :
    ∃ news,
      LoopRemains table options before after id label front rest
        news := by
  induction rest generalizing front before with
  | nil =>
      cases hRun
      exact ⟨[], Lowered.refl hAt, rfl, fun _ _ _ _ => rfl,
        by simp [along]⟩
  | cons child rest ih =>
      rcases run_bind_eq_ok hRun with
        ⟨_, middle, hFirst, hRest⟩
      have hChildAt := hAt.child (by simp :
        child ∈ front ++ child :: rest)
      rcases hRemains before child middle _ hChildAt
          (hDepth child (by simp))
          hAt.standing.isAssigned_child hFirst with
        ⟨new, hLowered, hNew⟩
      have hUp := Lowered.ofChild hAt hLowered
      have hStays := hUp.stays hAt
      rw [List.append_cons] at hStays
      rcases ih (front ++ [new]) hStays
          (fun other hMem => hDepth other (by simp [hMem]))
          hRest with
        ⟨news, hLoop⟩
      have hSize := hLowered.replaced.grown
      have hWhole := hLoop.lowered
      rw [← List.append_cons, ← List.append_cons] at hWhole
      refine ⟨new :: news, hUp.trans hAt hWhole,
        by simp [hLoop.length_eq], ?_, ?_⟩
      · intro n hLt hNot hNe
        rw [Placed.idsAll_cons, List.mem_append, not_or]
          at hNot
        rw [hLoop.kept n (by omega) hNot.2 hNe]
        exact hLowered.replaced.kept_of_child hAt.standing hLt
          hNot.1 hNe
      · intro last hGrown part hMem
        rcases List.mem_cons.mp hMem with rfl | hMem
        · apply (hNew last
            (hLoop.lowered.grown.trans hGrown)).frame
          intro n hFrom hLt
          rcases hAt.standing.apart_of_child hFrom with
            ⟨hNot, hNe⟩
          exact Tree.sameAt_of_get?_eq
            (hLoop.kept n hLt hNot hNe)
        · have hEmpty : (front ++ [new]).isEmpty = false := by
            simp
          have hBelow := hLoop.below last hGrown
          rw [hEmpty, Bool.and_false] at hBelow
          exact (hBelow part hMem).widen hSize

/- What is no construct becomes itself. -/
theorem finish?_eq_node
    {symbols : Symbols}
    {assigned : Bool}
    (hTag : mayLower label.shape.tag = false)
    (children : List View) :
    finish? symbols table options assigned label children =
      some (.node label children) := by
  unfold finish?
  cases hShape : label.shape
  case arrayCreation => simp [hShape, mayLower, NodeKind.tag] at hTag
  case arrayAccess => simp [hShape, mayLower, NodeKind.tag] at hTag
  case fieldAccess => simp [hShape, mayLower, NodeKind.tag] at hTag
  case qualifiedName => simp [hShape, mayLower, NodeKind.tag] at hTag
  case instanceOf => simp [hShape, mayLower, NodeKind.tag] at hTag
  all_goals rfl

/- On the way up, what is no construct is left alone. -/
private theorem leave_eq_pure
    {tag : NodeTag}
    (hTag : mayLower tag = false) :
    leave table options id tag = pure () := by
  cases tag <;> first | rfl | simp [mayLower] at hTag

/- What the way up makes of a node, and where. -/
theorem exists_left
    {assigned : Bool}
    {lowered : List Placed}
    (hAt : before.At (.node id label lowered))
    (hAssigned : before.tree.isAssigned id = .ok assigned)
    (hRun : leave table options id label.shape.tag before =
      .ok () after) :
    ∃ new,
      Lowered before after (.node id label lowered) new ∧
        finish? after.symbols table options assigned label
          (lowered.map (·.view)) = some new.view ∧
        (mayLower label.shape.tag = false → new.id = id) := by
  cases hTag : mayLower label.shape.tag with
  | false =>
      rw [leave_eq_pure hTag] at hRun
      cases hRun
      refine ⟨.node id label lowered, Lowered.refl hAt, ?_,
        fun _ => rfl⟩
      rw [finish?_eq_node hTag, Placed.view_node]
  | true =>
      have hBack : Back False before id label lowered :=
        ⟨hAt, False.elim, False.elim⟩
      have hWalks := walks_leave table options assigned hBack
        hAssigned
      unfold Walks at hWalks
      rw [hRun] at hWalks
      rcases hWalks with ⟨new, hLowered, hView, _⟩
      exact ⟨new, hLowered, hView, by simp⟩

/- The children of a node are walked, and then the node. -/
private theorem remains_through
    {start : Workspace}
    {assigned : Bool}
    {children : List Placed}
    (hRemains : RemainsWithin table options depth)
    (hAt : start.At (.node id label children))
    (hDepth : (Placed.node id label children).ids.length ≤
      depth + 1)
    (hAssigned : start.tree.isAssigned id = .ok assigned)
    (hNone : stored? start.symbols label
      (children.map (·.view)) = some none)
    (hRun : (do
        let below ← Workspace.inTree (·.children id)
        below.forM ((visitor table options).walkWithin depth)
        leave table options id label.shape.tag : LowerM Unit)
          start = .ok () after) :
    ∃ new,
      Lowered start after (.node id label children) new ∧
        ∀ last,
          after.symbols.Grown last →
            Remains last table options start.tree.size
              after.tree
              ⟨assigned, false, .node id label children,
                new⟩ := by
  rw [run_bind_ok (run_inTree_ok hAt.standing.holds.children)]
    at hRun
  rcases run_bind_eq_ok hRun with ⟨_, middle, hBelow, hLeave⟩
  rw [Placed.children_node] at hBelow
  rcases remains_children hRemains children [] hAt
      (by
        intro child hMem
        have hLength := Placed.length_ids_le_of_mem hMem
        rw [Placed.ids_node, List.length_cons] at hDepth
        omega)
      hBelow with
    ⟨lowered, hLoop⟩
  have hBack := hLoop.lowered
  rw [List.nil_append, List.nil_append] at hBack
  have hThere := hBack.stays hAt
  have hStill : middle.tree.isAssigned id = .ok assigned :=
    (hBack.isAssigned hAt).trans hAssigned
  rcases exists_left hThere hStill hLeave with
    ⟨new, hLeft, hFinish, hStays⟩
  have hSteady := (@tracks_leave table options id _ middle
    (Tree.Steady.keptAt id middle.tree)
    label.shape.tag).keeps () after hLeave
      (Tree.Steady.refl id middle.tree)
  have hOwner := hBack.replaced.owner
  rw [Placed.id_node, Placed.id_node] at hOwner
  have hOutside {n : NodeId}
      (hFrom : n ∈ (Placed.node id label children).ids ∨
        start.tree.size ≤ n.raw) :
      middle.tree.owner? id ≠ some n := by
    intro hOwned
    rw [hOwner] at hOwned
    rcases hFrom with hIn | hNew
    · exact hAt.standing.outside n hOwned hIn
    · rcases hAt.standing.listed n hOwned with
        ⟨stored, hStored, _⟩
      have hLt := Tree.lt_size_of_get? hStored
      omega
  have hWhole := hBack.trans hAt hLeft
  refine ⟨new, hWhole, ?_⟩
  intro last hGrown
  have hLater := hLeft.grown.trans hGrown
  have hParts := hLoop.below last hLater
  simp only [List.isEmpty_nil, Bool.and_true] at hParts
  refine .kept
    ⟨hWhole.replaced.holds.shows, hWhole.replaced.nodup,
      hWhole.replaced.origin, hWhole.replaced.place, ?_⟩
    (stable_stored? _ _ _ _ _ (hBack.grown.trans hLater) hNone)
    hLoop.length_eq ?_ ?_ hStays
  · have hOperands : Operands last table options
        label.shape.assignsFirst children lowered :=
      ⟨hLoop.length_eq, fun part hMem =>
        (hParts part hMem).site.valid⟩
    have hNone' : stored? last label
        (children.map Placed.view) = some none :=
      stable_stored? _ _ _ _ _ (hBack.grown.trans hLater) hNone
    have hBelow' : lowerAll? last table options
        label.shape.assignsFirst (children.map Placed.view) =
          some (lowered.map Placed.view) := hOperands.lowered
    show lower? last table options assigned false _ = _
    rw [Placed.view_node, lower?, hNone']
    simp only [Option.bind_eq_bind, Option.bind_some, hBelow',
      Bool.false_eq_true, if_false]
    exact stable_finish? _ _ _ _ _ _ _ _ hGrown hFinish
  · have hLooks : middle.tree.Looks id label
        (lowered.map (·.id)) := hThere.standing.holds.stored
    apply hLooks.frame
    apply hSteady.same
    exact hOutside (Or.inl (by simp))
  · intro part hMem
    apply (hParts part hMem).frame
    intro n hFrom _
    apply hSteady.same
    apply hOutside
    exact hFrom.imp_left fun hIn => ids_along hMem hIn

/- What is taken over is stored, by a call. -/
theorem stored_of_taken
    {symbols : Symbols}
    {outer callLabel : Label}
    {operands arguments : List View}
    {value : View}
    (hTaken : TakenOver symbols
      (.node label [.node outer operands, value])
      (.node callLabel arguments)) :
    callLabel.shape.tag = .functionInvocation ∧
      ∃ store, stored? symbols label
        [.node outer operands, value] = some (some store) := by
  generalize hOld : View.node label
    [.node outer operands, value] = old at hTaken
  generalize hCall : View.node callLabel arguments = call
    at hTaken
  cases hTaken with
  | call function ty hStored =>
      cases hOld
      rw [callView] at hCall
      cases hCall
      exact ⟨rfl, _, hStored⟩

/-
  An assignment and the access that it assigns to are not among
  the places of a call that takes over the operands.
-/
private theorem apart_of_call
    {tree : Tree}
    {target callId : NodeId}
    {outer callLabel : Label}
    {operands : List Placed}
    {value : Placed}
    (hHolds : tree.Holds
      (.node id label [.node target outer operands, value]))
    (hNodup : (Placed.node id label
      [.node target outer operands, value]).ids.Nodup)
    (hFresh : tree.size ≤ callId.raw)
    {n : NodeId}
    (hAt : n = id ∨ n = target) :
    n ∈ (Placed.node id label
        [.node target outer operands, value]).ids ∧
      n ∉ (Placed.node callId callLabel
        (operands ++ [value.retain])).ids := by
  have hIn : n ∈ (Placed.node id label
      [.node target outer operands, value]).ids := by
    rcases hAt with rfl | rfl <;> simp
  have hLt := hHolds.lt_size n hIn
  refine ⟨hIn, ?_⟩
  simp only [Placed.ids_node, Placed.idsAll_cons,
    Placed.idsAll_nil, Placed.idsAll_append,
    Placed.ids_retain, List.append_nil, List.cons_append,
    List.nodup_cons, List.mem_cons] at hNodup ⊢
  rintro (rfl | hBelow)
  · omega
  · rcases hAt with rfl | rfl
    · exact hNodup.1 (Or.inr hBelow)
    · exact hNodup.2.1 hBelow

/- An assignment and its access look as before to the end. -/
private theorem Stored.left_by_call
    {middle : Workspace}
    {target callId : NodeId}
    {outer callLabel : Label}
    {operands : List Placed}
    {value new : Placed}
    (hAt : before.At
      (.node id label [.node target outer operands, value]))
    (hStored : Stored False table options before middle
      (.node id label [.node target outer operands, value])
      (.node callId callLabel (operands ++ [value.retain])))
    (hLowered : Lowered middle after
      (.node callId callLabel (operands ++ [value.retain])) new)
    {n : NodeId}
    (hIs : n = id ∨ n = target) :
    before.tree.SameAt after.tree n := by
  rcases apart_of_call hAt.standing.holds hAt.standing.nodup
    hStored.fresh hIs with ⟨hIn, hOut⟩
  have hLt := hAt.standing.holds.lt_size n hIn
  have hSize := hStored.lowered.replaced.grown
  refine (hStored.left n hIn hOut).trans
    (Tree.sameAt_of_get?_eq
      (hLowered.replaced.kept n (by omega) hOut ?_))
  intro hOwner
  rw [hStored.lowered.replaced.owner] at hOwner
  exact hAt.standing.outside n hOwner hIn

/- A call assigns to none of its arguments. -/
private theorem assignsFirst_of_call
    (hTag : label.shape.tag = .functionInvocation) :
    label.shape.assignsFirst = false := by
  cases hShape : label.shape <;>
    first
    | rfl
    | simp [hShape, NodeKind.tag] at hTag

/- The operands of a call pass on apart from the last. -/
private theorem along_append
    {olds news : List Placed}
    {old new : Placed}
    (hLength : olds.length = news.length) :
    along false (olds ++ [old]) (news ++ [new]) =
      along false olds news ++ [⟨false, false, old, new⟩] := by
  induction olds generalizing news with
  | nil =>
      rcases news with _ | ⟨first, news⟩
      · rfl
      · exact absurd hLength (by simp)
  | cons first olds ih =>
      rcases news with _ | ⟨other, news⟩
      · exact absurd hLength (by simp)
      · simp only [List.cons_append, along,
          ih (Nat.succ.inj hLength)]

/- The call that stores is walked in place of the assignment. -/
private theorem remains_stored
    {middle : Workspace}
    {assigned : Bool}
    {old call : Placed}
    (hRemains : RemainsWithin table options depth)
    (hAt : before.At old)
    (hDepth : old.ids.length ≤ depth + 1)
    (hStored : Stored False table options before middle old
      call)
    (hRun : (visitor table options).walkWithin depth call.id
      middle = .ok () after) :
    ∃ new,
      Lowered before after old new ∧
        ∀ last,
          after.symbols.Grown last →
            Remains last table options before.tree.size
              after.tree ⟨assigned, false, old, new⟩ := by
  have hFewer := hStored.fewer
  have hThere := hStored.lowered.stays hAt
  rcases hThere.standing.isAssigned_ok with ⟨called, hCalled⟩
  rcases hRemains middle call after called hThere (by omega)
      hCalled hRun with ⟨new, hLowered, hCall⟩
  have hWhole := hStored.lowered.trans hAt hLowered
  have hSize := hStored.lowered.replaced.grown
  refine ⟨new, hWhole, ?_⟩
  intro last hGrown
  have hCall := hCall last hGrown
  have hLater := hLowered.grown.trans hGrown
  have hTaken := hStored.taken.mono hLater
  rcases hStored.operands with
    ⟨target, outer, operands, value, hChildren, hArguments⟩
  rcases old with ⟨id, label, children⟩
  rcases call with ⟨callId, callLabel, arguments⟩
  rw [Placed.children_node] at hChildren hArguments
  subst hChildren hArguments
  simp only [Placed.view_node, List.map_cons, List.map_nil]
    at hTaken
  rcases stored_of_taken hTaken with ⟨hTag, store, hStores⟩
  rcases hCall.of_kept (stored?_of_tag (by rw [hTag]; simp) _)
    with ⟨news, hLength, hLooks, hBelow, hStays⟩
  have hPlace := hStays (by rw [hTag]; rfl)
  have hFirst := assignsFirst_of_call hTag
  rcases List.eq_nil_or_concat news with
    rfl | ⟨front, final, rfl⟩
  · simp at hLength
  have hFront : operands.length = front.length := by
    simpa using hLength
  rw [hFirst, List.concat_eq_append, along_append hFront]
    at hBelow
  rw [List.concat_eq_append] at hLooks
  have hSite := hCall.site
  have hAssignment : before.tree.Looks id label
      [target, value.id] := hAt.standing.holds.stored
  have hAccess : before.tree.Looks target outer
      (operands.map (·.id)) :=
    (hAt.standing.holds.child List.mem_cons_self).stored
  have hFresh : before.tree.size ≤ new.id.raw := by
    rw [hPlace]
    exact hStored.fresh
  have hNew := hSite.shows.looks
  rw [hPlace] at hNew
  have hValue : Remains last table options before.tree.size
      after.tree ⟨false, true, value, final⟩ := by
    apply Remains.of_retain
    apply Remains.widen _ hSize
    exact hBelow _ (List.mem_append_right _
      (List.mem_singleton.mpr rfl))
  refine .stored
    ⟨hSite.shows, hSite.nodup, hWhole.replaced.origin,
      Or.inr hFresh, ?_⟩
    hStores hFront
    (hAssignment.frame
      (hStored.left_by_call hAt hLowered (Or.inl rfl)))
    (hAccess.frame
      (hStored.left_by_call hAt hLowered (Or.inr rfl)))
    hFresh ?_ ?_ hValue
  · have hSame := hStored.same last hLater assigned false called
    exact hSame.trans hSite.valid
  · rw [hPlace, ← (hLooks.unique hNew).1]
    exact hLooks
  · intro part hMem
    exact (hBelow part (List.mem_append_left _ hMem)).widen
      hSize

end Walks

------------------------------------------------------------
-- Runs
------------------------------------------------------------

section Runs

variable {table : BindingTable}
variable {options : Options}
variable {before after : Workspace}

/- All that a walk reaches remains, by induction on the depth. -/
theorem remainsWithin
    (table : BindingTable)
    (options : Options)
    (depth : Nat) :
    RemainsWithin table options depth := by
  induction depth with
  | zero =>
      intro before placed after assigned _ hDepth
      cases placed
      simp at hDepth
  | succ depth ih =>
      intro before placed after assigned hAt hDepth hAssigned
        hRun
      rcases placed with ⟨id, label, children⟩
      cases wentOn_of_run hAt hRun with
      | through _ hEarly hReady hNone hRest =>
          rcases remains_through ih (hAt.withSymbols hReady)
              hDepth hAssigned hNone hRest with
            ⟨new, hLowered, hNew⟩
          exact ⟨new, hLowered.ofSymbols hEarly, hNew⟩
      | stored _ hStored hCall _ =>
          exact remains_stored ih hAt hDepth hStored hCall

/- All that is below the root of a run remains. -/
theorem remains_lower
    {placed : Placed}
    {result : NodeId}
    {assigned : Bool}
    (hStanding : before.tree.Standing placed)
    (hReady : before.symbols.Ready)
    (hAssigned : before.tree.isAssigned placed.id =
      .ok assigned)
    (hRun : lower table options placed.id before =
      .ok result after) :
    ∃ new,
      result = new.id ∧
        Tree.Replaced before.tree after.tree placed new ∧
        Remains after.symbols table options before.tree.size
          after.tree ⟨assigned, false, placed, new⟩ := by
  have hWhole : ((visitor table options).walkWithin
      ((visitor table options).reach before.tree.size)
      placed.id >>= fun _ => do return (← get).root :
        LowerM NodeId) { before with root := placed.id } =
          .ok result after := hRun
  rcases run_bind_eq_ok hWhole with ⟨_, later, hWalk, hLast⟩
  cases hLast
  rcases remainsWithin table options _ _ placed after assigned
      (at_root hStanding hReady)
      (length_ids_le_reach table options hStanding) hAssigned
      hWalk with
    ⟨new, hLowered, hRemains⟩
  refine ⟨new, ?_, hLowered.replaced,
    hRemains after.symbols (Grown.refl _)⟩
  rw [hLowered.root, if_pos rfl]

end Runs

end Arrays

end Lowering
