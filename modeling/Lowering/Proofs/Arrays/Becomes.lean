import Lowering.Proofs.Arrays.Seats

/-
  This file tells what becomes of the nodes of a tree in the
  tree that a run leaves.

  A run is one passage, from the root to the result. A node
  becomes what it is passed on to within this passage. Each
  node of the result is what a node of the input has become, or
  was made for one. What a node is lowered to is the same in
  its seat and in the result: it depends on the node, on
  whether it was assigned to and on whether it was handed over.

  Key definitions include:
    * `Arrays.Spans`
    * `Arrays.Becomes`
    * `Arrays.Ends`
    * `Arrays.Persists`
    * `Arrays.Yields`
    * `Arrays.Leaves`
    * `Arrays.CameOf`

  Main results:
    * `Arrays.Start.spans`
    * `Arrays.Start.persists`
    * `Arrays.Start.yields`
    * `Arrays.Start.became_or_made`
    * `Arrays.Start.cameOf`
-/

namespace Lowering

namespace Arrays

open Symbols

------------------------------------------------------------
-- Handing Over
------------------------------------------------------------

section HandingOver

variable {symbols : Symbols}
variable {table : BindingTable}
variable {options : Options}
variable {tree : Tree}
variable {root : NodeId}

/- A child is below the root, as its owner is. -/
private theorem below_child
    {id : NodeId}
    {label : Label}
    {children : List Placed}
    {child : Placed}
    (hHolds : tree.Holds (.node id label children))
    (hBelow : tree.Below root id)
    (hMem : child ∈ children) :
    tree.Below root child.id :=
  hBelow.tail (hHolds.lists_iff.mpr ⟨child, hMem, rfl⟩)

/- Operands of what stores nothing are not handed over. -/
private theorem handed_along
    {id : NodeId}
    {label : Label}
    {first : Bool}
    {children olds news : List Placed}
    {part : Passage}
    (hFormed : tree.WellFormed root)
    (hHolds : tree.Holds (.node id label children))
    (hBelow : tree.Below root id)
    (hNone : stored? symbols label (children.map (·.view)) =
      some none)
    (hSub : olds ⊆ children)
    (hMem : part ∈ along first olds news) :
    tree.Below root part.old.id ∧
      (part.handed = true ↔
        HandedOver symbols tree root part.old.id) := by
  rcases mem_along hMem with ⟨hHanded, hOld, _⟩
  have hChild := hSub hOld
  refine ⟨below_child hHolds hBelow hChild, ?_⟩
  rcases hHolds.lists_iff.mpr ⟨part.old, hChild, rfl⟩ with
    ⟨slot, hHeld⟩
  rw [hHanded]
  exact iff_of_false (by simp)
    (apart_of_occupies hFormed hBelow hHeld
      (not_stores_of_stored? hHolds hNone)).1

/- A node of a kind other than an assignment stores nothing. -/
private theorem stored?_of_shape
    {label : Label}
    {shape : NodeKind Unit}
    (hShape : label.shape = shape)
    (hOther : shape.tag ≠ .assignment)
    (children : List View) :
    stored? symbols label children = some none := by
  apply stored?_of_tag
  rw [hShape]
  exact hOther

private theorem stored?_of_creation
    {handed marked : Bool}
    {label : Label}
    {dimensions : List Unit}
    {initializer : Option Unit}
    (hShape : (label.retainIf handed).shape =
      .arrayCreation dimensions initializer marked)
    (children : List View) :
    stored? symbols label children = some none := by
  apply stored?_of_tag
  rw [← label.tag_retainIf handed, hShape]
  simp [NodeKind.tag]

/- What is passed on is handed over if it is a stored value. -/
theorem Form.handed_iff
    {whole part : Passage}
    {parts : List Passage}
    {made : List Placed}
    {lost : List NodeId}
    (hForm : Form symbols table options whole parts made lost)
    (hFormed : tree.WellFormed root)
    (hHolds : tree.Holds whole.old)
    (hBelow : tree.Below root whole.old.id)
    (hMem : part ∈ parts) :
    tree.Below root part.old.id ∧
      (part.handed = true ↔
        HandedOver symbols tree root part.old.id) := by
  cases hForm with
  | kept _ hNone _ =>
      exact handed_along hFormed hHolds hBelow hNone
        (List.Subset.refl _) hMem
  | @stored _ _ _ _ target _ outer _ _ value _ _ _ hStored =>
      have hStores := stores_of_stored? hHolds hBelow hStored
      rcases eq_of_stored? hStored with
        ⟨_, _, hBoth, _, hAccess, _, _⟩
      cases hBoth
      rcases List.mem_append.mp hMem with hMem | hMem
      · exact handed_along hFormed
          (hHolds.child List.mem_cons_self)
          hStores.target_below
          (stored?_of_shape hAccess (by simp [NodeKind.tag]) _)
          (List.Subset.refl _) hMem
      · rw [List.mem_singleton] at hMem
        subst hMem
        exact ⟨below_child hHolds hBelow (by simp),
          iff_of_true rfl
            (handedOver_iff.mpr ⟨_, _, _, hStores⟩)⟩
  | read hShape =>
      exact handed_along hFormed hHolds hBelow
        (stored?_of_shape hShape (by simp [NodeKind.tag]) _)
        (List.Subset.refl _) hMem
  | pointer hShape =>
      exact handed_along hFormed hHolds hBelow
        (stored?_of_shape hShape (by simp [NodeKind.tag]) _)
        (List.Subset.refl _) hMem
  | length hShape =>
      exact handed_along hFormed hHolds hBelow
        (stored?_of_creation hShape _) (List.Subset.refl _) hMem
  | lengths hShape =>
      exact handed_along hFormed hHolds hBelow
        (stored?_of_creation hShape _) (List.Subset.refl _) hMem
  | @elements _ _ _ _ _ _ _ _ lengths _ initializer _ _ _ _ _
      hShape =>
      rcases initializer with ⟨inner, outer, children⟩
      unfold expressions at hMem
      simp only [Placed.label_node, Placed.children_node]
        at hMem
      split at hMem
      · next hInner =>
        have hMemInner : Placed.node inner outer children ∈
            lengths ++ [.node inner outer children] := by
          simp
        exact handed_along hFormed (hHolds.child hMemInner)
          (below_child hHolds hBelow hMemInner)
          (stored?_of_shape hInner (by simp [NodeKind.tag]) _)
          (List.Subset.refl _) hMem
      · exact absurd hMem (by simp [along])
  | size hShape =>
      refine handed_along hFormed hHolds hBelow ?_ (by simp)
        hMem
      rcases hShape with hShape | hShape
      · exact stored?_of_shape hShape (by simp [NodeKind.tag]) _
      · exact stored?_of_shape hShape (by simp [NodeKind.tag]) _
  | test hShape =>
      exact handed_along hFormed hHolds hBelow
        (stored?_of_shape hShape (by simp [NodeKind.tag]) _)
        (by simp) hMem

end HandingOver

------------------------------------------------------------
-- Runs
------------------------------------------------------------

section Runs

variable (table : BindingTable)
variable (options : Options)
variable (root result : NodeId)
variable (before after : Workspace)

/- A run is a passage from the root to the result. -/
structure Spans (whole : Passage) : Prop where
  old_id : whole.old.id = root
  new_id : whole.new.id = result
  handed : whole.handed = false
  stands : whole.Stands before.tree after.tree
  valid : whole.Valid after.symbols table options

/- What a node below the root becomes below the result. -/
def Becomes (n m : NodeId) : Prop :=
  ∃ whole part,
    Spans table options root result before after whole ∧
      Leads after.symbols table options whole part ∧
      part.old.id = n ∧
      part.new.id = m

/- A node ends where it is seated, and as what it becomes. -/
def Ends (n m : NodeId) : Prop :=
  Seat after.symbols before.tree after.tree root result n m ∨
    Becomes table options root result before after n m

/- What a run yields of a node, by how the node was used. -/
structure Yields (n m : NodeId) (part : Passage) : Prop where
  old_id : part.old.id = n
  new_id : part.new.id = m
  valid : part.Valid after.symbols table options
  standing : before.tree.Standing part.old
  shows : after.tree.Shows part.new
  nodup : part.new.ids.Nodup
  below : before.tree.Below root n
  assigned : before.tree.isAssigned n = .ok part.assigned
  handed_iff : part.handed = true ↔
    HandedOver after.symbols before.tree root n

/-
  What a run leaves of a node, where the node ends: what its
  view is lowered to as it was handed over or not.
-/
structure Leaves
    (n m : NodeId)
    (handed : Bool)
    (view : View) : Prop where
  ends : Ends table options root result before after n m
  handed_iff : handed = true ↔
    HandedOver after.symbols before.tree root n
  lowered : ∃ old assigned,
    before.tree.view? n = some old ∧
      lower? after.symbols table options assigned handed old =
        some view
  stands : after.tree.view? m = some view

/- A node is left behind by the run. -/
def LeftOut (n : NodeId) : Prop :=
  ∃ whole,
    Spans table options root result before after whole ∧
      LeftBehind after.symbols table options whole n

/-
  A node has a seat, and becomes something below the result
  unless it is left behind.
-/
structure Persists (n : NodeId) : Prop where
  seated : ∃ m,
    Seat after.symbols before.tree after.tree root result n m
  passed :
    (∃ m, Becomes table options root result before after n m) ∨
      LeftOut table options root result before after n

/-
  Where a node below the result has come from: a node below the
  root became it, or it was made beside one. Then it is a name,
  a number, a class object or a list, or it is a call that
  nothing assigns to.
-/
inductive CameOf (m : NodeId) (node : Node) : Prop
  | became
      {n : NodeId}
      {old : Node}
      {part : Passage}
      {parts : List Passage}
      {made : List Placed}
      {lost : List NodeId}
      (becomes :
        Becomes table options root result before after n m)
      (yields : Yields table options root before after n m part)
      (stands : part.Stands before.tree after.tree)
      (form : Form after.symbols table options part parts made
        lost)
      (stored : before.tree.get? n = some old)
      (old_label : part.old.label = old.label)
      (new_label : part.new.label = node.label)
  | plain
      (tag : node.label.shape.tag ∈
        [.simpleName, .typeLiteral, .arrayInitializer,
          .numberLiteral])
  | call
      {function : FunctionRef}
      {arguments : List Unit}
      {placed : Placed}
      (shape : node.label.shape =
        .functionInvocation function arguments false)
      (standing : after.tree.Standing placed)
      (id_eq : placed.id = m)
      (unassigned : after.tree.isAssigned placed.id = .ok false)

variable {table} {options}
variable {root result}
variable {before after}
variable {whole part : Passage}
variable {n m : NodeId}

/- The methods that are in use after a run have their titles. -/
theorem Start.titled
    (hStart : Start table root before)
    (hRun : lower table options root before =
      .ok result after) :
    after.symbols.Titled := by
  have hSession := session_lower hStart.session options root
  rw [hRun] at hSession
  exact hSession.titled

/- A successful run is such a passage. -/
theorem Start.spans
    (hStart : Start table root before)
    (hRun : lower table options root before =
      .ok result after) :
    ∃ whole,
      Spans table options root result before after whole := by
  rcases hStart.finish hRun with ⟨old, new, hRoot, hFinish⟩
  rcases hFinish.lowered with ⟨assigned, hAssigned, hLowered⟩
  refine ⟨⟨assigned, false, old, new⟩, hRoot,
    hFinish.answer.symm, rfl, ?_, hLowered⟩
  refine ⟨hFinish.standing, hFinish.stands, hAssigned, ?_⟩
  rw [hFinish.replaced.isAssigned hFinish.standing]
  exact hAssigned

/- What a run leads to was below the root. -/
theorem Leads.handed_iff
    {symbols : Symbols}
    {tree : Tree}
    {last : Passage}
    (hLeads : Leads symbols table options whole last)
    (hFormed : tree.WellFormed root)
    (hStanding : tree.Standing whole.old)
    {other : Tree}
    (hStands : whole.Stands tree other)
    (hBelow : tree.Below root whole.old.id)
    (hHanded : whole.handed = true ↔
      HandedOver symbols tree root whole.old.id) :
    tree.Below root last.old.id ∧
      (last.handed = true ↔
        HandedOver symbols tree root last.old.id) := by
  induction hLeads with
  | here => exact ⟨hBelow, hHanded⟩
  | further hForm hListed _ ih =>
      rcases hForm.handed_iff hFormed hStanding.holds hBelow
        hListed with ⟨hBelow', hHanded'⟩
      have hThere := hForm.stands hStands hListed
      exact ih hThere.old hThere hBelow' hHanded'

theorem Spans.yields
    (hStart : Start table root before)
    (hSpans : Spans table options root result before after
      whole)
    (hLeads : Leads after.symbols table options whole part) :
    Yields table options root before after part.old.id
      part.new.id part := by
  have hThere := hLeads.stands hSpans.stands
  rcases hLeads.handed_iff hStart.formed hSpans.stands.old
      hSpans.stands
      (by
        rw [hSpans.old_id]
        exact Relation.ReflTransGen.refl)
      (by
        rw [hSpans.handed, hSpans.old_id]
        exact iff_of_false (by simp)
          (apart_of_root hStart.formed).1) with
    ⟨hBelow, hHanded⟩
  exact ⟨rfl, rfl, hLeads.valid hSpans.valid, hThere.old,
    hThere.new.holds.shows, hThere.new.nodup, hBelow,
    hThere.old_assigned, hHanded⟩

/- What is seated is what is yielded. -/
theorem Start.yields_of_seat
    (hStart : Start table root before)
    (hRun : lower table options root before =
      .ok result after)
    (hSeat : Seat after.symbols before.tree after.tree root
      result n m) :
    ∃ part, Yields table options root before after n m part := by
  rcases hStart.seated hRun hSeat.below_root with
    ⟨part, rfl, hSeated⟩ | ⟨store, value, component, hStores⟩
  · have hSame := hSeated.seat.unique hStart.formed hSeat
    have hSite := hSeated.remains.site
    exact ⟨part, rfl, hSame, hSite.valid, hSeated.standing,
      hSite.shows, hSite.nodup, hSeated.below, hSeated.assigned,
      hSeated.handed_iff⟩
  · exact absurd hStores
      (hSeat.untaken hStart.formed store value component)

/- What a node ends as is what is yielded. -/
theorem Start.yields
    (hStart : Start table root before)
    (hRun : lower table options root before =
      .ok result after)
    (hEnds : Ends table options root result before after n m) :
    ∃ part, Yields table options root before after n m part := by
  rcases hEnds with hSeat | hBecomes
  · exact hStart.yields_of_seat hRun hSeat
  · rcases hBecomes with
      ⟨whole, part, hSpans, hLeads, rfl, rfl⟩
    exact ⟨part, hSpans.yields hStart hLeads⟩

/- What is yielded of a node has its tag before the run. -/
theorem Yields.tag_eq
    {node : Node}
    (hYields : Yields table options root before after n m part)
    (hNode : before.tree.get? n = some node) :
    part.old.label.shape.tag = node.kind.tag := by
  rw [← hYields.old_id] at hNode
  rw [← (hYields.standing.holds.of_get? hNode).1]
  exact NodeKind.tag_shape node.kind

/- What is yielded is left where the node ends. -/
theorem Yields.leaves
    (hYields : Yields table options root before after n m part)
    (hEnds : Ends table options root result before after n m) :
    Leaves table options root result before after n m
      part.handed part.new.view where
  ends := hEnds
  handed_iff := hYields.handed_iff
  lowered := by
    refine ⟨part.old.view, part.assigned, ?_, hYields.valid⟩
    rw [← hYields.old_id]
    exact hYields.standing.holds.view?_eq hYields.standing.nodup
  stands := by
    rw [← hYields.new_id]
    exact hYields.shows.view?_eq hYields.nodup

/- What is seated as another construct is a new node. -/
theorem Start.fresh_of_seat
    {node : Node}
    (hStart : Start table root before)
    (hRun : lower table options root before =
      .ok result after)
    (hSeat : Seat after.symbols before.tree after.tree root
      result n m)
    (hYields : Yields table options root before after n m part)
    (hNode : before.tree.get? n = some node)
    (hOther : part.new.view.label.shape.tag ≠
      node.kind.tag) :
    before.tree.size ≤ m.raw := by
  rcases hStart.seated hRun hSeat.below_root with
    ⟨seated, rfl, hSeated⟩ | ⟨store, value, component, hStores⟩
  · have hSame := hSeated.seat.unique hStart.formed hSeat
    rw [← hSame]
    apply hSeated.remains.site.place.resolve_left
    intro hStays
    have hOld := hYields.standing.holds.shows.looks
    rw [hYields.old_id] at hOld
    rcases hStart.looksAfter hRun hOld with
      ⟨handed, listed, hAfter⟩
    have hNew := hYields.shows.looks
    rw [hYields.new_id, ← hSame, hStays] at hNew
    apply hOther
    rw [Placed.label_view, (hNew.unique hAfter.looks).1,
      ← hYields.tag_eq hNode]
    exact part.old.label.tag_retainIf handed
  · exact absurd hStores
      (hSeat.untaken hStart.formed store value component)

/-
  Each node below the result is what a node below the root
  became, or was made beside what one became.
-/
theorem Start.became_or_made
    (hStart : Start table root before)
    (hRun : lower table options root before =
      .ok result after)
    (hBelow : after.tree.Below result m) :
    (∃ n, Becomes table options root result before after n m) ∨
      ∃ whole node,
        Spans table options root result before after whole ∧
          MadeBeside after.symbols table options whole node ∧
          node.id = m := by
  rcases hStart.spans hRun with ⟨whole, hSpans⟩
  rw [← hSpans.new_id, hSpans.stands.new.holds.below_iff]
    at hBelow
  rcases passed_on_or_made hSpans.stands hSpans.valid hBelow
    with ⟨part, hLeads, hPlace⟩ | ⟨node, hMade, hPlace⟩
  · exact Or.inl ⟨part.old.id, whole, part, hSpans, hLeads, rfl,
      hPlace⟩
  · exact Or.inr ⟨whole, node, hSpans, hMade, hPlace⟩

/-
  Each node below the result has come from somewhere. A call
  that was made beside another node is the only child of a
  pointer that is followed.
-/
theorem Start.cameOf
    {node : Node}
    (hStart : Start table root before)
    (hRun : lower table options root before =
      .ok result after)
    (hBelow : after.tree.Below result m)
    (hNode : after.tree.get? m = some node) :
    CameOf table options root result before after m node := by
  have hLabel {placed : Placed}
      (hHolds : after.tree.Holds placed)
      (hIs : placed.id = m) :
      placed.label = node.label := by
    subst hIs
    exact (hHolds.of_get? hNode).1.symm
  rcases hStart.became_or_made hRun hBelow with
    ⟨n, hBecomes⟩ | ⟨whole, placed, hSpans, hMade, hIs⟩
  · have hBecame := hBecomes
    rcases hBecomes with
      ⟨whole, part, hSpans, hLeads, rfl, hIs⟩
    have hThere := hLeads.stands hSpans.stands
    rcases form_of_valid hThere.old.holds
      (hLeads.valid hSpans.valid) with ⟨parts, made, lost, hForm⟩
    rcases hThere.old.holds.stored with
      ⟨old, hOld, hOldLabel, _⟩
    have hYields := hSpans.yields hStart hLeads
    rw [hIs] at hYields
    exact .became hBecame hYields hThere hForm hOld
      hOldLabel.symm (hLabel hThere.new.holds hIs)
  · rcases hMade with
      ⟨part, parts, beside, lost, hLeads, hForm, hMem⟩
    have hThere := (hLeads.stands hSpans.stands).new
    rcases hForm.holds_made hThere.holds hMem with
      ⟨hHolds, hTag | ⟨function, count, hCall, hOuter, hOnly⟩⟩
    · rw [hLabel hHolds hIs] at hTag
      exact .plain hTag
    · rcases part with
        ⟨assigned, handed, old, ⟨id, label, children⟩⟩
      rw [Placed.label_node] at hOuter
      rw [Placed.children_node] at hOnly
      subst hOnly
      have hPointer : after.tree.Standing
          (.node id label ([] ++ placed :: [])) := hThere
      have hNot := hPointer.isAssigned_child
      rw [hOuter] at hNot
      rw [hLabel hHolds hIs] at hCall
      exact .call hCall (hPointer.child List.mem_cons_self) hIs
        hNot

/- Only what a store assigns to does not persist. -/
theorem Start.persists
    (hStart : Start table root before)
    (hRun : lower table options root before =
      .ok result after)
    (hBelow : before.tree.Below root n)
    (hUntaken : ∀ store value component,
      ¬ Stores after.symbols before.tree root store n value
        component) :
    Persists table options root result before after n := by
  constructor
  · rcases hStart.seated hRun hBelow with
      ⟨part, rfl, hSeated⟩ | ⟨store, value, component, hStores⟩
    · exact ⟨_, hSeated.seat⟩
    · exact absurd hStores (hUntaken store value component)
  · rcases hStart.spans hRun with ⟨whole, hSpans⟩
    rw [← hSpans.old_id, hSpans.stands.old.holds.below_iff]
      at hBelow
    rcases passed_on_or_left hSpans.stands hSpans.valid hBelow
      with ⟨part, hLeads, hPlace⟩ | hLeft
    · exact Or.inl ⟨part.new.id, whole, part, hSpans, hLeads,
        hPlace, rfl⟩
    · exact Or.inr ⟨whole, hSpans, hLeft⟩

end Runs

end Arrays

end Lowering
