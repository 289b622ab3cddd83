import Lowering.Proofs.Tree.Reached

/-
  This file proves that it makes no difference on which way
  the children of a node are reached: as its children, through
  its places, by the name of a list, or through the list that
  can be changed under that name.

  Key definitions include:
    * `NodeKind.WaysAgree`
    * `Tree.Inserted`

  Main results:
    * `NodeKind.waysAgree`
    * `Tree.ways_to_children_agree`
-/

namespace Lowering

------------------------------------------------------------
-- Kinds
------------------------------------------------------------

namespace NodeKind

/- All ways to the children of a kind lead to the same. -/
structure WaysAgree (kind : NodeKind NodeId) : Prop where
  /- The places hold the children, in their order. -/
  places : kind.places = kind.children
  /- What is done in the places is done to the children. -/
  passed : ∀ (m : Type → Type) [Monad m] [LawfulMonad m]
    (act : NodeId → m NodeId),
      kind.mapM act = do
        return kind.withChildren (← kind.children.mapM act)
  /- What is put into the places is all that changes. -/
  written : ∀ items : List NodeId,
    items.length = kind.places.length →
      (kind.withChildren items).children = items ∧
        (kind.withChildren items).shape = kind.shape ∧
        (kind.withChildren items).bare = kind.bare
  /- The lists that can be changed are those that are read. -/
  lists : ∀ slot, kind.editable? slot = kind.list? slot
  /- What is appended comes behind the segment of its list. -/
  segment : ∀ slot items,
    kind.list? slot = some items →
      ∃ ahead behind,
        ahead.length = kind.start slot ∧
          kind.children = ahead ++ items ++ behind ∧
          ∀ child, (kind.append slot child).children =
            ahead ++ items ++ child :: behind
  /- Of two lists, one ends before the other begins. -/
  apart : ∀ slot other items others,
    slot ≠ other →
      kind.list? slot = some items →
        kind.list? other = some others →
          kind.start slot + items.length ≤ kind.start other ∨
            kind.start other + others.length ≤ kind.start slot
  /- Appending changes one list, and no other part. -/
  appended : ∀ slot child,
    (kind.append slot child).parts =
        kind.parts.map (Part.append slot child) ∧
      (kind.append slot child).bare = kind.bare ∧
      ∀ other, (kind.append slot child).list? other =
        (kind.list? other).map fun items =>
          if other = slot then items ++ [child] else items

/- There is no kind on which the ways part. -/
theorem waysAgree (kind : NodeKind NodeId) :
    kind.WaysAgree where
  places := kind.places_eq_children
  passed := fun _ => kind.mapM_eq
  written := by
    intro items hLength
    rw [places_eq_children] at hLength
    have hShape := shape_withChildren kind hLength
    exact ⟨children_withChildren kind hLength, hShape,
      bare_of_shape hShape⟩
  lists := fun slot => (kind.list?_eq_editable? slot).symm
  segment := fun _ _ => segment_append
  apart := fun _ _ _ _ => segments_apart
  appended := by
    intro slot child
    exact ⟨kind.parts_append slot child,
      kind.bare_append slot child,
      fun other => kind.list?_append slot other child⟩

end NodeKind

------------------------------------------------------------
-- Trees
------------------------------------------------------------

namespace Tree

/-
  A node has one child more than it had, right behind one of
  its lists, and other nodes have the children they had.
-/
structure Inserted
    (before after : Tree)
    (parent : NodeId)
    (slot : ListSlot)
    (child : NodeId) : Prop where
  children : ∃ stored items ahead behind,
    before.get? parent = some stored ∧
      stored.kind.list? slot = some items ∧
      ahead.length = stored.kind.start slot ∧
      before.children parent =
        .ok (ahead ++ items ++ behind) ∧
      after.children parent =
        .ok (ahead ++ items ++ child :: behind) ∧
      after.list parent slot = .ok (items ++ [child])
  others : ∀ n, n ≠ parent →
    after.children n = before.children n

/- What a completed appending does to the children of nodes. -/
theorem inserted_of_run_pushChild
    {before after : Tree}
    {parent child : NodeId}
    {slot : ListSlot}
    (hRun : pushChild parent slot child before =
      .ok () after) :
    Inserted before after parent slot child := by
  rcases of_run_pushChild hRun with
    ⟨_, _, stored, hStored, hSlot, hEdited⟩
  rcases Option.isSome_iff_exists.mp hSlot with ⟨items, hList⟩
  rcases NodeKind.segment_append hList with
    ⟨ahead, behind, hStart, hChildren, hAppended⟩
  have hAfter := hEdited.get?_some hStored
  have hKind : (adopt parent slot child parent stored).kind =
      stored.kind.append slot child := if_pos rfl
  constructor
  · refine ⟨stored, items, ahead, behind, hStored, hList,
      hStart, ?_, ?_, ?_⟩
    · rw [children_eq_ok hStored, hChildren]
    · rw [children_eq_ok hAfter, hKind, hAppended]
    · apply list_eq_ok hAfter
      rw [hKind, NodeKind.list?_append, hList, Option.map_some,
        if_pos rfl]
  · intro n hOther
    unfold Tree.children Tree.node
    rw [hEdited.get?]
    cases before.get? n with
    | none => rfl
    | some node =>
        simp only [Option.map_some, adopt, if_neg hOther]
        rfl

/-
  Whatever a kind holds, its children are the same on all ways
  to them, and can be changed on each way alike. Appending to a
  list of a node puts one child behind the last of the list,
  and leaves the children of all nodes as they are otherwise.
-/
theorem ways_to_children_agree :
    (∀ kind : NodeKind NodeId, kind.WaysAgree) ∧
      ∀ before parent slot child after,
        pushChild parent slot child before = .ok () after →
          Inserted before after parent slot child := by
  constructor
  · exact NodeKind.waysAgree
  · intro before parent slot child after hRun
    exact inserted_of_run_pushChild hRun

/- An enum with two constants and a body. -/
def twoConstants : NodeKind NodeId :=
  .enumDeclaration none [] ⟨0⟩ [⟨1⟩, ⟨2⟩] [⟨3⟩]

/- The enum with what it holds, and a name that is free. -/
def namedConstants : Tree := ⟨#[
  { kind := .simpleName ⟨1⟩
    parent := some ⟨4⟩ },
  { kind := .simpleName ⟨2⟩
    parent := some ⟨4⟩ },
  { kind := .simpleName ⟨3⟩
    parent := some ⟨4⟩ },
  { kind := .block []
    parent := some ⟨4⟩ },
  { kind := twoConstants },
  { kind := .simpleName ⟨4⟩ }]⟩

/-
  Its children can be reversed in place, its constants end
  before its body, and a third constant comes in between.
-/
theorem ways_to_children_agree_namedConstants :
    (twoConstants.withChildren [⟨3⟩, ⟨2⟩, ⟨1⟩, ⟨0⟩]).children =
        [⟨3⟩, ⟨2⟩, ⟨1⟩, ⟨0⟩] ∧
      twoConstants.editable? .constants = some [⟨1⟩, ⟨2⟩] ∧
      twoConstants.start .constants + 2 ≤
        twoConstants.start .body ∧
      ∃ after,
        pushChild ⟨4⟩ .constants ⟨5⟩ namedConstants =
            .ok () after ∧
          Inserted namedConstants after ⟨4⟩ .constants ⟨5⟩ ∧
          after.children ⟨4⟩ =
            .ok [⟨0⟩, ⟨1⟩, ⟨2⟩, ⟨5⟩, ⟨3⟩] := by
  rcases ways_to_children_agree with ⟨hKinds, hPushed⟩
  have hAgree := hKinds twoConstants
  have hReversed := hAgree.written
    [⟨3⟩, ⟨2⟩, ⟨1⟩, ⟨0⟩] rfl
  refine ⟨hReversed.1, hAgree.lists .constants, ?_, ?_⟩
  · rcases hAgree.apart .constants .body _ _ (by decide)
      rfl rfl with hBefore | hBehind
    · exact hBefore
    · exact absurd hBehind (by decide)
  · exact ⟨_, rfl, hPushed _ _ _ _ _ rfl, rfl⟩

end Tree

end Lowering
