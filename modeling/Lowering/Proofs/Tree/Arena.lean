import Lowering.Proofs.Run
import Lowering.Proofs.Tree.Kind

/-
  This file proves what each operation on trees does to the
  nodes of the store, one lemma for each operation. All later
  proofs about trees rest on these lemmas and do not look into
  the operations again.

  An operation that makes no node is described by an edit of
  the nodes, which says what becomes of the node at a handle.

  Key definitions include:
    * `Tree.owner?`
    * `Tree.Edited`
    * `Tree.Extended`

  Main results:
    * `Tree.run_take`
    * `Tree.run_alloc`
    * `Tree.run_replaceWith`
    * `Tree.run_retainResult`
-/

namespace Lowering

namespace Tree

------------------------------------------------------------
-- Reading
------------------------------------------------------------

/- The recorded owner of a node. -/
def owner? (tree : Tree) (id : NodeId) : Option NodeId :=
  (tree.get? id).bind (·.parent)

theorem owner?_of_get?
    {tree : Tree}
    {id : NodeId}
    {node : Node}
    (hNode : tree.get? id = some node) :
    tree.owner? id = node.parent := by
  simp only [owner?, hNode, Option.bind_some]

theorem lt_size_of_get?
    {tree : Tree}
    {id : NodeId}
    {node : Node}
    (hNode : tree.get? id = some node) :
    id.raw < tree.size := by
  rcases Array.getElem?_eq_some_iff.mp hNode with ⟨hBound, _⟩
  exact hBound

theorem exists_get?
    {tree : Tree}
    {id : NodeId}
    (hBound : id.raw < tree.size) :
    ∃ node, tree.get? id = some node :=
  ⟨tree.nodes[id.raw], Array.getElem?_eq_getElem hBound⟩

theorem node_eq_ok
    {tree : Tree}
    {id : NodeId}
    {node : Node}
    (hNode : tree.get? id = some node) :
    tree.node id = .ok node := by
  simp only [Tree.node, hNode]

theorem children_eq_ok
    {tree : Tree}
    {id : NodeId}
    {node : Node}
    (hNode : tree.get? id = some node) :
    tree.children id = .ok node.kind.children := by
  unfold Tree.children
  rw [node_eq_ok hNode]
  rfl

theorem list_eq_ok
    {tree : Tree}
    {id : NodeId}
    {node : Node}
    {slot : ListSlot}
    {items : List NodeId}
    (hNode : tree.get? id = some node)
    (hList : node.kind.list? slot = some items) :
    tree.list id slot = .ok items := by
  unfold Tree.list
  rw [node_eq_ok hNode]
  exact congrArg (fun list => Except.ok (Option.getD list []))
    hList

theorem get?_of_node
    {tree : Tree}
    {id : NodeId}
    {node : Node}
    (hNode : tree.node id = .ok node) :
    tree.get? id = some node := by
  unfold Tree.node at hNode
  cases hGet : tree.get? id with
  | none => simp [hGet] at hNode
  | some found =>
      simp only [hGet, Except.ok.injEq] at hNode
      rw [hNode]

------------------------------------------------------------
-- Editing Nodes
------------------------------------------------------------

/- What an operation that makes no node does to each node. -/
structure Edited
    (before after : Tree)
    (edit : NodeId → Node → Node) : Prop where
  size : after.size = before.size
  get? : ∀ id, after.get? id = (before.get? id).map (edit id)

theorem run_modifyNode
    {tree : Tree}
    {id : NodeId}
    (change : Node → Node)
    (hBound : id.raw < tree.size) :
    ∃ after,
      modifyNode id change tree = .ok () after ∧
        Edited tree after fun n node =>
          if n = id then change node else node := by
  refine ⟨⟨tree.nodes.modify id.raw change⟩, ?_, ?_, ?_⟩
  · exact if_pos hBound
  · simp only [Tree.size, Array.size_modify]
  · intro n
    simp only [Tree.get?, Array.getElem?_modify]
    have hSame : id.raw = n.raw ↔ n = id := by
      constructor
      · intro hRaw
        cases n
        cases id
        simp_all
      · intro hEq
        rw [hEq]
    by_cases hEq : n = id
    · simp only [hEq, if_true]
    · simp only [hSame, hEq, if_false, Option.map_id']

/- What can be changed is there, and the change is an edit. -/
theorem edited_of_run_modifyNode
    {before after : Tree}
    {id : NodeId}
    {change : Node → Node}
    (hRun : modifyNode id change before = .ok () after) :
    id.raw < before.size ∧
      Edited before after fun n node =>
        if n = id then change node else node := by
  by_cases hBound : id.raw < before.size
  · rcases run_modifyNode change hBound with
      ⟨after', hRun', hEdited⟩
    rw [hRun] at hRun'
    cases hRun'
    exact ⟨hBound, hEdited⟩
  · unfold modifyNode at hRun
    split at hRun
    · next hLt => exact absurd hLt hBound
    · exact absurd hRun (by simp)

/- An edit followed by another. -/
theorem Edited.trans
    {first second third : Tree}
    {edit edit' : NodeId → Node → Node}
    (hFirst : Edited first second edit)
    (hSecond : Edited second third edit') :
    Edited first third fun n node =>
      edit' n (edit n node) := by
  refine ⟨hSecond.size.trans hFirst.size, ?_⟩
  intro n
  rw [hSecond.get?, hFirst.get?, Option.map_map]
  rfl

/- An edit is told by what it does to each node. -/
theorem Edited.congr
    {before after : Tree}
    {edit edit' : NodeId → Node → Node}
    (hEdited : Edited before after edit)
    (hSame : ∀ n node,
      before.get? n = some node → edit n node = edit' n node) :
    Edited before after edit' := by
  refine ⟨hEdited.size, ?_⟩
  intro n
  rw [hEdited.get?]
  cases hNode : before.get? n with
  | none => rfl
  | some node =>
      simp only [Option.map_some, hSame n node hNode]

theorem Edited.get?_some
    {before after : Tree}
    {edit : NodeId → Node → Node}
    {id : NodeId}
    {node : Node}
    (hEdited : Edited before after edit)
    (hNode : before.get? id = some node) :
    after.get? id = some (edit id node) := by
  rw [hEdited.get?, hNode, Option.map_some]

theorem Edited.owner?
    {before after : Tree}
    {edit : NodeId → Node → Node}
    (hEdited : Edited before after edit)
    (n : NodeId) :
    after.owner? n =
      (before.get? n).bind fun node => (edit n node).parent := by
  unfold Tree.owner?
  rw [hEdited.get?, Option.bind_map]
  rfl

------------------------------------------------------------
-- Taking
------------------------------------------------------------

/- A taken node is free, and nothing else changes. -/
theorem run_take
    {tree : Tree}
    {id : NodeId}
    (hBound : id.raw < tree.size) :
    ∃ after,
      take id tree = .ok id after ∧
        Edited tree after fun n node =>
          if n = id then { node with parent := none } else node := by
  rcases run_modifyNode ({ · with parent := none }) hBound with
    ⟨after, hRun, hEdited⟩
  refine ⟨after, ?_, hEdited⟩
  unfold take setParent
  rw [run_bind_ok hRun]
  rfl

------------------------------------------------------------
-- Building
------------------------------------------------------------

/- What making a node does to each node. -/
structure Extended
    (before after : Tree)
    (node : Node) : Prop where
  size : after.size = before.size + 1
  made : after.get? ⟨before.size⟩ = some node
  older : ∀ n : NodeId, n.raw < before.size →
    after.get? n = (before.get? n).map fun old =>
      if n ∈ node.kind.children then
        { old with parent := some ⟨before.size⟩ }
      else
        old

private theorem run_claims
    {tree : Tree}
    (owner : NodeId)
    (children : List NodeId)
    (hBound : ∀ n ∈ children, n.raw < tree.size)
    (hFree : ∀ n ∈ children, tree.owner? n = none)
    (hNodup : children.Nodup) :
    ∃ after,
      children.forM (claim owner) tree = .ok () after ∧
        Edited tree after fun n node =>
          if n ∈ children then
            { node with parent := some owner }
          else
            node := by
  induction children generalizing tree with
  | nil =>
      refine ⟨tree, rfl, rfl, ?_⟩
      intro n
      simp
  | cons child children ih =>
      rcases List.nodup_cons.mp hNodup with
        ⟨hNotMem, hRest⟩
      have hChild : child.raw < tree.size :=
        hBound child (by simp)
      rcases exists_get? hChild with ⟨node, hNode⟩
      have hParent : node.parent = none := by
        rw [← owner?_of_get? hNode]
        exact hFree child (by simp)
      rcases run_modifyNode
          ({ · with parent := some owner }) hChild with
        ⟨middle, hClaim, hEdited⟩
      have hStep : claim owner child tree = .ok () middle := by
        unfold claim
        rw [run_bind_ok (run_inspect_ok (node_eq_ok hNode))]
        simp only [hParent]
        exact hClaim
      have hBound' : ∀ n ∈ children, n.raw < middle.size := by
        intro n hMem
        rw [hEdited.size]
        exact hBound n (by simp [hMem])
      have hFree' : ∀ n ∈ children, middle.owner? n = none := by
        intro n hMem
        have hNe : n ≠ child := by
          intro hEq
          exact hNotMem (hEq ▸ hMem)
        have hOld := hFree n (by simp [hMem])
        simp only [owner?] at hOld ⊢
        simp only [hEdited.get?, if_neg hNe, Option.map_id']
        exact hOld
      rcases ih hBound' hFree' hRest with
        ⟨after, hRun, hEdited'⟩
      refine ⟨after, ?_, ?_⟩
      · show (claim owner child >>= fun _ =>
          children.forM (claim owner)) tree = _
        rw [run_bind_ok hStep]
        exact hRun
      · apply (hEdited.trans hEdited').congr
        intro n node _
        by_cases hEq : n = child
        · subst hEq
          simp [hNotMem]
        · simp [hEq]

/-
  A node can be made of free nodes, none of them used twice.
  It takes possession of them and is itself free.
-/
theorem run_alloc
    {tree : Tree}
    (kind : NodeKind NodeId)
    (ty : Option TypeId)
    (element : Option ElementId)
    (hBound : ∀ n ∈ kind.children, n.raw < tree.size)
    (hFree : ∀ n ∈ kind.children, tree.owner? n = none)
    (hNodup : kind.children.Nodup) :
    ∃ after,
      alloc kind ty element tree = .ok ⟨tree.size⟩ after ∧
        Extended tree after { kind, ty, element } := by
  rcases run_claims ⟨tree.size⟩ kind.children
      hBound hFree hNodup with
    ⟨claimed, hRun, hEdited⟩
  refine ⟨⟨claimed.nodes.push { kind, ty, element }⟩,
    ?_, ?_, ?_, ?_⟩
  · unfold alloc
    rw [run_bind_ok (run_get tree), run_bind_ok hRun]
    rfl
  · have hSize := hEdited.size
    simp only [Tree.size, Array.size_push] at hSize ⊢
    rw [hSize]
  · have hSize := hEdited.size
    simp only [Tree.size] at hSize
    simp only [Tree.get?, Tree.size, ← hSize,
      Array.getElem?_push_size]
  · intro n hBound
    have hSize := hEdited.size
    simp only [Tree.size] at hSize hBound
    have hNode := hEdited.get? n
    simp only [Tree.get?, Array.getElem?_push] at hNode ⊢
    rw [if_neg (by omega)]
    exact hNode

------------------------------------------------------------
-- Replacing
------------------------------------------------------------

/- A node without owner has no place to be replaced in. -/
theorem run_replaceWith_free
    {tree : Tree}
    {old new : NodeId}
    (hNe : old ≠ new)
    (hBound : old.raw < tree.size)
    (hFree : tree.owner? old = none) :
    replaceWith old new tree = .ok () tree := by
  rcases exists_get? hBound with ⟨node, hNode⟩
  rw [owner?_of_get? hNode] at hFree
  unfold replaceWith
  simp only [if_neg hNe]
  rw [run_bind_ok (run_inspect_ok (node_eq_ok hNode))]
  simp only [hFree]
  rfl

/- What a replacement does to each node. -/
def relink
    (old new parent : NodeId)
    (id : NodeId)
    (node : Node) : Node :=
  { node with
    kind :=
      if id = parent then
        node.kind.withChildren
          (node.kind.children.replace old new)
      else
        node.kind
    parent :=
      if id = new then
        some parent
      else if id = old then
        none
      else
        node.parent }

/-
  A node is put into the place of another in the owner that
  lists it.
-/
theorem run_replaceWith
    {tree : Tree}
    {old new parent : NodeId}
    {owner : Node}
    (hNe : old ≠ new)
    (hNew : new.raw < tree.size)
    (hParent : tree.owner? old = some parent)
    (hOwner : tree.get? parent = some owner)
    (hListed : old ∈ owner.kind.children) :
    ∃ after,
      replaceWith old new tree = .ok () after ∧
        Edited tree after (relink old new parent) := by
  rcases Option.bind_eq_some_iff.mp hParent with
    ⟨node, hNode, hNodeParent⟩
  rcases @run_modifyNode tree old
      ({ · with parent := none }) (lt_size_of_get? hNode) with
    ⟨freed, hFree, hFreed⟩
  have hOwner' := hFreed.get?_some hOwner
  have hKind :
      (if parent = old then { owner with parent := none }
        else owner : Node).kind = owner.kind := by
    split <;> rfl
  let kind := owner.kind.withChildren
    (owner.kind.children.replace old new)
  rcases @run_modifyNode freed parent
      ({ · with kind }) (lt_size_of_get? hOwner') with
    ⟨relisted, hRelist, hRelisted⟩
  have hNew' : new.raw < relisted.size := by
    rw [hRelisted.size, hFreed.size]
    exact hNew
  rcases run_modifyNode ({ · with parent := some parent })
      hNew' with
    ⟨after, hOwn, hOwned⟩
  refine ⟨after, ?_, ?_⟩
  · unfold replaceWith setParent setKind
    simp only [if_neg hNe]
    rw [run_bind_ok (run_inspect_ok (node_eq_ok hNode))]
    simp only [hNodeParent]
    rw [run_bind_ok hFree,
      run_bind_ok (run_inspect_ok (node_eq_ok hOwner'))]
    simp only [hKind, hListed, if_true]
    rw [run_bind_ok hRelist]
    exact hOwn
  · apply ((hFreed.trans hRelisted).trans hOwned).congr
    intro n found hFound
    have hSame : n = parent → found = owner := by
      intro hEq
      rw [hEq, hOwner] at hFound
      exact (Option.some.inj hFound).symm
    unfold relink
    by_cases hIsOld : n = old
    · have hNotNew : n ≠ new := by
        intro hEq
        exact hNe (hIsOld.symm.trans hEq)
      by_cases hIsParent : n = parent
      · simp only [if_pos hIsOld, if_neg hNotNew,
          if_pos hIsParent, hSame hIsParent, kind]
      · simp only [if_pos hIsOld, if_neg hNotNew,
          if_neg hIsParent]
    · by_cases hIsParent : n = parent
      · simp only [if_neg hIsOld, if_pos hIsParent,
          hSame hIsParent, kind]
        split <;> rfl
      · simp only [if_neg hIsOld, if_neg hIsParent]
        split <;> rfl

------------------------------------------------------------
-- Retained Results
------------------------------------------------------------

/-
  A node hands over its result retained exactly when its kind
  can, and is marked when it does.
-/
theorem run_retainResult
    {tree : Tree}
    {id : NodeId}
    {node : Node}
    (hNode : tree.get? id = some node) :
    ∃ after,
      retainResult id tree =
          .ok (if node.kind.canRetain then some id else none)
            after ∧
        Edited tree after fun n node =>
          if n = id then { node with kind := node.kind.retain }
          else node := by
  cases hCan : node.kind.canRetain with
  | false =>
      refine ⟨tree, ?_, ?_⟩
      · unfold retainResult
        rw [run_bind_ok (run_inspect_ok (node_eq_ok hNode))]
        simp only [hCan]
        rfl
      · refine ⟨rfl, ?_⟩
        intro n
        cases hFound : tree.get? n with
        | none => rfl
        | some found =>
            by_cases hEq : n = id
            · have hSame : found = node := by
                rw [hEq, hNode] at hFound
                exact (Option.some.inj hFound).symm
              subst hSame
              simp [NodeKind.retain, hCan]
            · simp [hEq]
  | true =>
      rcases run_modifyNode
          ({ · with kind := node.kind.retained })
          (lt_size_of_get? hNode) with
        ⟨after, hRun, hEdited⟩
      refine ⟨after, ?_, ?_⟩
      · have hMark := NodeKind.markRetained?_of_canRetain hCan
        have hSet : setRetained id tree = .ok true after := by
          unfold setRetained setKind
          rw [run_bind_ok (run_inspect_ok (node_eq_ok hNode))]
          simp only [hMark]
          rw [run_bind_ok hRun]
          rfl
        unfold retainResult
        rw [run_bind_ok (run_inspect_ok (node_eq_ok hNode))]
        simp only [hCan, if_true]
        rw [run_bind_ok hSet]
        rfl
      · apply hEdited.congr
        intro n found hFound
        by_cases hEq : n = id
        · have hSame : found = node := by
            rw [hEq, hNode] at hFound
            exact (Option.some.inj hFound).symm
          subst hSame
          simp [hEq, NodeKind.retain, hCan]
        · simp [hEq]

end Tree

end Lowering
