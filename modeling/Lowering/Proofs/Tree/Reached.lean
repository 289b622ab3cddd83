import Lowering.Tree.Copy
import Lowering.Tree.Enum
import Lowering.Proofs.Tree.Replace
import Lowering.Proofs.Tree.Parts

/-
  This file describes the trees that can be built, with the
  operations on trees in any order, and proves what all of them
  have in common: a node lists nodes that are there, and where
  a node has an owner, the owner lists it.

  The converse does not hold: a node may list others that were
  taken from it and put elsewhere.

  Key definitions include:
    * `Tree.Edit`
    * `Tree.Reached`
    * `Tree.Linked`
    * `Tree.Keeps`
    * `Tree.KeepsAlong`
    * `Tree.KeepsWith`

  Main results:
    * `Tree.Reached.convertEnum`
    * `Tree.Reached.linked`
-/

namespace Lowering

namespace Tree

------------------------------------------------------------
-- Edits
------------------------------------------------------------

/- The operations that build and change trees. -/
inductive Edit
  | alloc
      (kind : NodeKind NodeId)
      (ty : Option TypeId)
      (element : Option ElementId)
  | setType (id : NodeId) (ty : Option TypeId)
  | setElement (id : NodeId) (element : Option ElementId)
  | setRetained (id : NodeId)
  | pushChild (parent : NodeId) (slot : ListSlot) (child : NodeId)
  | take (id : NodeId)
  | replaceWith (old new : NodeId)
  | deepCopy (id : NodeId)

/- Perform an edit and forget its answer. -/
def Edit.perform : Edit → TreeM Unit
  | alloc kind ty element =>
    discard (Tree.alloc kind ty element)
  | setType id ty => Tree.setType id ty
  | setElement id element => Tree.setElement id element
  | setRetained id => discard (Tree.setRetained id)
  | pushChild parent slot child =>
    Tree.pushChild parent slot child
  | take id => discard (Tree.take id)
  | replaceWith old new => Tree.replaceWith old new
  | deepCopy id => discard (Tree.deepCopy id)

/- The trees that edits build from the empty one. -/
inductive Reached : Tree → Prop
  | empty : Reached {}
  | edit
      {tree tree' : Tree}
      (reached : Reached tree)
      (edit : Edit)
      (run : edit.perform tree = .ok () tree') :
      Reached tree'

------------------------------------------------------------
-- Linked Trees
------------------------------------------------------------

/- Nodes list what is there, and owners list what they own. -/
structure Linked (tree : Tree) : Prop where
  bounded : ∀ id stored,
    tree.get? id = some stored →
      ∀ n ∈ stored.kind.children, n.raw < tree.size
  listed : ∀ n owner,
    tree.owner? n = some owner →
      ∃ stored,
        tree.get? owner = some stored ∧
          n ∈ stored.kind.children

theorem Linked.empty : Linked {} where
  bounded := by
    intro id stored hAt
    exact absurd hAt (by simp [get?])
  listed := by
    intro n owner hOwner
    exact absurd hOwner (by simp [owner?, get?])

/-
  An edit of nodes keeps a tree linked, if what is listed after
  it is there, and what is owned after it is listed.
-/
theorem Linked.edited
    {before after : Tree}
    {edit : NodeId → Node → Node}
    (hEdited : Edited before after edit)
    (hBounded : ∀ id stored,
      before.get? id = some stored →
        ∀ n ∈ (edit id stored).kind.children,
          n.raw < before.size)
    (hListed : ∀ n node owner,
      before.get? n = some node →
        (edit n node).parent = some owner →
          ∃ stored,
            before.get? owner = some stored ∧
              n ∈ (edit owner stored).kind.children) :
    after.Linked where
  bounded := by
    intro id stored hAt n hMem
    rw [hEdited.get?] at hAt
    rcases Option.map_eq_some_iff.mp hAt with
      ⟨old, hOld, rfl⟩
    rw [hEdited.size]
    exact hBounded id old hOld n hMem
  listed := by
    intro n owner hOwner
    rcases Option.bind_eq_some_iff.mp hOwner with
      ⟨node, hNode, hParent⟩
    rw [hEdited.get?] at hNode
    rcases Option.map_eq_some_iff.mp hNode with
      ⟨old, hOld, rfl⟩
    rcases hListed n old owner hOld hParent with
      ⟨stored, hStored, hMem⟩
    exact ⟨_, hEdited.get?_some hStored, hMem⟩

/- The one handle between the old and the new size. -/
theorem eq_made
    {id : NodeId}
    {size : Nat}
    (hNew : ¬ id.raw < size)
    (hLt : id.raw < size + 1) :
    id = ⟨size⟩ := by
  rcases id with ⟨raw⟩
  have hRaw : raw = size := by
    simp only at hNew hLt
    omega
  rw [hRaw]

/- An older node still lists what it listed. -/
private theorem Extended.listed
    {before after : Tree}
    {node stored : Node}
    {id : NodeId}
    (hExtended : Extended before after node)
    (hAt : before.get? id = some stored) :
    ∃ stored',
      after.get? id = some stored' ∧
        stored'.kind = stored.kind := by
  have hOlder := hExtended.older id (lt_size_of_get? hAt)
  rw [hAt, Option.map_some] at hOlder
  refine ⟨_, hOlder, ?_⟩
  split <;> rfl

/- A new node keeps a tree linked. -/
theorem Linked.extended
    {before after : Tree}
    {node : Node}
    (hLinked : before.Linked)
    (hExtended : Extended before after node)
    (hBound : ∀ n ∈ node.kind.children, n.raw < before.size)
    (hFree : node.parent = none) :
    after.Linked where
  bounded := by
    intro id stored hAt n hMem
    rw [hExtended.size]
    by_cases hOld : id.raw < before.size
    · rw [hExtended.older id hOld] at hAt
      rcases Option.map_eq_some_iff.mp hAt with
        ⟨old, hStored, rfl⟩
      have hKind : n ∈ old.kind.children := by
        split at hMem <;> exact hMem
      have hLt := hLinked.bounded id old hStored n hKind
      omega
    · have hLt := lt_size_of_get? hAt
      rw [hExtended.size] at hLt
      rw [eq_made hOld hLt, hExtended.made]
        at hAt
      cases hAt
      exact Nat.lt_succ_of_lt (hBound n hMem)
  listed := by
    intro n owner hOwner
    rcases Option.bind_eq_some_iff.mp hOwner with
      ⟨found, hFound, hParent⟩
    by_cases hOld : n.raw < before.size
    · rw [hExtended.older n hOld] at hFound
      rcases Option.map_eq_some_iff.mp hFound with
        ⟨old, hStored, rfl⟩
      split at hParent
      · next hMem =>
        cases hParent
        exact ⟨node, hExtended.made, hMem⟩
      · have hOwned : before.owner? n = some owner := by
          rw [owner?_of_get? hStored]
          exact hParent
        rcases hLinked.listed n owner hOwned with
          ⟨stored, hAt, hMem⟩
        rcases hExtended.listed hAt with ⟨stored', hAt', hKind⟩
        rw [← hKind] at hMem
        exact ⟨stored', hAt', hMem⟩
    · have hLt := lt_size_of_get? hFound
      rw [hExtended.size] at hLt
      rw [eq_made hOld hLt, hExtended.made]
        at hFound
      cases hFound
      rw [hFree] at hParent
      exact absurd hParent (by simp)

------------------------------------------------------------
-- Operations
------------------------------------------------------------

/- An operation that succeeds keeps a property of trees. -/
def Keeps
    {α : Type}
    (property : Tree → Prop)
    (operation : TreeM α) : Prop :=
  ∀ before answer after,
    operation before = .ok answer after →
      property before →
        property after

section Keeps

variable {α β : Type}
variable {property : Tree → Prop}

theorem Keeps.pure (answer : α) :
    Keeps property (Pure.pure answer : TreeM α) := by
  intro before _ after hRun hBefore
  cases hRun
  exact hBefore

theorem Keeps.throw (fault : TreeFault) :
    Keeps property (MonadExcept.throw fault : TreeM α) := by
  intro before _ after hRun
  exact absurd hRun (by nofun)

theorem Keeps.bind
    {first : TreeM α}
    {next : α → TreeM β}
    (hFirst : Keeps property first)
    (hNext : ∀ answer, Keeps property (next answer)) :
    Keeps property (first >>= next) := by
  intro before answer after hRun hBefore
  rcases run_bind_eq_ok hRun with
    ⟨middleAnswer, middle, hRunFirst, hRunNext⟩
  exact hNext middleAnswer _ _ _ hRunNext
    (hFirst _ _ _ hRunFirst hBefore)

theorem Keeps.discard
    {operation : TreeM α}
    (hKeeps : Keeps property operation) :
    Keeps property (Functor.discard operation) := by
  intro before _ after hRun hBefore
  have hBind : (operation >>= fun _ => Pure.pure ()) before =
      .ok () after := hRun
  rcases run_bind_eq_ok hBind with ⟨_, middle, hFirst, hLast⟩
  cases hLast
  exact hKeeps _ _ _ hFirst hBefore

theorem Keeps.inspect
    (question : Tree → Except TreeFault α) :
    Keeps property (TreeM.inspect question) := by
  intro before answer after hRun hBefore
  rw [(run_inspect_eq_ok hRun).2]
  exact hBefore

theorem Keeps.mapM
    {operation : α → TreeM β}
    (items : List α)
    (hEach : ∀ item, Keeps property (operation item)) :
    Keeps property (items.mapM operation) := by
  induction items with
  | nil =>
      rw [List.mapM_nil]
      exact Keeps.pure _
  | cons item items ih =>
      rw [List.mapM_cons]
      apply (hEach item).bind
      intro first
      apply ih.bind
      intro rest
      exact Keeps.pure _

end Keeps

section Remembering

variable {α β σ μ : Type}

/-
  An operation that remembers something keeps a property of
  trees and of what is remembered.
-/
def KeepsAlong
    (property : μ → Tree → Prop)
    (operation : StateT μ TreeM α) : Prop :=
  ∀ memory before answer memory' after,
    operation memory before = .ok (answer, memory') after →
      property memory before →
        property memory' after

/-
  An operation that remembers something keeps a property of
  trees, whatever it remembers when it begins.
-/
def KeepsWith
    (property : Tree → Prop)
    (operation : StateT μ TreeM α) : Prop :=
  ∀ memory, Keeps property (operation memory)

theorem keepsWith_iff
    {property : Tree → Prop}
    {operation : StateT μ TreeM α} :
    KeepsWith property operation ↔
      KeepsAlong (fun _ => property) operation := by
  constructor
  · intro hKeeps memory before answer memory' after
    exact hKeeps memory before (answer, memory') after
  · rintro hKeeps memory before ⟨answer, memory'⟩ after
    exact hKeeps memory before answer memory' after

variable {property : μ → Tree → Prop}

theorem KeepsAlong.pure (answer : α) :
    KeepsAlong property
      (Pure.pure answer : StateT μ TreeM α) := by
  intro memory before _ memory' after hRun hBefore
  cases hRun
  exact hBefore

theorem KeepsAlong.of_run_bind
    {first : StateT μ TreeM α}
    {next : α → StateT μ TreeM β}
    (hFirst : KeepsAlong property first)
    {memory memory' : μ}
    {before after : Tree}
    {answer : β}
    (hRun : (first >>= next) memory before =
      .ok (answer, memory') after)
    (hBefore : property memory before) :
    ∃ item between middle,
      property between middle ∧
        next item between middle =
          .ok (answer, memory') after := by
  rcases run_bind_eq_ok hRun with
    ⟨⟨item, between⟩, middle, hRunFirst, hRunNext⟩
  exact ⟨item, between, middle,
    hFirst _ _ _ _ _ hRunFirst hBefore, hRunNext⟩

theorem KeepsAlong.bind
    {first : StateT μ TreeM α}
    {next : α → StateT μ TreeM β}
    (hFirst : KeepsAlong property first)
    (hNext : ∀ answer, KeepsAlong property (next answer)) :
    KeepsAlong property (first >>= next) := by
  intro memory before answer memory' after hRun hBefore
  rcases hFirst.of_run_bind hRun hBefore with
    ⟨item, between, middle, hMiddle, hRunNext⟩
  exact hNext item _ _ _ _ _ hRunNext hMiddle

theorem KeepsAlong.lift
    {operation : TreeM α}
    (hKeeps : ∀ memory, Keeps (property memory) operation) :
    KeepsAlong property
      (liftM operation : StateT μ TreeM α) := by
  intro memory before answer memory' after hRun hBefore
  rcases run_bind_eq_ok hRun with
    ⟨found, middle, hRunFirst, hLast⟩
  cases hLast
  exact hKeeps memory _ _ _ hRunFirst hBefore

theorem KeepsAlong.mapM
    {operation : α → StateT μ TreeM β}
    (items : List α)
    (hEach : ∀ item, KeepsAlong property (operation item)) :
    KeepsAlong property (items.mapM operation) := by
  induction items with
  | nil =>
      rw [List.mapM_nil]
      exact KeepsAlong.pure _
  | cons item items ih =>
      rw [List.mapM_cons]
      apply (hEach item).bind
      intro first
      apply ih.bind
      intro rest
      exact KeepsAlong.pure _

theorem KeepsAlong.optionMapM
    {operation : α → StateT μ TreeM β}
    (item : Option α)
    (hEach : ∀ item, KeepsAlong property (operation item)) :
    KeepsAlong property (item.mapM operation) := by
  cases item with
  | none => exact KeepsAlong.pure _
  | some found =>
      intro memory before answer memory' after hRun hBefore
      rcases run_bind_eq_ok hRun with
        ⟨⟨made, between⟩, middle, hConvert, hLast⟩
      cases hLast
      exact hEach found _ _ _ _ _ hConvert hBefore

/-
  A conversion of an enum converts its pieces, and builds the
  declaration of them last.
-/
theorem KeepsAlong.of_run_convertEnum
    {convert : σ → StateT μ TreeM NodeId}
    (hConvert : ∀ piece, KeepsAlong property (convert piece))
    {source : EnumSource σ}
    {memory memory' : μ}
    {before after : Tree}
    {made : NodeId}
    (hRun : Tree.convertEnum convert source memory before =
      .ok (made, memory') after)
    (hBefore : property memory before) :
    ∃ kind last,
      property memory' last ∧
        alloc kind source.ty source.element last =
          .ok made after := by
  unfold Tree.convertEnum at hRun
  rcases (KeepsAlong.optionMapM _ hConvert).of_run_bind hRun
    hBefore with ⟨javadoc, _, _, hBefore, hRun⟩
  rcases (KeepsAlong.mapM _ hConvert).of_run_bind hRun
    hBefore with ⟨annotations, _, _, hBefore, hRun⟩
  rcases (hConvert source.name).of_run_bind hRun
    hBefore with ⟨name, _, _, hBefore, hRun⟩
  rcases (KeepsAlong.mapM _ hConvert).of_run_bind hRun
    hBefore with ⟨constants, _, _, hBefore, hRun⟩
  rcases (KeepsAlong.lift fun _ =>
      Keeps.inspect _).of_run_bind hRun
    hBefore with ⟨_, _, _, hBefore, hRun⟩
  rcases (KeepsAlong.mapM _ hConvert).of_run_bind hRun
    hBefore with ⟨body, _, last, hLast, hRun⟩
  rcases run_bind_eq_ok hRun with ⟨id, built, hAlloc, hAnswer⟩
  cases hAnswer
  exact ⟨_, last, hLast, hAlloc⟩

end Remembering

/- An edit succeeds where the operation does. -/
theorem run_discard_ok
    {α : Type}
    {operation : TreeM α}
    {before after : Tree}
    {answer : α}
    (hRun : operation before = .ok answer after) :
    (discard operation : TreeM Unit) before = .ok () after := by
  show (operation >>= fun _ => Pure.pure ()) before = _
  rw [run_bind_ok hRun]
  rfl

/-
  Conversions lead to no trees that edits do not lead to,
  whatever the converter remembers from piece to piece.
-/
theorem Reached.convertEnum
    {σ μ : Type}
    {convert : σ → StateT μ TreeM NodeId}
    (hConvert : ∀ piece, KeepsWith Reached (convert piece))
    (source : EnumSource σ) :
    KeepsWith Reached (Tree.convertEnum convert source) := by
  rintro memory before ⟨id, memory'⟩ after hRun hReached
  rcases KeepsAlong.of_run_convertEnum
    (fun piece => keepsWith_iff.mp (hConvert piece))
    hRun hReached with ⟨kind, last, hLast, hAlloc⟩
  refine hLast.edit (.alloc kind source.ty source.element) ?_
  exact run_discard_ok hAlloc

/- A change of one node that is no relinking. -/
private theorem linked_modifyNode
    {before after : Tree}
    {id : NodeId}
    {change : Node → Node}
    (hLinked : before.Linked)
    (hRun : modifyNode id change before = .ok () after)
    (hChildren : ∀ node, before.get? id = some node →
      (change node).kind.children = node.kind.children)
    (hParent : ∀ node owner, before.get? id = some node →
      (change node).parent = some owner →
        node.parent = some owner) :
    after.Linked := by
  rcases edited_of_run_modifyNode hRun with ⟨_, hEdited⟩
  apply Linked.edited hEdited
  · intro n stored hAt m hMem
    apply hLinked.bounded n stored hAt
    split at hMem
    · next hEq =>
      rw [hEq] at hAt
      rw [← hChildren stored hAt]
      exact hMem
    · exact hMem
  · intro n node owner hNode hOwner
    have hOwned : before.owner? n = some owner := by
      rw [owner?_of_get? hNode]
      split at hOwner
      · next hEq =>
        rw [hEq] at hNode
        exact hParent node owner hNode hOwner
      · exact hOwner
    rcases hLinked.listed n owner hOwned with
      ⟨stored, hAt, hMem⟩
    refine ⟨stored, hAt, ?_⟩
    split
    · next hEq =>
      rw [hEq] at hAt
      rw [hChildren stored hAt]
      exact hMem
    · exact hMem

theorem keeps_setType (id : NodeId) (ty : Option TypeId) :
    Keeps Linked (setType id ty) := by
  intro before _ after hRun hLinked
  exact linked_modifyNode hLinked hRun (fun _ _ => rfl)
    (fun _ _ _ hOwner => hOwner)

theorem keeps_setElement
    (id : NodeId)
    (element : Option ElementId) :
    Keeps Linked (setElement id element) := by
  intro before _ after hRun hLinked
  exact linked_modifyNode hLinked hRun (fun _ _ => rfl)
    (fun _ _ _ hOwner => hOwner)

theorem keeps_take (id : NodeId) : Keeps Linked (take id) := by
  intro before answer after hRun hLinked
  rcases run_bind_eq_ok hRun with ⟨_, middle, hFree, hLast⟩
  cases hLast
  exact linked_modifyNode hLinked hFree (fun _ _ => rfl)
    (fun _ _ _ hOwner => absurd hOwner (by simp))

/- A request to retain changes at most the flag of the node. -/
theorem of_run_setRetained
    {before after : Tree}
    {id : NodeId}
    {answer : Bool}
    (hRun : setRetained id before = .ok answer after) :
    after = before ∨
      ∃ node marked,
        before.get? id = some node ∧
          node.kind.markRetained? = some marked ∧
          modifyNode id ({ · with kind := marked }) before =
            .ok () after := by
  rcases run_bind_eq_ok hRun with
    ⟨node, middle, hNode, hMarking⟩
  rcases run_inspect_eq_ok hNode with ⟨hAt, rfl⟩
  cases hMark : node.kind.markRetained? with
  | some kind =>
      simp only [hMark] at hMarking
      rcases run_bind_eq_ok hMarking with
        ⟨_, marked, hSet, hLast⟩
      cases hLast
      exact Or.inr ⟨node, kind, get?_of_node hAt, hMark, hSet⟩
  | none =>
      simp only [hMark] at hMarking
      cases hMarking
      exact Or.inl rfl

theorem keeps_setRetained (id : NodeId) :
    Keeps Linked (setRetained id) := by
  intro before answer after hRun hLinked
  rcases of_run_setRetained hRun with
    rfl | ⟨node, marked, hStored, hMark, hSet⟩
  · exact hLinked
  · apply linked_modifyNode hLinked hSet
    · intro found hFound
      rw [hStored] at hFound
      cases hFound
      exact NodeKind.children_of_markRetained? hMark
    · intro _ _ _ hOwner
      exact hOwner

/- Children that could be claimed were there and were free. -/
private theorem of_run_claims
    {owner : NodeId}
    (children : List NodeId)
    {before after : Tree}
    (hRun : children.forM (claim owner) before =
      .ok () after) :
    (∀ n ∈ children, n.raw < before.size) ∧
      (∀ n ∈ children, before.owner? n = none) ∧
      children.Nodup := by
  induction children generalizing before with
  | nil => simp
  | cons child children ih =>
      rcases run_bind_eq_ok hRun with
        ⟨_, claimed, hClaim, hRest⟩
      unfold claim at hClaim
      rcases run_bind_eq_ok hClaim with
        ⟨node, middle, hNode, hSet⟩
      rcases run_inspect_eq_ok hNode with ⟨hAt, rfl⟩
      have hStored := get?_of_node hAt
      have hFree : node.parent = none := by
        cases hParent : node.parent with
        | none => rfl
        | some current =>
            simp only [hParent] at hSet
            exact absurd hSet (by nofun)
      simp only [hFree] at hSet
      rcases edited_of_run_modifyNode hSet with
        ⟨hBound, hEdited⟩
      rcases ih hRest with ⟨hBounds, hFrees, hNodup⟩
      have hOwned : claimed.owner? child = some owner := by
        rw [owner?_of_get? (hEdited.get?_some hStored),
          if_pos rfl]
      have hNotMem : child ∉ children := by
        intro hMem
        rw [hFrees child hMem] at hOwned
        exact absurd hOwned (by simp)
      refine ⟨?_, ?_, List.nodup_cons.mpr ⟨hNotMem, hNodup⟩⟩
      · intro n hMem
        rcases List.mem_cons.mp hMem with rfl | hMem
        · exact hBound
        · rw [← hEdited.size]
          exact hBounds n hMem
      · intro n hMem
        rcases List.mem_cons.mp hMem with rfl | hMem
        · rw [owner?_of_get? hStored]
          exact hFree
        · have hNe : n ≠ child := by
            intro hEq
            rw [hEq] at hMem
            exact hNotMem hMem
          have hStill := hFrees n hMem
          unfold owner? at hStill ⊢
          rw [hEdited.get?] at hStill
          simp only [if_neg hNe, Option.map_id'] at hStill
          exact hStill

/- What can be built is built of free nodes, each used once. -/
theorem free_of_run_alloc
    {before after : Tree}
    {kind : NodeKind NodeId}
    {ty : Option TypeId}
    {element : Option ElementId}
    {id : NodeId}
    (hRun : alloc kind ty element before = .ok id after) :
    (∀ n ∈ kind.children, n.raw < before.size) ∧
      (∀ n ∈ kind.children, before.owner? n = none) ∧
      kind.children.Nodup := by
  unfold alloc at hRun
  rw [run_bind_ok (run_get before)] at hRun
  rcases run_bind_eq_ok hRun with ⟨_, claimed, hClaims, _⟩
  exact of_run_claims kind.children hClaims

/- What building does, where it succeeds. -/
theorem of_run_alloc
    {before after : Tree}
    {kind : NodeKind NodeId}
    {ty : Option TypeId}
    {element : Option ElementId}
    {id : NodeId}
    (hRun : alloc kind ty element before = .ok id after) :
    (∀ n ∈ kind.children, n.raw < before.size) ∧
      Extended before after { kind, ty, element } := by
  rcases free_of_run_alloc hRun with ⟨hBounds, hFrees, hNodup⟩
  rcases run_alloc kind ty element hBounds hFrees hNodup with
    ⟨after', hRun', hExtended⟩
  rw [hRun] at hRun'
  cases hRun'
  exact ⟨hBounds, hExtended⟩

theorem keeps_alloc
    (kind : NodeKind NodeId)
    (ty : Option TypeId)
    (element : Option ElementId) :
    Keeps Linked (alloc kind ty element) := by
  intro before id after hRun hLinked
  rcases of_run_alloc hRun with ⟨hBounds, hExtended⟩
  exact hLinked.extended hExtended hBounds rfl

/- A copy is built bottom up. -/
theorem Keeps.deepCopy
    {property : Tree → Prop}
    (hAlloc : ∀ kind ty element,
      Keeps property (alloc kind ty element))
    (id : NodeId) :
    Keeps property (Tree.deepCopy id) := by
  have hWithin : ∀ depth id,
      Keeps property (deepCopyWithin depth id) := by
    intro depth
    induction depth with
    | zero =>
        intro id
        unfold deepCopyWithin
        exact Keeps.throw _
    | succ depth ih =>
        intro id
        unfold deepCopyWithin
        refine (Keeps.inspect _).bind ?_
        intro node
        refine (Keeps.mapM _ ih).bind ?_
        intro copies
        exact hAlloc _ _ _
  intro before copy after hRun hBefore
  exact hWithin _ _ _ _ _ hRun hBefore

theorem keeps_deepCopy (id : NodeId) :
    Keeps Linked (deepCopy id) :=
  Keeps.deepCopy keeps_alloc id

/-
  An edit that lists one more node at a parent, which then owns
  it, keeps a tree linked; a node that is no longer listed
  there must not be owned there.
-/
private theorem Linked.relisted
    {before after : Tree}
    {edit : NodeId → Node → Node}
    {parent new : NodeId}
    {owner : Node}
    (hLinked : before.Linked)
    (hEdited : Edited before after edit)
    (hOwner : before.get? parent = some owner)
    (hBound : new.raw < before.size)
    (hKinds : ∀ n node, n ≠ parent →
      (edit n node).kind.children = node.kind.children)
    (hItems : ∀ n ∈ (edit parent owner).kind.children,
      n ∈ owner.kind.children ∨ n = new)
    (hListed : new ∈ (edit parent owner).kind.children)
    (hNew : ∀ node, (edit new node).parent = some parent)
    (hOthers : ∀ n node other, n ≠ new →
      (edit n node).parent = some other →
        node.parent = some other ∧
          (n ∈ owner.kind.children →
            n ∈ (edit parent owner).kind.children)) :
    after.Linked := by
  apply Linked.edited hEdited
  · intro id stored hAt n hMem
    by_cases hEq : id = parent
    · rw [hEq] at hAt hMem
      rw [hOwner] at hAt
      cases hAt
      rcases hItems n hMem with hOld | rfl
      · exact hLinked.bounded parent owner hOwner n hOld
      · exact hBound
    · rw [hKinds id stored hEq] at hMem
      exact hLinked.bounded id stored hAt n hMem
  · intro n node other hNode hParent
    by_cases hEq : n = new
    · rw [hEq, hNew node] at hParent
      cases hParent
      rw [hEq]
      exact ⟨owner, hOwner, hListed⟩
    · rcases hOthers n node other hEq hParent with
        ⟨hStill, hKept⟩
      have hOwned : before.owner? n = some other := by
        rw [owner?_of_get? hNode]
        exact hStill
      rcases hLinked.listed n other hOwned with
        ⟨stored, hAt, hMem⟩
      refine ⟨stored, hAt, ?_⟩
      by_cases hSame : other = parent
      · rw [hSame] at hAt ⊢
        rw [hOwner] at hAt
        cases hAt
        exact hKept hMem
      · rw [hKinds other stored hSame]
        exact hMem

/-
  An owned node is only replaced where its owner lists it, and
  by another node that is there.
-/
private theorem listed_of_run_replaceWith
    {before after : Tree}
    {old new parent : NodeId}
    (hRun : replaceWith old new before = .ok () after)
    (hParent : before.owner? old = some parent) :
    old ≠ new ∧ new.raw < before.size ∧
      ∃ owner,
        before.get? parent = some owner ∧
          old ∈ owner.kind.children := by
  unfold replaceWith at hRun
  by_cases hEq : old = new
  · simp only [if_pos hEq] at hRun
    exact absurd hRun (by nofun)
  refine ⟨hEq, ?_⟩
  simp only [if_neg hEq] at hRun
  rcases run_bind_eq_ok hRun with ⟨node, _, hNode, hFreeing⟩
  rcases run_inspect_eq_ok hNode with ⟨hAt, rfl⟩
  rw [owner?_of_get? (get?_of_node hAt)] at hParent
  simp only [hParent] at hFreeing
  rcases run_bind_eq_ok hFreeing with
    ⟨_, freed, hFree, hReading⟩
  rcases edited_of_run_modifyNode hFree with ⟨_, hFreed⟩
  rcases run_bind_eq_ok hReading with
    ⟨owner, _, hOwner, hSplicing⟩
  rcases run_inspect_eq_ok hOwner with ⟨hOwnerAt, rfl⟩
  by_cases hListed : old ∈ owner.kind.children
  · simp only [if_pos hListed] at hSplicing
    rcases run_bind_eq_ok hSplicing with
      ⟨_, spliced, hSplice, hLast⟩
    rcases edited_of_run_modifyNode hSplice with ⟨_, hSpliced⟩
    have hBound := (edited_of_run_modifyNode hLast).1
    rw [hSpliced.size, hFreed.size] at hBound
    have hStored := get?_of_node hOwnerAt
    rw [hFreed.get?] at hStored
    rcases Option.map_eq_some_iff.mp hStored with
      ⟨found, hFound, hEdit⟩
    refine ⟨hBound, found, hFound, ?_⟩
    rw [← hEdit] at hListed
    split at hListed <;> exact hListed
  · simp only [if_neg hListed] at hSplicing
    exact absurd hSplicing (by nofun)

/-
  A replacement has no place to work in, or it puts a node
  there that is in the tree.
-/
theorem of_run_replaceWith
    {before after : Tree}
    {old new : NodeId}
    (hRun : replaceWith old new before = .ok () after) :
    (before.owner? old = none ∧ after = before) ∨
      ∃ parent owner,
        before.owner? old = some parent ∧
          before.get? parent = some owner ∧
          old ∈ owner.kind.children ∧
          old ≠ new ∧
          new.raw < before.size ∧
          Edited before after (relink old new parent) := by
  cases hParent : before.owner? old with
  | none =>
      refine Or.inl ⟨rfl, ?_⟩
      unfold replaceWith at hRun
      by_cases hEq : old = new
      · simp only [if_pos hEq] at hRun
        exact absurd hRun (by nofun)
      simp only [if_neg hEq] at hRun
      rcases run_bind_eq_ok hRun with ⟨node, _, hNode, hLast⟩
      rcases run_inspect_eq_ok hNode with ⟨hAt, rfl⟩
      rw [owner?_of_get? (get?_of_node hAt)] at hParent
      simp only [hParent] at hLast
      cases hLast
      rfl
  | some parent =>
      rcases listed_of_run_replaceWith hRun hParent with
        ⟨hNe, hBound, owner, hOwner, hListed⟩
      rcases run_replaceWith hNe hBound hParent hOwner hListed
        with ⟨after', hRun', hEdited⟩
      rw [hRun] at hRun'
      cases hRun'
      exact Or.inr ⟨parent, owner, rfl, hOwner, hListed, hNe,
        hBound, hEdited⟩

/- A replacement is no change for nodes that it is not about. -/
theorem get?_of_run_replaceWith
    {before after : Tree}
    {old new n : NodeId}
    (hRun : replaceWith old new before = .ok () after)
    (hOld : n ≠ old)
    (hNew : n ≠ new)
    (hOwner : before.owner? old ≠ some n) :
    after.get? n = before.get? n := by
  rcases of_run_replaceWith hRun with
    ⟨_, rfl⟩ | ⟨parent, _, hParent, _, _, _, _, hEdited⟩
  · rfl
  · have hOther : n ≠ parent := by
      rintro rfl
      exact hOwner hParent
    have hSame (node : Node) :
        relink old new parent n node = node := by
      unfold relink
      simp only [if_neg hOther, if_neg hNew, if_neg hOld]
    rw [hEdited.get?, funext hSame, Option.map_id']

/- What the owner lists after a replacement. -/
theorem children_relink
    (old new parent : NodeId)
    (n : NodeId)
    (node : Node) :
    (relink old new parent n node).kind.children =
      if n = parent then
        node.kind.children.replace old new
      else
        node.kind.children := by
  unfold relink
  split
  · exact NodeKind.children_withChildren _
      List.length_replace
  · rfl

/- A node that is put into a place is listed there. -/
theorem keeps_replaceWith (old new : NodeId) :
    Keeps Linked (replaceWith old new) := by
  intro before _ after hRun hLinked
  rcases of_run_replaceWith hRun with
    ⟨_, rfl⟩ | ⟨parent, owner, hParent, hOwner, hListed, _,
      hBound, hEdited⟩
  · exact hLinked
  · have hChildren := children_relink old new parent parent owner
    rw [if_pos rfl] at hChildren
    apply hLinked.relisted hEdited hOwner hBound
    · intro n node hOther
      simp only [relink, if_neg hOther]
    · intro n hMem
      rw [hChildren] at hMem
      exact mem_of_mem_replace hMem
    · rw [hChildren]
      exact mem_replace new hListed
    · intro node
      simp only [relink, if_true]
    · intro n node other hOther hStill
      simp only [relink, if_neg hOther] at hStill
      by_cases hOld : n = old
      · rw [if_pos hOld] at hStill
        exact absurd hStill (by simp)
      · rw [if_neg hOld] at hStill
        refine ⟨hStill, fun hMem => ?_⟩
        rw [hChildren]
        exact mem_replace_of_ne new hMem hOld

/- What appending to a list does to each node. -/
def adopt
    (parent : NodeId)
    (slot : ListSlot)
    (child : NodeId)
    (id : NodeId)
    (node : Node) : Node :=
  { node with
    kind :=
      if id = parent then
        node.kind.append slot child
      else
        node.kind
    parent := if id = child then some parent else node.parent }

/- Only a free node is appended, to a list that is there. -/
theorem of_run_pushChild
    {before after : Tree}
    {parent child : NodeId}
    {slot : ListSlot}
    (hRun : pushChild parent slot child before =
      .ok () after) :
    child.raw < before.size ∧
      before.owner? child = none ∧
      ∃ owner,
        before.get? parent = some owner ∧
          (owner.kind.list? slot).isSome ∧
          Edited before after (adopt parent slot child) := by
  unfold pushChild at hRun
  rcases run_bind_eq_ok hRun with ⟨node, _, hNode, hReading⟩
  rcases run_inspect_eq_ok hNode with ⟨hAt, rfl⟩
  by_cases hOwned : node.parent.isSome
  · simp only [if_pos hOwned] at hReading
    exact absurd hReading (by nofun)
  simp only [if_neg hOwned] at hReading
  rcases run_bind_eq_ok hReading with
    ⟨owner, _, hOwner, hListing⟩
  rcases run_inspect_eq_ok hOwner with ⟨hOwnerAt, rfl⟩
  have hStored := get?_of_node hOwnerAt
  by_cases hSlot : (owner.kind.list? slot).isNone
  · simp only [if_pos hSlot] at hListing
    exact absurd hListing (by nofun)
  simp only [if_neg hSlot] at hListing
  rcases run_bind_eq_ok hListing with ⟨_, listed, hList, hLast⟩
  rcases edited_of_run_modifyNode hList with ⟨_, hListed⟩
  rcases edited_of_run_modifyNode hLast with ⟨hBound, hOwn⟩
  rw [hListed.size] at hBound
  refine ⟨hBound, ?_, owner, hStored, ?_, ?_⟩
  · rw [owner?_of_get? (get?_of_node hAt)]
    exact Option.not_isSome_iff_eq_none.mp hOwned
  · exact Option.isSome_iff_ne_none.mpr fun hNone =>
      hSlot (Option.isNone_iff_eq_none.mpr hNone)
  · apply (hListed.trans hOwn).congr
    intro n found hFound
    unfold adopt
    by_cases hEq : n = parent
    · rw [hEq, hStored] at hFound
      cases hFound
      simp only [if_pos hEq]
      split <;> rfl
    · simp only [if_neg hEq]
      split <;> rfl

/- What is appended to a list is listed with what was there. -/
theorem keeps_pushChild
    (parent : NodeId)
    (slot : ListSlot)
    (child : NodeId) :
    Keeps Linked (pushChild parent slot child) := by
  intro before _ after hRun hLinked
  rcases of_run_pushChild hRun with
    ⟨hBound, _, owner, hStored, hSlot, hEdited⟩
  have hMem (item : NodeId) :
      item ∈ (adopt parent slot child parent owner).kind.children ↔
        item ∈ owner.kind.children ∨ item = child := by
    unfold adopt
    simp only [if_true]
    exact owner.kind.mem_children_append slot child item hSlot
  apply hLinked.relisted hEdited hStored hBound
  · intro n node hOther
    simp only [adopt, if_neg hOther]
  · intro n hIn
    exact (hMem n).mp hIn
  · exact (hMem child).mpr (Or.inr rfl)
  · intro n
    simp only [adopt, if_true]
  · intro n node other hOther hStill
    simp only [adopt, if_neg hOther] at hStill
    exact ⟨hStill, fun hOld => (hMem n).mpr (Or.inl hOld)⟩

/- Each edit keeps a tree linked. -/
theorem Linked.edit
    {before after : Tree}
    {edit : Edit}
    (hLinked : before.Linked)
    (hRun : edit.perform before = .ok () after) :
    after.Linked := by
  cases edit with
  | alloc kind ty element =>
      exact Keeps.discard (keeps_alloc kind ty element) _ _ _
        hRun hLinked
  | setType id ty =>
      exact keeps_setType id ty _ _ _ hRun hLinked
  | setElement id element =>
      exact keeps_setElement id element _ _ _ hRun hLinked
  | setRetained id =>
      exact Keeps.discard (keeps_setRetained id) _ _ _
        hRun hLinked
  | pushChild parent slot child =>
      exact keeps_pushChild parent slot child _ _ _
        hRun hLinked
  | take id =>
      exact Keeps.discard (keeps_take id) _ _ _ hRun hLinked
  | replaceWith old new =>
      exact keeps_replaceWith old new _ _ _ hRun hLinked
  | deepCopy id =>
      exact Keeps.discard (keeps_deepCopy id) _ _ _
        hRun hLinked

/- All trees that are built are linked. -/
theorem Reached.linked
    {tree : Tree}
    (hReached : Reached tree) :
    tree.Linked := by
  induction hReached with
  | empty => exact Linked.empty
  | edit _ edit hRun ih => exact ih.edit hRun

end Tree

end Lowering
