import Mathlib.Data.List.Nodup
import Mathlib.Data.List.Perm.Subperm
import Lowering.Proofs.Tree.Arena

/-
  This file defines what a subtree is when its place in the
  store is left out, and when a store holds it.

  The view of a node is an ordered tree of labels. A placed
  tree is a view in which each node still has its handle; the
  store holds a placed tree when each of its nodes is stored
  with its label, lists the handles of its children, and owns
  them. It shows a placed tree, in which a place may then occur
  more than once, if all this holds but for the owners.

  Key definitions include:
    * `Label`
    * `View`
    * `Placed`
    * `Placed.ids`
    * `Placed.view`
    * `Placed.height`
    * `Tree.Holds`
    * `Tree.Shows`

  Main results:
    * `Tree.Holds.frame`
    * `Tree.Holds.relabel`
    * `Tree.Holds.length_ids_le`
-/

namespace Lowering

------------------------------------------------------------
-- Labels And Views
------------------------------------------------------------

/- What a node is beside its children and its owner. -/
structure Label where
  shape : NodeKind Unit
  ty : Option TypeId := none
  element : Option ElementId := none
  deriving DecidableEq, Inhabited, Repr

/- The label of a node. -/
def Node.label (node : Node) : Label :=
  ⟨node.kind.shape, node.ty, node.element⟩

/- A node is what its label, its children and its owner tell. -/
theorem Node.eq_of_label
    {first second : Node}
    (hLabel : first.label = second.label)
    (hChildren : first.kind.children = second.kind.children)
    (hParent : first.parent = second.parent) :
    first = second := by
  rcases first with ⟨kind, ty, element, parent⟩
  rcases second with ⟨kind', ty', element', parent'⟩
  rw [Node.label, Node.label, Label.mk.injEq] at hLabel
  rcases hLabel with ⟨hShape, rfl, rfl⟩
  cases NodeKind.eq_of_shape hShape hChildren
  cases hParent
  rfl

/- A subtree without its places in the store. -/
inductive View
  | node (label : Label) (children : List View)

namespace View

/- The label of the root. -/
def label : View → Label
  | node label _ => label

/- The views of the children of the root. -/
def children : View → List View
  | node _ children => children

/- The static type of the root. -/
def ty (view : View) : Option TypeId :=
  view.label.ty

end View

------------------------------------------------------------
-- Placed Trees
------------------------------------------------------------

/- A subtree with its places in the store. -/
inductive Placed
  | node (id : NodeId) (label : Label) (children : List Placed)

namespace Placed

/- The place of the root. -/
def id : Placed → NodeId
  | node id _ _ => id

/- The label of the root. -/
def label : Placed → Label
  | node _ label _ => label

/- The subtrees below the root. -/
def children : Placed → List Placed
  | node _ _ children => children

mutual

/- The places of a subtree, the root first. -/
def ids : Placed → List NodeId
  | node id _ children => id :: idsAll children

/- The places of some subtrees, one subtree after the other. -/
def idsAll : List Placed → List NodeId
  | [] => []
  | first :: rest => first.ids ++ idsAll rest

end

mutual

/- What is left of a subtree without its places. -/
def view : Placed → View
  | node _ label children => .node label (viewAll children)

/- What is left of some subtrees without their places. -/
def viewAll : List Placed → List View
  | [] => []
  | first :: rest => first.view :: viewAll rest

end

/- Subtrees are built from the leaves on. -/
@[elab_as_elim, induction_eliminator]
theorem induct
    {motive : Placed → Prop}
    (node : ∀ id label children,
      (∀ child ∈ children, motive child) →
        motive (.node id label children))
    (tree : Placed) : motive tree := by
  refine @Placed.rec motive
    (fun children => ∀ child ∈ children, motive child)
    ?_ ?_ ?_ tree
  · intro id label children ih
    exact node id label children ih
  · intro child hChild
    exact absurd hChild List.not_mem_nil
  · intro first rest hFirst hRest child hChild
    rcases List.mem_cons.mp hChild with hEq | hMem
    · rw [hEq]
      exact hFirst
    · exact hRest child hMem

------------------------------------------------------------
-- Places
------------------------------------------------------------

@[simp] theorem id_node
    (id : NodeId) (label : Label) (children : List Placed) :
    (node id label children).id = id := rfl

@[simp] theorem label_node
    (id : NodeId) (label : Label) (children : List Placed) :
    (node id label children).label = label := rfl

@[simp] theorem children_node
    (id : NodeId) (label : Label) (children : List Placed) :
    (node id label children).children = children := rfl

@[simp] theorem ids_node
    (id : NodeId) (label : Label) (children : List Placed) :
    (node id label children).ids = id :: idsAll children := by
  rw [ids]

@[simp] theorem idsAll_nil : idsAll [] = [] := by
  rw [idsAll]

@[simp] theorem idsAll_cons
    (first : Placed) (rest : List Placed) :
    idsAll (first :: rest) = first.ids ++ idsAll rest := by
  rw [idsAll]

@[simp] theorem idsAll_append
    (front back : List Placed) :
    idsAll (front ++ back) = idsAll front ++ idsAll back := by
  induction front with
  | nil => simp
  | cons first front ih => simp [ih]

theorem mem_idsAll
    {trees : List Placed}
    {n : NodeId} :
    n ∈ idsAll trees ↔ ∃ tree ∈ trees, n ∈ tree.ids := by
  induction trees with
  | nil => simp
  | cons first trees ih => simp [ih]

theorem id_mem_ids (tree : Placed) : tree.id ∈ tree.ids := by
  cases tree
  simp

theorem ids_subset_idsAll
    {trees : List Placed}
    {tree : Placed}
    (hMem : tree ∈ trees) :
    tree.ids ⊆ idsAll trees := by
  intro n hId
  exact mem_idsAll.mpr ⟨tree, hMem, hId⟩

theorem id_mem_idsAll
    {trees : List Placed}
    {tree : Placed}
    (hMem : tree ∈ trees) :
    tree.id ∈ idsAll trees :=
  ids_subset_idsAll hMem tree.id_mem_ids

theorem ids_child_subset
    {id : NodeId}
    {label : Label}
    {children : List Placed}
    {child : Placed}
    (hMem : child ∈ children) :
    child.ids ⊆ (node id label children).ids := by
  intro n hId
  rw [ids_node]
  exact List.mem_cons_of_mem _ (ids_subset_idsAll hMem hId)

/- The roots of disjoint subtrees are different. -/
theorem nodup_map_id
    {trees : List Placed}
    (hNodup : (idsAll trees).Nodup) :
    (trees.map id).Nodup := by
  induction trees with
  | nil => exact List.nodup_nil
  | cons first trees ih =>
      rw [idsAll_cons, List.nodup_append] at hNodup
      rcases hNodup with ⟨_, hRest, hApart⟩
      rw [List.map_cons, List.nodup_cons]
      refine ⟨?_, ih hRest⟩
      intro hMem
      rcases List.mem_map.mp hMem with ⟨other, hOther, hEq⟩
      exact hApart first.id first.id_mem_ids other.id
        (id_mem_idsAll hOther) hEq.symm

theorem nodup_ids_of_mem
    {trees : List Placed}
    {tree : Placed}
    (hNodup : (idsAll trees).Nodup)
    (hMem : tree ∈ trees) :
    tree.ids.Nodup := by
  induction trees with
  | nil => exact absurd hMem List.not_mem_nil
  | cons first trees ih =>
      rw [idsAll_cons, List.nodup_append] at hNodup
      rcases List.mem_cons.mp hMem with hEq | hRest
      · rw [hEq]
        exact hNodup.1
      · exact ih hNodup.2.1 hRest

/- A place that is a root lies in no other of the subtrees. -/
theorem eq_of_id_mem_ids
    {trees : List Placed}
    {tree other : Placed}
    (hNodup : (idsAll trees).Nodup)
    (hMem : tree ∈ trees)
    (hOther : other ∈ trees)
    (hIn : other.id ∈ tree.ids) :
    other = tree := by
  induction trees with
  | nil => exact absurd hMem List.not_mem_nil
  | cons first trees ih =>
      rw [idsAll_cons, List.nodup_append] at hNodup
      rcases hNodup with ⟨_, hRest, hApart⟩
      rcases List.mem_cons.mp hMem with hEq | hMem <;>
        rcases List.mem_cons.mp hOther with hEq' | hOther
      · rw [hEq, hEq']
      · rw [hEq] at hIn
        exact absurd rfl
          (hApart _ hIn _ (id_mem_idsAll hOther))
      · rw [← hEq'] at hApart
        exact absurd rfl
          (hApart _ other.id_mem_ids _
            (ids_subset_idsAll hMem hIn))
      · exact ih hRest hMem hOther

theorem length_ids_le_of_mem
    {trees : List Placed}
    {tree : Placed}
    (hMem : tree ∈ trees) :
    tree.ids.length ≤ (idsAll trees).length := by
  induction trees with
  | nil => exact absurd hMem List.not_mem_nil
  | cons first trees ih =>
      rw [idsAll_cons, List.length_append]
      rcases List.mem_cons.mp hMem with hEq | hMem
      · rw [hEq]
        exact Nat.le_add_right _ _
      · exact Nat.le_trans (ih hMem) (Nat.le_add_left _ _)

/- Two subtrees below a node that lists two children. -/
theorem pair_of_map_id
    {trees : List Placed}
    {first second : NodeId}
    (hListed : [first, second] = trees.map (·.id)) :
    ∃ one two,
      trees = [one, two] ∧
        one.id = first ∧ two.id = second := by
  rcases trees with _ | ⟨one, _ | ⟨two, _ | ⟨three, rest⟩⟩⟩
  · simp at hListed
  · simp at hListed
  · simp only [List.map_cons, List.map_nil, List.cons.injEq,
      and_true] at hListed
    exact ⟨one, two, rfl, hListed.1.symm, hListed.2.symm⟩
  · simp at hListed

/- Trees for each of some roots. -/
theorem exists_trees
    {property : Placed → Prop}
    (items : List NodeId)
    (hEach : ∀ item ∈ items, ∃ placed : Placed,
      placed.id = item ∧ property placed) :
    ∃ trees : List Placed,
      items = trees.map (·.id) ∧
        ∀ placed ∈ trees, property placed := by
  induction items with
  | nil => exact ⟨[], rfl, by simp⟩
  | cons item items ih =>
      rcases hEach item (by simp) with ⟨first, rfl, hFirst⟩
      rcases ih fun other hMem => hEach other (by simp [hMem])
        with ⟨rest, hRest, hAll⟩
      refine ⟨first :: rest, ?_, ?_⟩
      · rw [List.map_cons, hRest]
      · intro placed hMem
        rcases List.mem_cons.mp hMem with rfl | hMem
        · exact hFirst
        · exact hAll placed hMem

theorem perm_idsAll
    {trees others : List Placed}
    (hPerm : trees.Perm others) :
    (idsAll trees).Perm (idsAll others) := by
  induction hPerm with
  | nil => exact List.Perm.refl _
  | cons tree _ ih =>
      rw [idsAll_cons, idsAll_cons]
      exact ih.append_left tree.ids
  | swap tree other trees =>
      simp only [idsAll_cons, ← List.append_assoc]
      exact List.perm_append_comm.append_right _
  | trans _ _ ihFirst ihSecond => exact ihFirst.trans ihSecond

/- The places of a node are those of a child and the others. -/
theorem perm_ids_child
    (id : NodeId)
    (label : Label)
    (front back : List Placed)
    (child : Placed) :
    (node id label (front ++ child :: back)).ids.Perm
      (child.ids ++ id :: idsAll (front ++ back)) := by
  have hChildren : (idsAll (front ++ child :: back)).Perm
      (child.ids ++ idsAll (front ++ back)) :=
    perm_idsAll List.perm_middle
  rw [ids_node]
  exact (hChildren.cons id).trans List.perm_middle.symm

------------------------------------------------------------
-- Views Of Placed Trees
------------------------------------------------------------

@[simp] theorem view_node
    (id : NodeId) (label : Label) (children : List Placed) :
    (node id label children).view =
      .node label (children.map view) := by
  have hAll : ∀ trees, viewAll trees = trees.map view := by
    intro trees
    induction trees with
    | nil => rw [viewAll, List.map_nil]
    | cons first trees ih => rw [viewAll, ih, List.map_cons]
  rw [view, hAll]

@[simp] theorem label_view (tree : Placed) :
    tree.view.label = tree.label := by
  cases tree
  simp [View.label]

@[simp] theorem ty_view (tree : Placed) :
    tree.view.ty = tree.label.ty := by
  simp [View.ty]

/- A view tells how many places there are. -/
theorem length_ids_of_view
    {tree other : Placed}
    (hView : tree.view = other.view) :
    tree.ids.length = other.ids.length := by
  induction tree generalizing other with
  | node id label children ih =>
      rcases other with ⟨id', label', children'⟩
      have hAll : ∀ trees others, trees ⊆ children →
          trees.map view = others.map view →
            (idsAll trees).length = (idsAll others).length := by
        intro trees others hSubset hViews
        induction trees generalizing others with
        | nil =>
            rw [List.map_nil, eq_comm, List.map_eq_nil_iff]
              at hViews
            rw [hViews]
        | cons first trees ihTrees =>
            rw [List.map_cons, eq_comm, List.map_eq_cons_iff]
              at hViews
            rcases hViews with
              ⟨first', others', hOthers, hFirst, hRest⟩
            have hHead := ih first (hSubset List.mem_cons_self)
              hFirst.symm
            have hTail := ihTrees others'
              (fun child hMem =>
                hSubset (List.mem_cons_of_mem _ hMem))
              hRest.symm
            rw [hOthers, idsAll_cons, idsAll_cons,
              List.length_append, List.length_append]
            omega
      rw [view_node, view_node, View.node.injEq] at hView
      rw [ids_node, ids_node, List.length_cons,
        List.length_cons,
        hAll children children' (List.Subset.refl _) hView.2]

/- Different places are different numbers. -/
private theorem nodup_map_raw
    {tree : Placed}
    (hNodup : tree.ids.Nodup) :
    (tree.ids.map (·.raw)).Nodup := by
  refine List.Nodup.map ?_ hNodup
  intro a b hEq
  cases a
  cases b
  exact congrArg NodeId.mk hEq

/- There are no more places than there are smaller handles. -/
theorem length_ids_le
    {tree : Placed}
    {bound : Nat}
    (hNodup : tree.ids.Nodup)
    (hBound : ∀ n ∈ tree.ids, n.raw < bound) :
    tree.ids.length ≤ bound := by
  have hSubset : tree.ids.map (·.raw) ⊆ List.range bound := by
    intro raw hMem
    rcases List.mem_map.mp hMem with ⟨n, hId, rfl⟩
    exact List.mem_range.mpr (hBound n hId)
  have hLength :=
    ((nodup_map_raw hNodup).subperm hSubset).length_le
  rw [List.length_map, List.length_range] at hLength
  exact hLength

/- As many places as there are handles in a range are all. -/
theorem mem_ids_of_length
    {tree : Placed}
    {base : Nat}
    {n : NodeId}
    (hNodup : tree.ids.Nodup)
    (hBounds : ∀ m ∈ tree.ids,
      base ≤ m.raw ∧ m.raw < base + tree.ids.length)
    (hBase : base ≤ n.raw)
    (hBound : n.raw < base + tree.ids.length) :
    n ∈ tree.ids := by
  have hSubset : tree.ids.map (·.raw) ⊆
      List.range' base tree.ids.length := by
    intro raw hMem
    rcases List.mem_map.mp hMem with ⟨m, hId, rfl⟩
    rw [List.mem_range'_1]
    exact hBounds m hId
  have hPerm :=
    ((nodup_map_raw hNodup).subperm hSubset).perm_of_length_le
      (by simp)
  have hMem : n.raw ∈ tree.ids.map (·.raw) := by
    rw [hPerm.mem_iff, List.mem_range'_1]
    exact ⟨hBase, hBound⟩
  rcases List.mem_map.mp hMem with ⟨m, hId, hRaw⟩
  rcases m with ⟨raw⟩
  rcases n with ⟨raw'⟩
  rw [← show raw = raw' from hRaw]
  exact hId

end Placed

------------------------------------------------------------
-- Heights
------------------------------------------------------------

namespace Placed

mutual

/- How many places there are from the root to a lowest leaf. -/
def height : Placed → Nat
  | node _ _ children => heightAll children + 1

/- The height of the highest of some subtrees. -/
def heightAll : List Placed → Nat
  | [] => 0
  | first :: rest => max first.height (heightAll rest)

end

@[simp] theorem height_node
    (id : NodeId) (label : Label) (children : List Placed) :
    (node id label children).height =
      heightAll children + 1 := by
  rw [height]

@[simp] theorem heightAll_nil : heightAll [] = 0 := by
  rw [heightAll]

@[simp] theorem heightAll_cons
    (first : Placed) (rest : List Placed) :
    heightAll (first :: rest) =
      max first.height (heightAll rest) := by
  rw [heightAll]

/- Some subtrees are as high as one of them, and no higher. -/
theorem heightAll_le_iff
    {trees : List Placed}
    {bound : Nat} :
    heightAll trees ≤ bound ↔
      ∀ tree ∈ trees, tree.height ≤ bound := by
  induction trees with
  | nil => simp
  | cons first trees ih =>
      rw [heightAll_cons, Nat.max_le, ih, List.forall_mem_cons]

theorem height_le_of_mem
    {trees : List Placed}
    {tree : Placed}
    (hMem : tree ∈ trees) :
    tree.height ≤ heightAll trees :=
  heightAll_le_iff.mp (Nat.le_refl _) tree hMem

/- A tree is no higher than it has places. -/
theorem height_le_length_ids (tree : Placed) :
    tree.height ≤ tree.ids.length := by
  induction tree with
  | node id label children ih =>
      rw [height_node, ids_node, List.length_cons]
      apply Nat.succ_le_succ
      rw [heightAll_le_iff]
      intro child hMem
      exact Nat.le_trans (ih child hMem)
        (length_ids_le_of_mem hMem)

end Placed

------------------------------------------------------------
-- Holding
------------------------------------------------------------

namespace Tree

/- The store holds a placed tree; its root may have any owner. -/
inductive Holds (tree : Tree) : Placed → Prop
  | node
      {id : NodeId}
      {label : Label}
      {children : List Placed}
      {stored : Node}
      (stored_at : tree.get? id = some stored)
      (labelled : stored.label = label)
      (listed : stored.kind.children = children.map (·.id))
      (owned : ∀ child ∈ children,
        tree.owner? child.id = some id)
      (below : ∀ child ∈ children, Holds tree child) :
      Holds tree (.node id label children)

/- The node that stores the root of a held tree. -/
theorem Holds.stored
    {tree : Tree}
    {placed : Placed}
    (hHolds : tree.Holds placed) :
    ∃ stored,
      tree.get? placed.id = some stored ∧
        stored.label = placed.label ∧
        stored.kind.children = placed.children.map (·.id) := by
  cases hHolds with
  | node hAt hLabel hListed _ _ =>
      exact ⟨_, hAt, hLabel, hListed⟩

theorem Holds.of_get?
    {tree : Tree}
    {placed : Placed}
    {node : Node}
    (hHolds : tree.Holds placed)
    (hNode : tree.get? placed.id = some node) :
    node.label = placed.label ∧
      node.kind.children = placed.children.map (·.id) := by
  rcases hHolds.stored with ⟨stored, hStored, hRest⟩
  rw [hNode] at hStored
  cases hStored
  exact hRest

/- Below a node that lists two children are two subtrees. -/
theorem Holds.pair
    {tree : Tree}
    {id first second : NodeId}
    {label : Label}
    {children : List Placed}
    {node : Node}
    (hHolds : tree.Holds (.node id label children))
    (hNode : tree.get? id = some node)
    (hListed : node.kind.children = [first, second]) :
    ∃ one two,
      children = [one, two] ∧
        one.id = first ∧ two.id = second := by
  apply Placed.pair_of_map_id
  rw [← hListed]
  exact (hHolds.of_get? hNode).2

/- A node of a kind with two children, and what is below it. -/
theorem Holds.exists_pair
    {tree : Tree}
    {id : NodeId}
    {label : Label}
    {children : List Placed}
    {kind : NodeId → NodeId → NodeKind NodeId}
    (hHolds : tree.Holds (.node id label children))
    (hKind : ∀ found : NodeKind NodeId,
      found.shape = label.shape →
        ∃ first second, found = kind first second)
    (hListed : ∀ first second,
      (kind first second).children = [first, second]) :
    ∃ node first second,
      tree.get? id = some node ∧
        node.label = label ∧
        node.kind = kind first.id second.id ∧
        children = [first, second] := by
  rcases hHolds.stored with ⟨node, hNode, hLabel, _⟩
  rcases hKind node.kind (congrArg Label.shape hLabel) with
    ⟨first, second, hIs⟩
  rcases hHolds.pair hNode (by rw [hIs, hListed]) with
    ⟨one, two, hChildren, rfl, rfl⟩
  exact ⟨node, one, two, hNode, hLabel, hIs, hChildren⟩

theorem Holds.tag
    {tree : Tree}
    {placed : Placed}
    (hHolds : tree.Holds placed) :
    tree.tag placed.id = .ok placed.label.shape.tag := by
  rcases hHolds.stored with ⟨stored, hStored, hLabel, _⟩
  unfold Tree.tag
  rw [node_eq_ok hStored, ← hLabel]
  exact congrArg Except.ok (NodeKind.tag_shape _).symm

theorem Holds.children
    {tree : Tree}
    {placed : Placed}
    (hHolds : tree.Holds placed) :
    tree.children placed.id =
      .ok (placed.children.map (·.id)) := by
  rcases hHolds.stored with ⟨stored, hStored, _, hListed⟩
  rw [children_eq_ok hStored, hListed]

theorem Holds.child
    {tree : Tree}
    {id : NodeId}
    {label : Label}
    {children : List Placed}
    {child : Placed}
    (hHolds : tree.Holds (.node id label children))
    (hMem : child ∈ children) :
    tree.Holds child := by
  cases hHolds with
  | node _ _ _ _ hBelow => exact hBelow child hMem

theorem Holds.owner?_child
    {tree : Tree}
    {id : NodeId}
    {label : Label}
    {children : List Placed}
    {child : Placed}
    (hHolds : tree.Holds (.node id label children))
    (hMem : child ∈ children) :
    tree.owner? child.id = some id := by
  cases hHolds with
  | node _ _ _ hOwned _ => exact hOwned child hMem

/- The places of a held tree are places of the store. -/
theorem Holds.lt_size
    {tree : Tree}
    {placed : Placed}
    (hHolds : tree.Holds placed) :
    ∀ n ∈ placed.ids, n.raw < tree.size := by
  induction hHolds with
  | node hAt _ _ _ _ ih =>
      intro n hMem
      rw [Placed.ids_node] at hMem
      rcases List.mem_cons.mp hMem with hEq | hBelow
      · rw [hEq]
        exact lt_size_of_get? hAt
      · rcases Placed.mem_idsAll.mp hBelow with
          ⟨child, hChild, hId⟩
        exact ih child hChild n hId

theorem Holds.id_lt_size
    {tree : Tree}
    {placed : Placed}
    (hHolds : tree.Holds placed) :
    placed.id.raw < tree.size :=
  hHolds.lt_size placed.id placed.id_mem_ids

/- A store holds on to what is not changed in it. -/
theorem Holds.frame
    {before after : Tree}
    {placed : Placed}
    (hHolds : before.Holds placed)
    (hSame : ∀ n ∈ placed.ids,
      after.get? n = before.get? n) :
    after.Holds placed := by
  induction hHolds with
  | @node id label children stored hAt hLabel hListed
      hOwned hBelow ih =>
      have hAt' : after.get? id = some stored := by
        rw [hSame id (by simp), hAt]
      have hChild : ∀ child ∈ children, ∀ n ∈ child.ids,
          after.get? n = before.get? n := by
        intro child hMem n hId
        exact hSame n (Placed.ids_child_subset hMem hId)
      refine .node hAt' hLabel hListed ?_ ?_
      · intro child hMem
        rw [owner?, hChild child hMem _ child.id_mem_ids]
        exact hOwned child hMem
      · intro child hMem
        exact ih child hMem (hChild child hMem)

/-
  If only the root of a held tree is changed, and still lists
  the same children, then the tree is held with the new label.
-/
theorem Holds.relabel
    {before after : Tree}
    {id : NodeId}
    {label : Label}
    {children : List Placed}
    {stored : Node}
    (hHolds : before.Holds (.node id label children))
    (hAt : after.get? id = some stored)
    (hListed : stored.kind.children = children.map (·.id))
    (hSame : ∀ n ∈ Placed.idsAll children,
      after.get? n = before.get? n) :
    after.Holds (.node id stored.label children) := by
  refine .node hAt rfl hListed ?_ ?_
  · intro child hMem
    rw [owner?, hSame _ (Placed.id_mem_idsAll hMem)]
    exact hHolds.owner?_child hMem
  · intro child hMem
    apply (hHolds.child hMem).frame
    intro n hId
    exact hSame n (Placed.ids_subset_idsAll hMem hId)

/- A change of owner at the root leaves a tree held. -/
theorem Holds.reown
    {before after : Tree}
    {placed : Placed}
    (owner : Option NodeId)
    (hHolds : before.Holds placed)
    (hNodup : placed.ids.Nodup)
    (hRoot : after.get? placed.id =
      (before.get? placed.id).map ({ · with parent := owner }))
    (hSame : ∀ n ∈ placed.ids, n ≠ placed.id →
      after.get? n = before.get? n) :
    after.Holds placed := by
  rcases hHolds.stored with ⟨stored, hAt, hLabel, hListed⟩
  cases placed with
  | node id label children =>
      rw [Placed.ids_node, List.nodup_cons] at hNodup
      rw [hAt, Option.map_some] at hRoot
      have hHeld := hHolds.relabel hRoot hListed (by
        intro n hMem
        apply hSame n (by simp [hMem])
        intro hEq
        rw [hEq] at hMem
        exact hNodup.1 hMem)
      have hLabel' :
          Node.label { stored with parent := owner } =
            label := hLabel
      rw [hLabel'] at hHeld
      exact hHeld

/- A tree has no more places than the store has nodes. -/
theorem Holds.length_ids_le
    {tree : Tree}
    {placed : Placed}
    (hHolds : tree.Holds placed)
    (hNodup : placed.ids.Nodup) :
    placed.ids.length ≤ tree.size :=
  Placed.length_ids_le hNodup hHolds.lt_size

/- A tree is no higher than the store has nodes. -/
theorem Holds.height_le
    {tree : Tree}
    {placed : Placed}
    (hHolds : tree.Holds placed)
    (hNodup : placed.ids.Nodup) :
    placed.height ≤ tree.size :=
  Nat.le_trans placed.height_le_length_ids
    (hHolds.length_ids_le hNodup)

------------------------------------------------------------
-- Showing
------------------------------------------------------------

section Showing

variable {tree : Tree}

/- A tree shows a placed tree, whoever owns its nodes. -/
inductive Shows (tree : Tree) : Placed → Prop
  | node
      {id : NodeId}
      {label : Label}
      {children : List Placed}
      {stored : Node}
      (stored_at : tree.get? id = some stored)
      (labelled : stored.label = label)
      (listed : stored.kind.children = children.map (·.id))
      (below : ∀ child ∈ children, Shows tree child) :
      Shows tree (.node id label children)

theorem Holds.shows
    {placed : Placed}
    (hHolds : tree.Holds placed) :
    tree.Shows placed := by
  induction hHolds with
  | node hAt hLabel hListed _ _ ih =>
      exact .node hAt hLabel hListed ih

/- The places of a tree that is shown are places of the store. -/
theorem Shows.lt_size
    {placed : Placed}
    (hShows : tree.Shows placed) :
    ∀ n ∈ placed.ids, n.raw < tree.size := by
  induction hShows with
  | node hAt _ _ _ ih =>
      intro n hMem
      rw [Placed.ids_node] at hMem
      rcases List.mem_cons.mp hMem with hEq | hBelow
      · rw [hEq]
        exact lt_size_of_get? hAt
      · rcases Placed.mem_idsAll.mp hBelow with
          ⟨child, hChild, hId⟩
        exact ih child hChild n hId

end Showing

end Tree

end Lowering
