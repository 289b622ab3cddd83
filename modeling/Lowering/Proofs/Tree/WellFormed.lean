import Mathlib.Data.Fintype.Card
import Mathlib.Data.Fintype.EquivFin
import Lowering.Proofs.Tree.Reached

/-
  This file defines when a tree is well formed under a root, in
  terms of the slots of its nodes, and proves that it then
  holds exactly one placed tree with that root, in which no
  place occurs twice.

  Below a root, slots lead to nodes that are there and never
  back to where they came from, a node in a slot is owned by
  the node whose slot it is, and no node is in two slots.

  Key definitions include:
    * `Tree.Occupies`
    * `Tree.Below`
    * `Tree.WellFormed`
    * `Tree.view?`

  Main results:
    * `Tree.WellFormed.exists_placed`
    * `Tree.Holds.wellFormed`
    * `Tree.Holds.view?_eq`
    * `Tree.WellFormed.standing`
-/

namespace Lowering

namespace Tree

variable {tree : Tree}
variable {root : NodeId}

------------------------------------------------------------
-- Well-Formed Trees
------------------------------------------------------------

/- A slot of a node, counted in order, and what is in it. -/
def Occupies
    (tree : Tree)
    (owner : NodeId)
    (slot : Nat)
    (child : NodeId) : Prop :=
  ∃ stored,
    tree.get? owner = some stored ∧
      stored.kind.children[slot]? = some child

/- A node has another in one of its slots. -/
def Lists (tree : Tree) (owner child : NodeId) : Prop :=
  ∃ slot, tree.Occupies owner slot child

/- What is reached from a root through slots. -/
def Below (tree : Tree) (root n : NodeId) : Prop :=
  Relation.ReflTransGen tree.Lists root n

/- A tree is a tree, as far as it is reached from a root. -/
structure WellFormed (tree : Tree) (root : NodeId) : Prop where
  present : ∀ n, tree.Below root n → (tree.get? n).isSome
  acyclic : ∀ n, tree.Below root n →
    ¬ Relation.TransGen tree.Lists n n
  owned : ∀ owner child, tree.Below root owner →
    tree.Lists owner child → tree.owner? child = some owner
  once : ∀ owner owner' slot slot' child,
    tree.Below root owner → tree.Below root owner' →
      tree.Occupies owner slot child →
        tree.Occupies owner' slot' child →
          owner = owner' ∧ slot = slot'

theorem lists_iff
    {owner child : NodeId}
    {stored : Node}
    (hAt : tree.get? owner = some stored) :
    tree.Lists owner child ↔ child ∈ stored.kind.children := by
  constructor
  · rintro ⟨slot, found, hFound, hSlot⟩
    rw [hAt] at hFound
    cases hFound
    exact List.mem_of_getElem? hSlot
  · intro hMem
    rcases List.mem_iff_getElem?.mp hMem with ⟨slot, hSlot⟩
    exact ⟨slot, stored, hAt, hSlot⟩

------------------------------------------------------------
-- Placed Trees Are Well Formed
------------------------------------------------------------

/- Each place of a held tree is the root of a held tree. -/
theorem Holds.sub
    {placed : Placed}
    {n : NodeId}
    (hHolds : tree.Holds placed)
    (hMem : n ∈ placed.ids) :
    ∃ label children,
      tree.Holds (.node n label children) ∧
        (Placed.node n label children).ids ⊆ placed.ids ∧
        (placed.ids.Nodup →
          (Placed.node n label children).ids.Nodup) := by
  induction placed with
  | node id label children ih =>
      rw [Placed.ids_node] at hMem
      rcases List.mem_cons.mp hMem with rfl | hBelow
      · exact ⟨label, children, hHolds, List.Subset.refl _,
          fun hNodup => hNodup⟩
      · rcases Placed.mem_idsAll.mp hBelow with
          ⟨child, hChild, hIn⟩
        rcases ih child hChild (hHolds.child hChild) hIn with
          ⟨label', children', hSub, hSubset, hNodup⟩
        refine ⟨label', children', hSub, ?_, ?_⟩
        · exact List.Subset.trans hSubset
            (Placed.ids_child_subset hChild)
        · intro hAll
          rw [Placed.ids_node, List.nodup_cons] at hAll
          exact hNodup
            (Placed.nodup_ids_of_mem hAll.2 hChild)

/- The slots of the root of a held tree. -/
theorem Holds.occupies_iff
    {id child : NodeId}
    {label : Label}
    {children : List Placed}
    {slot : Nat}
    (hHolds : tree.Holds (.node id label children)) :
    tree.Occupies id slot child ↔
      (children.map (·.id))[slot]? = some child := by
  rcases hHolds.stored with ⟨stored, hAt, _, hListed⟩
  rw [Placed.id_node] at hAt
  rw [Placed.children_node] at hListed
  rw [← hListed]
  constructor
  · rintro ⟨found, hFound, hSlot⟩
    rw [hAt] at hFound
    cases hFound
    exact hSlot
  · intro hSlot
    exact ⟨stored, hAt, hSlot⟩

/- The root of a held tree lists the roots below it. -/
theorem Holds.lists_iff
    {id child : NodeId}
    {label : Label}
    {children : List Placed}
    (hHolds : tree.Holds (.node id label children)) :
    tree.Lists id child ↔ ∃ below ∈ children,
      below.id = child := by
  unfold Lists
  simp only [hHolds.occupies_iff]
  rw [← List.mem_iff_getElem?]
  exact List.mem_map

/- What a place of what is shown lists is a place of it too. -/
theorem Shows.mem_of_lists
    {placed : Placed}
    {n child : NodeId}
    (hShows : tree.Shows placed)
    (hMem : n ∈ placed.ids)
    (hLists : tree.Lists n child) :
    child ∈ placed.ids := by
  induction hShows with
  | @node id label children stored hAt _ hListed _ ih =>
      rw [Placed.ids_node] at hMem
      rcases List.mem_cons.mp hMem with hEq | hIn
      · rw [hEq, Tree.lists_iff hAt, hListed] at hLists
        rcases List.mem_map.mp hLists with ⟨below, hBelow, hId⟩
        rw [← hId]
        exact Placed.ids_child_subset hBelow below.id_mem_ids
      · rcases Placed.mem_idsAll.mp hIn with
          ⟨below, hBelow, hIn⟩
        exact Placed.ids_child_subset hBelow
          (ih below hBelow hIn)

/- What is below the root of what is shown are its places. -/
theorem Shows.below_iff
    {placed : Placed}
    {n : NodeId}
    (hShows : tree.Shows placed) :
    tree.Below placed.id n ↔ n ∈ placed.ids := by
  constructor
  · intro hBelow
    induction hBelow with
    | refl => exact placed.id_mem_ids
    | tail _ hLists ih => exact hShows.mem_of_lists ih hLists
  · intro hMem
    induction hShows with
    | @node id label children stored hAt _ hListed _ ih =>
        rw [Placed.ids_node] at hMem
        rcases List.mem_cons.mp hMem with hEq | hIn
        · rw [hEq]
          exact Relation.ReflTransGen.refl
        · rcases Placed.mem_idsAll.mp hIn with
            ⟨child, hChild, hIn⟩
          have hLists : tree.Lists id child.id := by
            rw [Tree.lists_iff hAt, hListed]
            exact List.mem_map_of_mem hChild
          exact Relation.ReflTransGen.head hLists
            (ih child hChild hIn)

/- What is below the root of a held tree is one of its places. -/
theorem Holds.below_iff
    {placed : Placed}
    {n : NodeId}
    (hHolds : tree.Holds placed) :
    tree.Below placed.id n ↔ n ∈ placed.ids :=
  hHolds.shows.below_iff

/- A held tree in which no place occurs twice has no cycle. -/
private theorem Holds.not_cyclic
    {id : NodeId}
    {label : Label}
    {children : List Placed}
    (hHolds : tree.Holds (.node id label children))
    (hNodup : (Placed.node id label children).ids.Nodup) :
    ¬ Relation.TransGen tree.Lists id id := by
  intro hCycle
  rcases Relation.TransGen.head'_iff.mp hCycle with
    ⟨first, hLists, hBack⟩
  rcases hHolds.lists_iff.mp hLists with ⟨child, hMem, rfl⟩
  have hIn := (hHolds.child hMem).below_iff.mp hBack
  rw [Placed.ids_node, List.nodup_cons] at hNodup
  exact hNodup.1 (Placed.ids_subset_idsAll hMem hIn)

/- What is held, with no place twice, is well formed. -/
theorem Holds.wellFormed
    {placed : Placed}
    (hHolds : tree.Holds placed)
    (hNodup : placed.ids.Nodup) :
    tree.WellFormed placed.id := by
  have hOwned : ∀ owner child,
      tree.Below placed.id owner → tree.Lists owner child →
        tree.owner? child = some owner := by
    intro owner child hBelow hLists
    rcases hHolds.sub (hHolds.below_iff.mp hBelow) with
      ⟨label, children, hSub, _, _⟩
    rcases hSub.lists_iff.mp hLists with ⟨below, hMem, rfl⟩
    exact hSub.owner?_child hMem
  refine ⟨?_, ?_, hOwned, ?_⟩
  · intro n hBelow
    rcases hHolds.sub (hHolds.below_iff.mp hBelow) with
      ⟨label, children, hSub, _, _⟩
    rcases hSub.stored with ⟨stored, hAt, _⟩
    rw [Placed.id_node] at hAt
    rw [hAt]
    rfl
  · intro n hBelow
    rcases hHolds.sub (hHolds.below_iff.mp hBelow) with
      ⟨label, children, hSub, _, hApart⟩
    exact hSub.not_cyclic (hApart hNodup)
  · intro owner owner' slot slot' child hBelow hBelow'
      hOccupies hOccupies'
    have hSame : owner = owner' := by
      have hFirst := hOwned owner child hBelow
        ⟨slot, hOccupies⟩
      have hSecond := hOwned owner' child hBelow'
        ⟨slot', hOccupies'⟩
      rw [hFirst] at hSecond
      exact Option.some.inj hSecond
    refine ⟨hSame, ?_⟩
    subst hSame
    rcases hHolds.sub (hHolds.below_iff.mp hBelow) with
      ⟨label, children, hSub, _, hApart⟩
    rw [hSub.occupies_iff] at hOccupies hOccupies'
    have hBelowNodup := hApart hNodup
    rw [Placed.ids_node, List.nodup_cons] at hBelowNodup
    have hSlots := Placed.nodup_map_id hBelowNodup.2
    rcases List.getElem?_eq_some_iff.mp hOccupies with ⟨hLt, _⟩
    exact (List.getElem?_inj hLt hSlots).mp
      (hOccupies.trans hOccupies'.symm)

------------------------------------------------------------
-- Well-Formed Trees Are Held
------------------------------------------------------------

namespace WellFormed

/- No two nodes below a root list the same node. -/
theorem owner_unique
    (hFormed : tree.WellFormed root)
    {owner owner' child : NodeId}
    (hBelow : tree.Below root owner)
    (hBelow' : tree.Below root owner')
    (hLists : tree.Lists owner child)
    (hLists' : tree.Lists owner' child) :
    owner = owner' := by
  rcases hLists with ⟨slot, hSlot⟩
  rcases hLists' with ⟨slot', hSlot'⟩
  exact (hFormed.once owner owner' slot slot' child hBelow
    hBelow' hSlot hSlot').1

/-
  Subtrees in two slots of a node have no place in common: the
  paths to it are followed upwards at the same time.
-/
private theorem apart
    (hFormed : tree.WellFormed root)
    {id first second n : NodeId}
    (hBelow : tree.Below root id)
    (hFirst : tree.Lists id first)
    (hSecond : tree.Lists id second)
    (hNe : first ≠ second)
    (hFirstBelow : tree.Below first n)
    (hSecondBelow : tree.Below second n) :
    False := by
  have hUnder {child below : NodeId}
      (hChild : tree.Lists id child)
      (hReach : tree.Below child below) :
      tree.Below root below :=
    (hBelow.tail hChild).trans hReach
  have hNoReturn {child : NodeId}
      (hChild : tree.Lists id child) :
      ¬ tree.Below child id := by
    intro hBack
    exact hFormed.acyclic id hBelow
      (Relation.TransGen.head' hChild hBack)
  induction hFirstBelow with
  | refl =>
      rcases Relation.ReflTransGen.cases_tail hSecondBelow with
        hEq | ⟨owner, hReach, hLists⟩
      · exact hNe hEq
      · have hSame := hFormed.owner_unique
          (hUnder hSecond hReach) hBelow hLists hFirst
        rw [hSame] at hReach
        exact hNoReturn hSecond hReach
  | @tail owner n hReach hLists ih =>
      rcases Relation.ReflTransGen.cases_tail hSecondBelow with
        hEq | ⟨owner', hReach', hLists'⟩
      · rw [hEq] at hLists
        have hSame := hFormed.owner_unique
          (hUnder hFirst hReach) hBelow hLists hSecond
        rw [hSame] at hReach
        exact hNoReturn hFirst hReach
      · have hSame := hFormed.owner_unique
          (hUnder hSecond hReach') (hUnder hFirst hReach) hLists'
          hLists
        rw [hSame] at hReach'
        exact ih hReach'

/- The slots of a node hold different nodes. -/
private theorem nodup_children
    (hFormed : tree.WellFormed root)
    {id : NodeId}
    {stored : Node}
    (hBelow : tree.Below root id)
    (hAt : tree.get? id = some stored) :
    stored.kind.children.Nodup := by
  rw [List.nodup_iff_getElem?_ne_getElem?]
  intro slot slot' hLt hBound hEq
  have hSlot := List.getElem?_eq_getElem hBound
  have hOther := hEq.trans hSlot
  have hSame := (hFormed.once id id slot slot' _ hBelow hBelow
    ⟨stored, hAt, hOther⟩ ⟨stored, hAt, hSlot⟩).2
  omega

/- Disjoint subtrees without repetition have none together. -/
private theorem nodup_idsAll
    {trees : List Placed}
    (hEach : ∀ child ∈ trees, child.ids.Nodup)
    (hApart : trees.Pairwise fun one other =>
      ∀ n ∈ one.ids, n ∉ other.ids) :
    (Placed.idsAll trees).Nodup := by
  induction trees with
  | nil => simp
  | cons first trees ih =>
      rw [List.pairwise_cons] at hApart
      rw [Placed.idsAll_cons, List.nodup_append]
      refine ⟨hEach first (by simp), ?_, ?_⟩
      · exact ih (fun child hMem => hEach child
          (by simp [hMem])) hApart.2
      · rintro n hIn m hOther rfl
        rcases Placed.mem_idsAll.mp hOther with
          ⟨other, hMem, hIn'⟩
        exact hApart.1 other hMem n hIn hIn'

/- No place of what is held below a root is there twice. -/
private theorem nodup_ids
    (hFormed : tree.WellFormed root)
    {placed : Placed}
    (hHolds : tree.Holds placed)
    (hBelow : tree.Below root placed.id) :
    placed.ids.Nodup := by
  induction placed with
  | node id label children ih =>
      rw [Placed.id_node] at hBelow
      have hLists {child : Placed} (hMem : child ∈ children) :
          tree.Lists id child.id :=
        hHolds.lists_iff.mpr ⟨child, hMem, rfl⟩
      rw [Placed.ids_node, List.nodup_cons]
      refine ⟨?_, nodup_idsAll ?_ ?_⟩
      · intro hIn
        rcases Placed.mem_idsAll.mp hIn with
          ⟨child, hMem, hIn⟩
        have hBack :=
          (hHolds.child hMem).below_iff.mpr hIn
        exact hFormed.acyclic id hBelow
          (Relation.TransGen.head' (hLists hMem) hBack)
      · intro child hMem
        exact ih child hMem (hHolds.child hMem)
          (hBelow.tail (hLists hMem))
      · rcases hHolds.stored with ⟨stored, hAt, _, hListed⟩
        have hSlots := hFormed.nodup_children hBelow hAt
        rw [hListed, Placed.children_node] at hSlots
        have hPairs := List.pairwise_map.mp hSlots
        apply hPairs.imp_of_mem
        intro one other hOne hOther hNe n hIn hIn'
        exact hFormed.apart hBelow (hLists hOne)
          (hLists hOther) hNe
          ((hHolds.child hOne).below_iff.mpr hIn)
          ((hHolds.child hOther).below_iff.mpr hIn')

/- Going down from below a root comes to an end. -/
private theorem wellFounded_below
    (hFormed : tree.WellFormed root) :
    WellFounded fun (below above :
        { n : NodeId // tree.Below root n }) =>
      Relation.TransGen tree.Lists above.val below.val := by
  let place (n : { n : NodeId // tree.Below root n }) :
      Fin tree.size :=
    ⟨n.val.raw, by
      rcases Option.isSome_iff_exists.mp
        (hFormed.present n.val n.property) with ⟨stored, hAt⟩
      exact lt_size_of_get? hAt⟩
  have hInjective : Function.Injective place := by
    rintro ⟨⟨raw⟩, _⟩ ⟨⟨raw'⟩, _⟩ hEq
    have hRaw : raw = raw' := Fin.mk.inj hEq
    subst hRaw
    rfl
  have hFinite := Finite.of_injective place hInjective
  have hTrans : IsTrans { n : NodeId // tree.Below root n }
      fun below above =>
        Relation.TransGen tree.Lists above.val below.val :=
    ⟨fun _ _ _ hLow hHigh => hHigh.trans hLow⟩
  have hIrrefl : Std.Irrefl
      fun (below above : { n : NodeId // tree.Below root n }) =>
        Relation.TransGen tree.Lists above.val below.val :=
    ⟨fun n => hFormed.acyclic n.val n.property⟩
  exact Finite.wellFounded_of_trans_of_irrefl _

/-
  A tree that is well formed under a root holds a placed tree
  there, in which no place occurs twice. It is built from the
  leaves on.
-/
theorem exists_placed (hFormed : tree.WellFormed root) :
    ∃ placed : Placed,
      placed.id = root ∧
        tree.Holds placed ∧
        placed.ids.Nodup := by
  have hEach (n : { n : NodeId // tree.Below root n }) :
      ∃ placed : Placed,
        placed.id = n.val ∧ tree.Holds placed := by
    induction n using hFormed.wellFounded_below.induction with
    | h n ih =>
        rcases Option.isSome_iff_exists.mp
          (hFormed.present n.val n.property) with ⟨stored, hAt⟩
        have hLists {child : NodeId}
            (hMem : child ∈ stored.kind.children) :
            tree.Lists n.val child :=
          (lists_iff hAt).mpr hMem
        rcases Placed.exists_trees stored.kind.children
            fun child hMem => ih
              ⟨child, n.property.tail (hLists hMem)⟩
              (Relation.TransGen.single (hLists hMem)) with
          ⟨trees, hListed, hTrees⟩
        refine ⟨.node n.val stored.label trees, rfl, ?_⟩
        refine .node hAt rfl hListed ?_ hTrees
        intro child hMem
        apply hFormed.owned n.val child.id n.property
        apply hLists
        rw [hListed]
        exact List.mem_map_of_mem hMem
  rcases hEach ⟨root, Relation.ReflTransGen.refl⟩ with
    ⟨placed, hId, hHolds⟩
  refine ⟨placed, hId, hHolds, ?_⟩
  apply hFormed.nodup_ids hHolds
  rw [hId]
  exact Relation.ReflTransGen.refl

/-
  In a tree that was built by edits, what is well formed under
  a root stands there: the owner of the root, if it has one, is
  not below the root.
-/
theorem standing
    (hFormed : tree.WellFormed root)
    (hReached : tree.Reached) :
    ∃ placed : Placed,
      placed.id = root ∧ tree.Standing placed := by
  have hLinked := hReached.linked
  rcases hFormed.exists_placed with
    ⟨placed, hId, hHolds, hNodup⟩
  refine ⟨placed, hId, hHolds, hNodup, ?_, ?_⟩
  · intro owner hOwner hIn
    rcases hLinked.listed _ owner hOwner with
      ⟨stored, hAt, hMem⟩
    have hBelow := hHolds.below_iff.mpr hIn
    have hCycle : Relation.TransGen tree.Lists placed.id
        placed.id :=
      Relation.TransGen.tail' hBelow ((lists_iff hAt).mpr hMem)
    rw [hId] at hCycle
    exact hFormed.acyclic root Relation.ReflTransGen.refl
      hCycle
  · intro owner hOwner
    rcases hLinked.listed _ owner hOwner with
      ⟨stored, hAt, hMem⟩
    exact ⟨stored, hAt, hMem, hLinked.bounded owner stored hAt⟩

end WellFormed

------------------------------------------------------------
-- Views
------------------------------------------------------------

/- The view of a node, following children to a depth. -/
def viewWithin (tree : Tree) : Nat → NodeId → Option View
  | 0, _ => none
  | depth + 1, id => do
    let stored ← tree.get? id
    let children ←
      stored.kind.children.mapM (tree.viewWithin depth)
    return .node stored.label children

/-
  The view of a node: its kind without the places of children,
  its type and its element, and the views of its children.
-/
def view? (tree : Tree) (id : NodeId) : Option View :=
  tree.viewWithin (tree.size + 1) id

private theorem Shows.viewWithin_eq
    {placed : Placed}
    (hShows : tree.Shows placed) :
    ∀ depth,
      placed.height ≤ depth →
        tree.viewWithin depth placed.id = some placed.view := by
  induction hShows with
  | @node id label children stored hAt hLabel hListed _ ih =>
      intro depth hDepth
      rw [Placed.height_node] at hDepth
      rcases depth with _ | depth
      · omega
      have hAll : ∀ trees, trees ⊆ children →
          (trees.map (·.id)).mapM (tree.viewWithin depth) =
            some (trees.map (·.view)) := by
        intro trees hSubset
        induction trees with
        | nil => rfl
        | cons child trees ihTrees =>
            have hMem : child ∈ children :=
              hSubset List.mem_cons_self
            have hHeight := Placed.height_le_of_mem hMem
            have hFirst := ih child hMem depth (by omega)
            have hRest := ihTrees fun other hOther =>
              hSubset (List.mem_cons_of_mem _ hOther)
            rw [List.map_cons, List.mapM_cons, hFirst, hRest]
            rfl
      rw [Placed.id_node, viewWithin, hAt, Placed.view_node]
      simp only [Option.bind_eq_bind, Option.bind_some,
        hListed, hAll children (List.Subset.refl _), hLabel]
      rfl

/- The view of a node is that of what is shown there. -/
theorem Shows.view?_of_height
    {placed : Placed}
    (hShows : tree.Shows placed)
    (hHeight : placed.height ≤ tree.size + 1) :
    tree.view? placed.id = some placed.view :=
  hShows.viewWithin_eq _ hHeight

theorem Shows.view?_eq
    {placed : Placed}
    (hShows : tree.Shows placed)
    (hNodup : placed.ids.Nodup) :
    tree.view? placed.id = some placed.view := by
  apply hShows.view?_of_height
  have hHeight := placed.height_le_length_ids
  have hLength :=
    Placed.length_ids_le hNodup hShows.lt_size
  omega

theorem Holds.view?_eq
    {placed : Placed}
    (hHolds : tree.Holds placed)
    (hNodup : placed.ids.Nodup) :
    tree.view? placed.id = some placed.view :=
  hHolds.shows.view?_eq hNodup

end Tree

end Lowering
