import Mathlib.Data.Finset.Image
import Lowering.Proofs.Depth
import Lowering.Proofs.Tree.WellFormed

/-
  This file proves what there is below a root from which slots
  never lead back to where they came from, whoever owns what
  is in them. To follow slots comes to an end, and the tree
  shows an unfolding there: a placed tree in which a node that
  is reached on several ways stands once for each of them.

  Key definitions include:
    * `Tree.ListsOlder`

  Main results:
    * `Tree.induction_below`
    * `Tree.exists_unfolding`
-/

namespace Lowering

namespace Tree

variable {tree : Tree}
variable {root : NodeId}

------------------------------------------------------------
-- Depth
------------------------------------------------------------

/-
  What holds one level deeper whenever it holds of all that is
  listed, holds at the depth of the store. This is enough
  because a path meets no node twice.
-/
theorem induction_below
    {P : Nat → NodeId → Prop}
    (hAcyclic : ∀ n, tree.Below root n →
      ¬ Relation.TransGen tree.Lists n n)
    (hStep : ∀ depth id,
      tree.Below root id →
        (∀ child, tree.Lists id child → P depth child) →
          P (depth + 1) id) :
    P (tree.size + 1) root := by
  let step (owner child : NodeId) : Prop :=
    tree.Below root owner ∧ tree.Lists owner child
  have hPath : ∀ {n m}, Relation.TransGen step n m →
      tree.Below root n ∧ Relation.TransGen tree.Lists n m := by
    intro n m hPath
    induction hPath with
    | single hOne =>
        exact ⟨hOne.1, Relation.TransGen.single hOne.2⟩
    | tail _ hLast ih => exact ⟨ih.1, ih.2.tail hLast.2⟩
  have hAll := induction_within_depth
    (R := step)
    (P := fun depth id => tree.Below root id → P depth id)
    (fun n hCycle => hAcyclic n (hPath hCycle).1 (hPath hCycle).2)
    ((Finset.range tree.size).image NodeId.mk)
  apply hAll
  · intro owner child hOne
    rcases hOne with ⟨_, slot, stored, hAt, _⟩
    exact Finset.mem_image.mpr
      ⟨owner.raw, Finset.mem_range.mpr (lt_size_of_get? hAt), rfl⟩
  · intro depth id hEach hBelow
    apply hStep depth id hBelow
    intro child hListed
    exact hEach child ⟨hBelow, hListed⟩ (hBelow.tail hListed)
  · have hCard : ((Finset.range tree.size).image
        NodeId.mk).card ≤ (Finset.range tree.size).card :=
      Finset.card_image_le
    rw [Finset.card_range] at hCard
    omega
  · exact Relation.ReflTransGen.refl

/- Every node lists older nodes only. -/
def ListsOlder (tree : Tree) : Prop :=
  ∀ place : Fin tree.nodes.size,
    ∀ child ∈ tree.nodes[place].kind.children,
      child.raw < place

instance (tree : Tree) : Decidable tree.ListsOlder :=
  inferInstanceAs (Decidable (∀ _, ∀ _ ∈ _, _))

namespace ListsOlder

theorem lt
    {owner child : NodeId}
    (hOlder : tree.ListsOlder)
    (hLists : tree.Lists owner child) :
    child.raw < owner.raw := by
  rcases hLists with ⟨slot, stored, hAt, hSlot⟩
  rcases Array.getElem?_eq_some_iff.mp hAt with ⟨hBound, hEq⟩
  rw [← hEq] at hSlot
  exact hOlder ⟨owner.raw, hBound⟩ child
    (List.mem_of_getElem? hSlot)

/- Nodes that list older nodes only have no cycle. -/
theorem not_cyclic
    (hOlder : tree.ListsOlder)
    (n : NodeId) :
    ¬ Relation.TransGen tree.Lists n n := by
  have hLess : ∀ {owner child},
      Relation.TransGen tree.Lists owner child →
        child.raw < owner.raw := by
    intro owner child hPath
    induction hPath with
    | single hLast => exact hOlder.lt hLast
    | tail _ hLast ih =>
        exact Nat.lt_trans (hOlder.lt hLast) ih
  exact fun hCycle => Nat.lt_irrefl _ (hLess hCycle)

/- Nodes that list older nodes only list what is there. -/
theorem present
    {n : NodeId}
    (hOlder : tree.ListsOlder)
    (hRoot : root.raw < tree.size)
    (hBelow : tree.Below root n) :
    (tree.get? n).isSome := by
  have hBound : n.raw < tree.size := by
    induction hBelow with
    | refl => exact hRoot
    | tail _ hLists ih =>
        exact Nat.lt_trans (hOlder.lt hLists) ih
  rcases exists_get? hBound with ⟨stored, hAt⟩
  rw [hAt, Option.isSome_some]

end ListsOlder

------------------------------------------------------------
-- Unfoldings
------------------------------------------------------------

/-
  Where slots lead to nodes that are there and never lead back,
  the tree shows an unfolding, whose paths are no longer than
  there are nodes.
-/
theorem exists_unfolding
    (hPresent : ∀ n, tree.Below root n → (tree.get? n).isSome)
    (hAcyclic : ∀ n, tree.Below root n →
      ¬ Relation.TransGen tree.Lists n n) :
    ∃ unfolding : Placed,
      unfolding.id = root ∧
        tree.Shows unfolding ∧
        unfolding.height ≤ tree.size + 1 := by
  apply induction_below
    (P := fun depth id =>
      ∃ unfolding : Placed,
        unfolding.id = id ∧
          tree.Shows unfolding ∧
          unfolding.height ≤ depth)
    hAcyclic
  intro depth id hBelow hEach
  rcases Option.isSome_iff_exists.mp (hPresent id hBelow) with
    ⟨stored, hAt⟩
  have hChildren : ∀ child ∈ stored.kind.children,
      ∃ placed : Placed,
        placed.id = child ∧
          tree.Shows placed ∧ placed.height ≤ depth := by
    intro child hMem
    exact hEach child ((lists_iff hAt).mpr hMem)
  rcases Placed.exists_trees stored.kind.children hChildren with
    ⟨trees, hListed, hTrees⟩
  refine ⟨.node id stored.label trees, rfl, ?_, ?_⟩
  · exact .node hAt rfl hListed fun child hMem =>
      (hTrees child hMem).1
  · rw [Placed.height_node]
    apply Nat.succ_le_succ
    rw [Placed.heightAll_le_iff]
    exact fun child hMem => (hTrees child hMem).2

end Tree

end Lowering
