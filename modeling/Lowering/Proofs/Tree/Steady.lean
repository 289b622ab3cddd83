import Lowering.Proofs.Tree.Reached
import Lowering.Proofs.Tree.WellFormed

/-
  This file proves what work at one place leaves as it looks.
  A node looks as before if it has its label and lists its
  children, whoever owns it.

  To build nodes, to copy and to take subtrees, and to replace
  one node, whatever is put there, changes no node that was
  there before in how it looks, but for the owner of the node
  that is replaced.

  Key definitions include:
    * `Tree.SameAt`
    * `Tree.Steady`
    * `Tree.KeptAt`

  Main results:
    * `Tree.Shows.frame`
    * `Tree.Steady.keptAt`
-/

namespace Lowering

namespace Tree

------------------------------------------------------------
-- How Nodes Look
------------------------------------------------------------

/- A node that is there has its label and its children. -/
def SameAt (before after : Tree) (n : NodeId) : Prop :=
  ∀ stored,
    before.get? n = some stored →
      ∃ stored',
        after.get? n = some stored' ∧
          stored'.label = stored.label ∧
          stored'.kind.children = stored.kind.children

theorem SameAt.refl (tree : Tree) (n : NodeId) :
    tree.SameAt tree n :=
  fun stored hAt => ⟨stored, hAt, rfl, rfl⟩

theorem SameAt.trans
    {before middle after : Tree}
    {n : NodeId}
    (hFirst : before.SameAt middle n)
    (hSecond : middle.SameAt after n) :
    before.SameAt after n := by
  intro stored hAt
  rcases hFirst stored hAt with
    ⟨stored', hAt', hLabel, hChildren⟩
  rcases hSecond stored' hAt' with
    ⟨stored'', hAt'', hLabel', hChildren'⟩
  exact ⟨stored'', hAt'', hLabel'.trans hLabel,
    hChildren'.trans hChildren⟩

theorem sameAt_of_get?_eq
    {before after : Tree}
    {n : NodeId}
    (hSame : after.get? n = before.get? n) :
    before.SameAt after n := by
  intro stored hAt
  exact ⟨stored, hSame.trans hAt, rfl, rfl⟩

/- How a node looks and its owner are all there is to it. -/
theorem get?_eq_of_sameAt
    {before after : Tree}
    {n : NodeId}
    (hLt : n.raw < before.size)
    (hSame : before.SameAt after n)
    (hOwner : after.owner? n = before.owner? n) :
    after.get? n = before.get? n := by
  rcases exists_get? hLt with ⟨stored, hAt⟩
  rcases hSame stored hAt with
    ⟨stored', hAt', hLabel, hChildren⟩
  rw [owner?_of_get? hAt', owner?_of_get? hAt] at hOwner
  rw [hAt', hAt]
  exact congrArg some (Node.eq_of_label hLabel hChildren hOwner)

/- What is held with an owner in both stores is the same. -/
theorem get?_eq_of_holds
    {before after : Tree}
    {placed : Placed}
    (hBefore : before.Holds placed)
    (hAfter : after.Holds placed)
    (hOwner : after.owner? placed.id =
      before.owner? placed.id) :
    after.get? placed.id = before.get? placed.id := by
  rcases hBefore.stored with ⟨first, hFirst, hLabel, hListed⟩
  rcases hAfter.stored with
    ⟨second, hSecond, hLabel', hListed'⟩
  rw [owner?_of_get? hFirst, owner?_of_get? hSecond] at hOwner
  rw [hFirst, hSecond]
  exact congrArg some (Node.eq_of_label
    (hLabel'.trans hLabel.symm) (hListed'.trans hListed.symm)
    hOwner)

/- To make a node changes how no other node looks. -/
theorem Extended.sameAt
    {before after : Tree}
    {node : Node}
    (hExtended : Extended before after node)
    (n : NodeId) :
    before.SameAt after n := by
  intro stored hAt
  have hOlder := hExtended.older n (lt_size_of_get? hAt)
  rw [hAt, Option.map_some] at hOlder
  refine ⟨_, hOlder, ?_, ?_⟩
  · split <;> rfl
  · split <;> rfl

/- An edit that keeps how a node looks. -/
theorem Edited.sameAt
    {before after : Tree}
    {edit : NodeId → Node → Node}
    {n : NodeId}
    (hEdited : Edited before after edit)
    (hSame : ∀ node, before.get? n = some node →
      (edit n node).label = node.label ∧
        (edit n node).kind.children = node.kind.children) :
    before.SameAt after n := by
  intro stored hAt
  exact ⟨_, hEdited.get?_some hAt, hSame stored hAt⟩

/- What is shown stays shown where all looks as before. -/
theorem Shows.frame
    {before after : Tree}
    {placed : Placed}
    (hShows : before.Shows placed)
    (hSame : ∀ n ∈ placed.ids, before.SameAt after n) :
    after.Shows placed := by
  induction hShows with
  | @node id label children stored hAt hLabel hListed _ ih =>
      rcases hSame id (by simp) stored hAt with
        ⟨stored', hAt', hLabel', hChildren⟩
      refine .node hAt' (hLabel'.trans hLabel)
        (hChildren.trans hListed) ?_
      intro child hMem
      apply ih child hMem
      intro n hId
      exact hSame n (Placed.ids_child_subset hMem hId)

------------------------------------------------------------
-- Work At A Place
------------------------------------------------------------

/-
  A property that work at a place keeps: building nodes,
  taking subtrees, and replacing the node that is there.
-/
structure KeptAt
    (id : NodeId)
    (property : Tree → Prop) : Prop where
  alloc : ∀ kind ty element,
    Keeps property (Tree.alloc kind ty element)
  take : ∀ n, Keeps property (Tree.take n)
  replace : ∀ new, Keeps property (Tree.replaceWith id new)

theorem KeptAt.copy
    {id : NodeId}
    {property : Tree → Prop}
    (hKept : KeptAt id property)
    (n : NodeId) :
    Keeps property (Tree.deepCopy n) :=
  Keeps.deepCopy hKept.alloc n

/-
  All nodes look as before, but for the owner of a node, which
  is the one that it had or a new one.
-/
structure Steady
    (id : NodeId)
    (before after : Tree) : Prop where
  grown : before.size ≤ after.size
  owner : ∀ owner,
    after.owner? id = some owner →
      before.owner? id = some owner ∨
        before.size ≤ owner.raw
  same : ∀ n,
    before.owner? id ≠ some n →
      before.SameAt after n

namespace Steady

variable {id : NodeId}
variable {start before after : Tree}

theorem refl (id : NodeId) (tree : Tree) :
    Steady id tree tree where
  grown := Nat.le_refl _
  owner := fun _ hOwner => Or.inl hOwner
  same := fun n _ => SameAt.refl tree n

private theorem extended
    {node : Node}
    (hSteady : Steady id start before)
    (hExtended : Extended before after node)
    (hFree : node.parent = none) :
    Steady id start after := by
  have hGrown := hSteady.grown
  have hSize := hExtended.size
  refine ⟨by omega, ?_, ?_⟩
  · intro owner hOwner
    rcases Option.bind_eq_some_iff.mp hOwner with
      ⟨found, hFound, hParent⟩
    by_cases hOld : id.raw < before.size
    · rw [hExtended.older id hOld] at hFound
      rcases Option.map_eq_some_iff.mp hFound with
        ⟨old, hStored, rfl⟩
      split at hParent
      · cases hParent
        exact Or.inr hGrown
      · apply hSteady.owner
        rw [owner?_of_get? hStored]
        exact hParent
    · have hLt := lt_size_of_get? hFound
      rw [hSize] at hLt
      rw [eq_made hOld hLt, hExtended.made] at hFound
      cases hFound
      rw [hFree] at hParent
      exact absurd hParent (by simp)
  · intro n hOther
    exact (hSteady.same n hOther).trans (hExtended.sameAt n)

/- An edit that keeps how nodes look, and owns no node anew. -/
private theorem edited
    {edit : NodeId → Node → Node}
    (hSteady : Steady id start before)
    (hEdited : Edited before after edit)
    (hOwner : ∀ node owner,
      before.get? id = some node →
        (edit id node).parent = some owner →
          node.parent = some owner)
    (hSame : ∀ n node,
      n.raw < start.size →
        start.owner? id ≠ some n →
          before.get? n = some node →
            (edit n node).label = node.label ∧
              (edit n node).kind.children =
                node.kind.children) :
    Steady id start after := by
  refine ⟨?_, ?_, ?_⟩
  · rw [hEdited.size]
    exact hSteady.grown
  · intro owner hOwned
    rw [hEdited.owner?] at hOwned
    rcases Option.bind_eq_some_iff.mp hOwned with
      ⟨node, hNode, hParent⟩
    apply hSteady.owner
    rw [owner?_of_get? hNode]
    exact hOwner node owner hNode hParent
  · intro n hOther stored hAt
    rcases hSteady.same n hOther stored hAt with
      ⟨stored', hAt', hLabel, hChildren⟩
    have hEdit := hSame n stored' (lt_size_of_get? hAt) hOther
      hAt'
    exact ⟨_, hEdited.get?_some hAt', hEdit.1.trans hLabel,
      hEdit.2.trans hChildren⟩

private theorem replaceWith
    {new : NodeId}
    (hSteady : Steady id start before)
    (hRun : Tree.replaceWith id new before = .ok () after) :
    Steady id start after := by
  rcases of_run_replaceWith hRun with
    ⟨_, rfl⟩ | ⟨parent, owner, hParent, hOwner, hListed, hNe,
      hBound, hEdited⟩
  · exact hSteady
  apply hSteady.edited hEdited
  · intro node other _ hOwned
    unfold relink at hOwned
    simp only [if_neg hNe, if_true] at hOwned
    exact absurd hOwned (by simp)
  · intro n node hOld hOther _
    have hNotParent : n ≠ parent := by
      rintro rfl
      rcases hSteady.owner n hParent with hSame | hNew
      · exact hOther hSame
      · omega
    constructor
    · unfold relink Node.label
      simp only [if_neg hNotParent]
    · rw [children_relink, if_neg hNotParent]

/- Work at a place leaves all but its owner as it looks. -/
theorem keptAt (id : NodeId) (start : Tree) :
    KeptAt id (Steady id start) where
  alloc := by
    intro kind ty element before made after hRun hSteady
    exact hSteady.extended (of_run_alloc hRun).2 rfl
  take := by
    intro n before answer after hRun hSteady
    rcases run_bind_eq_ok hRun with ⟨_, middle, hFree, hLast⟩
    cases hLast
    rcases edited_of_run_modifyNode hFree with ⟨_, hEdited⟩
    apply hSteady.edited hEdited
    · intro node owner _ hOwner
      split at hOwner
      · exact absurd hOwner (by simp)
      · exact hOwner
    · intro m node _ _ _
      split <;> exact ⟨rfl, rfl⟩
  replace := by
    intro new before _ after hRun hSteady
    exact hSteady.replaceWith hRun

end Steady

end Tree

end Lowering
