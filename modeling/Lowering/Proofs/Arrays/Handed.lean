import Lowering.Proofs.Arrays.Reaches

/-
  This file tells what a run hands over: the values that a
  plain assignment stores in an array of objects. Handed over
  or not, all that a run reaches stands below its root, and
  what is handed over is reached as it is when asked for a
  retained result.

  Key definitions include:
    * `Arrays.HandedOver`

  Main results:
    * `Arrays.exists_below_of_reaches`
-/

namespace Lowering

namespace Arrays

open Symbols
open Lowering.Tree (WellFormed)

/-
  Below a root, a node is the value of a plain assignment to an
  element that is no value primitive.
-/
def HandedOver
    (symbols : Symbols)
    (tree : Tree)
    (root n : NodeId) : Prop :=
  ∃ owner stored target access component,
    tree.Below root owner ∧
      tree.get? owner = some stored ∧
      stored.kind = .assignment .assign target n ∧
      tree.get? target = some access ∧
      access.kind.shape = .arrayAccess () () ∧
      access.ty = some component ∧
      isPrimitive? symbols component = some false

section Handing

variable {symbols : Symbols}
variable {tree : Tree}
variable {top : Placed}

/-
  The owner of a child that is handed over stores it: no other
  node lists the child.
-/
private theorem stores_of_handedOver
    (hFormed : tree.WellFormed top.id)
    {id : NodeId}
    {label : Label}
    {children : List Placed}
    {child : Placed}
    (hHolds : tree.Holds (.node id label children))
    (hBelow : tree.Below top.id id)
    (hMem : child ∈ children)
    (hHanded : HandedOver symbols tree top.id child.id) :
    ∃ target store,
      children = [target, child] ∧
        stored? symbols label (children.map (·.view)) =
          some (some store) := by
  rcases hHanded with
    ⟨owner, stored, targetId, access, component, hOwner,
      hStored, hKind, hAccess, hShape, hTy, hPrimitive⟩
  have hSecond : tree.Occupies owner 1 child.id :=
    ⟨stored, hStored, by rw [hKind]; rfl⟩
  have hOwned := hFormed.owned owner child.id hOwner
    ⟨1, hSecond⟩
  rw [hHolds.owner?_child hMem, Option.some.injEq] at hOwned
  subst hOwned
  have hLabel : stored.label = label :=
    (hHolds.of_get? hStored).1
  subst hLabel
  rcases hHolds.pair hStored (by rw [hKind]; rfl) with
    ⟨target, value, rfl, rfl, hValue⟩
  have hLast : value = child := by
    rcases List.mem_pair.mp hMem with rfl | rfl
    · have hFirst : tree.Occupies id 0 child.id :=
        ⟨stored, hStored, by rw [hKind]; rfl⟩
      have hSlots := (hFormed.once _ _ _ _ _ hBelow hBelow
        hFirst hSecond).2
      exact absurd hSlots (by simp)
    · rfl
  subst hLast
  rcases target with ⟨targetId, outer, operands⟩
  have hOuter : access.label = outer :=
    ((hHolds.child List.mem_cons_self).of_get? hAccess).1
  subst hOuter
  have hLabel : stored.label.shape =
      .assignment .assign () () :=
    congrArg NodeKind.shape hKind
  have hOuter : access.label.shape = .arrayAccess () () :=
    hShape
  have hStores := stored?_of_element
    (operands.map (·.view)) value.view hLabel hOuter hTy
    hPrimitive
  refine ⟨_, ⟨component, value.label.shape.canRetain⟩, rfl, ?_⟩
  simpa using hStores

/- What its owner stores is handed over. -/
private theorem handedOver_of_stores
    {id : NodeId}
    {label : Label}
    {target child : Placed}
    {store : Store}
    (hHolds : tree.Holds (.node id label [target, child]))
    (hBelow : tree.Below top.id id)
    (hStores : stored? symbols label [target.view, child.view] =
      some (some store)) :
    HandedOver symbols tree top.id child.id := by
  rcases eq_of_stored? hStores with
    ⟨first, second, hBoth, hShape, hAccess, hTy, hPrimitive⟩
  cases hBoth
  rw [Placed.label_view] at hAccess
  rw [Placed.ty_view] at hTy
  rcases hHolds.stored with ⟨stored, hStored, hLabel, hListed⟩
  rw [Placed.label_node] at hLabel
  subst hLabel
  rcases NodeKind.eq_assignment_of_shape hShape with
    ⟨targetId, valueId, hKind⟩
  rw [hKind] at hListed
  have hIds : [targetId, valueId] = [target.id, child.id] :=
    hListed
  rcases (hHolds.child List.mem_cons_self).stored with
    ⟨access, hAccessAt, hOuter, _⟩
  rw [← hOuter] at hAccess hTy
  cases hIds
  exact ⟨id, stored, target.id, access, store.component, hBelow,
    hStored, hKind, hAccessAt, hAccess, hTy, hPrimitive⟩

/- What is handed over has its label marked. -/
theorem view_of_handed
    (handed : Bool)
    (id : NodeId)
    (label : Label)
    (children : List Placed) :
    (if handed then
        (Placed.node id label children).view.retain
      else
        (Placed.node id label children).view) =
      .node (label.retainIf handed) (children.map (·.view)) := by
  rw [Placed.view_node]
  cases handed <;> rfl

/- A mark does not change whether a node stores its value. -/
private theorem stored?_of_handed
    (handed : Bool)
    (label : Label)
    (children : List View) :
    stored? symbols (label.retainIf handed) children =
      stored? symbols label children := by
  cases handed
  · rfl
  · exact stored?_retain label children

/- What an access lists is not handed over. -/
private theorem not_handedOver_of_access
    (hFormed : tree.WellFormed top.id)
    {id : NodeId}
    {label : Label}
    {children : List Placed}
    {child : Placed}
    (hHolds : tree.Holds (.node id label children))
    (hBelow : tree.Below top.id id)
    (hMem : child ∈ children)
    (hAccess : label.shape = .arrayAccess () ()) :
    ¬ HandedOver symbols tree top.id child.id := by
  intro hHanded
  rcases stores_of_handedOver hFormed hHolds hBelow hMem
      hHanded with ⟨_, store, _, hStores⟩
  rcases eq_of_stored? hStores with ⟨_, _, _, hShape, _⟩
  rw [hShape] at hAccess
  exact absurd hAccess (by simp)

/- No node below the root lists the root. -/
theorem not_handedOver_root
    (hFormed : tree.WellFormed top.id) :
    ¬ HandedOver symbols tree top.id top.id := by
  rintro ⟨owner, stored, target, _, _, hOwner, hStored, hKind,
    _⟩
  apply hFormed.acyclic top.id Relation.ReflTransGen.refl
  apply Relation.TransGen.tail' hOwner
  rw [Tree.lists_iff hStored, hKind]
  exact List.mem_cons_of_mem _ List.mem_cons_self

/- All that is reached stands below the top. -/
theorem exists_below_of_reaches
    (hFormed : tree.WellFormed top.id)
    {start below : View}
    (hReaches : Reaches symbols start below)
    {placed : Placed}
    {handed : Bool}
    (hHolds : tree.Holds placed)
    (hBelow : tree.Below top.id placed.id)
    (hHanded : handed = true ↔
      HandedOver symbols tree top.id placed.id)
    (hStart : start =
      if handed then placed.view.retain else placed.view) :
    ∃ found consumed,
      tree.Holds found ∧
        tree.Below top.id found.id ∧
        (consumed = true ↔
          HandedOver symbols tree top.id found.id) ∧
        below =
          if consumed then found.view.retain else found.view := by
  induction hReaches generalizing placed handed with
  | here view =>
      exact ⟨placed, handed, hHolds, hBelow, hHanded, hStart⟩
  | @child label children child below hNone hListed _ ih =>
      rcases placed with ⟨id, label, children⟩
      rw [view_of_handed] at hStart
      cases hStart
      rw [stored?_of_handed] at hNone
      rcases List.mem_map.mp hListed with ⟨child, hMem, rfl⟩
      apply @ih child false (hHolds.child hMem)
        (hBelow.tail (hHolds.lists_iff.mpr ⟨child, hMem, rfl⟩))
        (iff_of_false (by simp) ?_) rfl
      intro hOver
      rcases stores_of_handedOver hFormed hHolds hBelow hMem
          hOver with ⟨_, store, _, hStores⟩
      rw [hNone] at hStores
      exact absurd hStores (by simp)
  | @operand label outer operands value operand below store
      hStored hListed _ ih =>
      rcases placed with ⟨id, label, children⟩
      rw [view_of_handed] at hStart
      rcases children with
        _ | ⟨target, _ | ⟨value, _ | ⟨third, rest⟩⟩⟩
      · simp at hStart
      · simp at hStart
      · rcases target with ⟨targetId, access, operands⟩
        simp only [List.map_cons, List.map_nil,
          Placed.view_node, View.node.injEq, List.cons.injEq,
          and_true] at hStart
        rcases hStart with ⟨rfl, ⟨rfl, rfl⟩, rfl⟩
        rw [stored?_of_handed] at hStored
        have hTarget := hBelow.tail (hHolds.lists_iff.mpr
          ⟨_, List.mem_cons_self, rfl⟩)
        have hValue := hBelow.tail (hHolds.lists_iff.mpr
          ⟨value, by simp, rfl⟩)
        have hHeld := hHolds.child (List.mem_cons_self)
        rcases List.mem_append.mp hListed with hIn | hLast
        · rcases List.mem_map.mp hIn with ⟨child, hMem, rfl⟩
          rcases eq_of_stored? hStored with
            ⟨_, _, hBoth, _, hAccess, _, _⟩
          cases hBoth
          exact @ih child false (hHeld.child hMem)
            (hTarget.tail
              (hHeld.lists_iff.mpr ⟨child, hMem, rfl⟩))
            (iff_of_false (by simp)
              (not_handedOver_of_access hFormed hHeld hTarget
                hMem hAccess)) rfl
        · rw [List.mem_singleton] at hLast
          refine @ih value true (hHolds.child (by simp)) hValue
            (iff_of_true rfl ?_) hLast
          apply handedOver_of_stores hHolds hBelow
          rw [Placed.view_node]
          exact hStored
      · simp at hStart

end Handing

end Arrays

end Lowering
