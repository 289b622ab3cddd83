import Lowering.Proofs.Arrays.Remains
import Lowering.Proofs.Arrays.Start

/-
  This file tells where a run leaves what each node below the
  root was lowered to.

  What a slot of the input held is finally seated in the same
  slot, or, where a store took its owner apart, among the
  arguments of the call that is seated where the assignment
  was. A node has one seat. Only the access that a store
  assigns to has none.

  Key definitions include:
    * `Arrays.Stores`
    * `Arrays.Seat`
    * `Arrays.Seated`
    * `Arrays.LooksAfter`

  Main results:
    * `Arrays.Seat.unique`
    * `Arrays.seated_or_taken`
    * `Arrays.Start.seated`
    * `Arrays.Start.looksAfter`
-/

namespace Lowering

namespace Tree

/- A slot has one thing in it. -/
theorem Occupies.unique
    {tree : Tree}
    {owner first second : NodeId}
    {slot : Nat}
    (hFirst : tree.Occupies owner slot first)
    (hSecond : tree.Occupies owner slot second) :
    first = second := by
  rcases hFirst with ⟨stored, hStored, hFirst⟩
  rcases hSecond with ⟨other, hOther, hSecond⟩
  rw [hStored] at hOther
  cases hOther
  rw [hFirst] at hSecond
  exact Option.some.inj hSecond

end Tree

namespace Arrays

open Symbols
open Placed (idsAll)

------------------------------------------------------------
-- Stores
------------------------------------------------------------

/-
  Below a root, a plain assignment of a value to an element
  that is no value primitive.
-/
structure Stores
    (symbols : Symbols)
    (tree : Tree)
    (root store target value : NodeId)
    (component : TypeId) : Prop where
  below : tree.Below root store
  assignment : ∃ stored,
    tree.get? store = some stored ∧
      stored.kind = .assignment .assign target value
  access : ∃ stored,
    tree.get? target = some stored ∧
      stored.kind.shape = .arrayAccess () () ∧
      stored.ty = some component
  object : isPrimitive? symbols component = some false

section Stores

variable {symbols : Symbols}
variable {tree : Tree}
variable {root n store target value : NodeId}
variable {component : TypeId}

theorem handedOver_iff :
    HandedOver symbols tree root n ↔
      ∃ store target component,
        Stores symbols tree root store target n component := by
  constructor
  · rintro ⟨store, stored, target, access, component, hBelow,
      hStored, hKind, hAccess, hShape, hTy, hObject⟩
    exact ⟨store, target, component, hBelow,
      ⟨stored, hStored, hKind⟩, ⟨access, hAccess, hShape, hTy⟩,
      hObject⟩
  · rintro ⟨store, target, component, hBelow,
      ⟨stored, hStored, hKind⟩, ⟨access, hAccess, hShape, hTy⟩,
      hObject⟩
    exact ⟨store, stored, target, access, component, hBelow,
      hStored, hKind, hAccess, hShape, hTy, hObject⟩

/- A store holds the access and then the value. -/
theorem Stores.occupies
    (hStores : Stores symbols tree root store target value
      component) :
    tree.Occupies store 0 target ∧
      tree.Occupies store 1 value := by
  rcases hStores.assignment with ⟨stored, hStored, hKind⟩
  exact ⟨⟨stored, hStored, by rw [hKind]; rfl⟩,
    ⟨stored, hStored, by rw [hKind]; rfl⟩⟩

/- The access that a store assigns to is below the root. -/
theorem Stores.target_below
    (hStores : Stores symbols tree root store target value
      component) :
    tree.Below root target :=
  hStores.below.tail ⟨0, hStores.occupies.1⟩

/- What is stored is a placed assignment with its operands. -/
theorem stores_of_stored?
    {id : NodeId}
    {label outer : Label}
    {operands : List Placed}
    {value : Placed}
    {taken : Store}
    (hHolds : tree.Holds
      (.node id label [.node target outer operands, value]))
    (hBelow : tree.Below root id)
    (hStored : stored? symbols label
      [.node outer (operands.map (·.view)), value.view] =
        some (some taken)) :
    Stores symbols tree root id target value.id
      taken.component := by
  rcases eq_of_stored? hStored with
    ⟨_, _, hBoth, hShape, hAccess, hTy, hPrimitive⟩
  cases hBoth
  rcases hHolds.stored with ⟨stored, hAt, hLabel, hListed⟩
  rw [Placed.label_node] at hLabel
  rw [← hLabel] at hShape
  rcases NodeKind.eq_assignment_of_shape hShape with
    ⟨targetId, valueId, hKind⟩
  rw [hKind] at hListed
  have hIds : [targetId, valueId] = [target, value.id] :=
    hListed
  cases hIds
  rcases (hHolds.child List.mem_cons_self).stored with
    ⟨access, hAccessAt, hOuter, _⟩
  rw [Placed.label_node] at hOuter
  rw [View.label, ← hOuter] at hAccess
  have hTy : outer.ty = some taken.component := hTy
  rw [← hOuter] at hTy
  exact ⟨hBelow, ⟨stored, hAt, hKind⟩,
    ⟨access, hAccessAt, hAccess, hTy⟩, hPrimitive⟩

end Stores

------------------------------------------------------------
-- Seats
------------------------------------------------------------

/- A node is a store, or the access that one assigns to. -/
def Taken
    (symbols : Symbols)
    (tree : Tree)
    (root n : NodeId) : Prop :=
  ∃ store target value component,
    Stores symbols tree root store target value component ∧
      (n = store ∨ n = target)

/-
  Where what a node was lowered to is seated: at the root, in
  the slot that held the node, or among the arguments of the
  call that took the place of a store.
-/
inductive Seat
    (symbols : Symbols)
    (before after : Tree)
    (root result : NodeId) : NodeId → NodeId → Prop
  | root : Seat symbols before after root result root result
  | slot
      {owner n seat : NodeId}
      {slot : Nat}
      (below : before.Below root owner)
      (stays : ¬ Taken symbols before root owner)
      (held : before.Occupies owner slot n)
      (holds : after.Occupies owner slot seat) :
      Seat symbols before after root result n seat
  | operand
      {store target value call n seat : NodeId}
      {component : TypeId}
      {slot : Nat}
      (stores : Stores symbols before root store target value
        component)
      (called : Seat symbols before after root result store
        call)
      (held : before.Occupies target slot n)
      (holds : after.Occupies call slot seat) :
      Seat symbols before after root result n seat
  | value
      {store target value call seat : NodeId}
      {component : TypeId}
      (stores : Stores symbols before root store target value
        component)
      (called : Seat symbols before after root result store
        call)
      (holds : after.Occupies call 2 seat) :
      Seat symbols before after root result value seat

section Seats

variable {symbols : Symbols}
variable {before after : Tree}
variable {root result : NodeId}

/- No slot below the root holds the root. -/
private theorem not_occupies_root
    (hFormed : before.WellFormed root)
    {owner : NodeId}
    {slot : Nat}
    (hBelow : before.Below root owner) :
    ¬ before.Occupies owner slot root := by
  intro hHeld
  apply hFormed.acyclic root Relation.ReflTransGen.refl
  exact Relation.TransGen.tail' hBelow ⟨slot, hHeld⟩

/- An access is no assignment. -/
private theorem Stores.target_ne
    {store target value store' target' value' : NodeId}
    {component component' : TypeId}
    (hStores : Stores symbols before root store target value
      component)
    (hStores' : Stores symbols before root store' target' value'
      component') :
    target ≠ store' := by
  rintro rfl
  rcases hStores.access with ⟨access, hAccess, hShape, _⟩
  rcases hStores'.assignment with ⟨stored, hStored, hKind⟩
  rw [hAccess] at hStored
  cases hStored
  rw [hKind] at hShape
  exact absurd hShape (by simp [NodeKind.shape])

/- What has a seat was below the root. -/
theorem Seat.below_root
    {n seat : NodeId}
    (hSeat : Seat symbols before after root result n seat) :
    before.Below root n := by
  cases hSeat with
  | root => exact Relation.ReflTransGen.refl
  | slot hBelow _ hHeld _ => exact hBelow.tail ⟨_, hHeld⟩
  | operand hStores _ hHeld _ =>
      exact hStores.target_below.tail ⟨_, hHeld⟩
  | value hStores _ _ =>
      exact hStores.below.tail ⟨_, hStores.occupies.2⟩

/- What a store assigns to has no seat. -/
theorem Seat.untaken
    (hFormed : before.WellFormed root)
    {n seat : NodeId}
    (hSeat : Seat symbols before after root result n seat)
    (store value : NodeId)
    (component : TypeId) :
    ¬ Stores symbols before root store n value component := by
  intro hTaken
  cases hSeat with
  | root =>
      exact not_occupies_root hFormed hTaken.below
        hTaken.occupies.1
  | slot hBelow hStays hHeld _ =>
      rcases hFormed.once _ _ _ _ _ hBelow hTaken.below hHeld
        hTaken.occupies.1 with ⟨rfl, _⟩
      exact hStays ⟨_, _, _, _, hTaken, Or.inl rfl⟩
  | operand hStores _ hHeld _ =>
      rcases hFormed.once _ _ _ _ _ hStores.target_below
        hTaken.below hHeld hTaken.occupies.1 with ⟨hSame, _⟩
      exact hStores.target_ne hTaken hSame
  | value hStores _ _ =>
      have hSlots := (hFormed.once _ _ _ _ _ hStores.below
        hTaken.below hStores.occupies.2 hTaken.occupies.1).2
      exact absurd hSlots (by simp)

/- A node has one seat. -/
theorem Seat.unique
    (hFormed : before.WellFormed root)
    {n first second : NodeId}
    (hFirst : Seat symbols before after root result n first)
    (hSecond : Seat symbols before after root result n
      second) :
    first = second := by
  induction hFirst generalizing second with
  | root =>
      cases hSecond with
      | root => rfl
      | slot hBelow _ hHeld _ =>
          exact absurd hHeld (not_occupies_root hFormed hBelow)
      | operand hStores _ hHeld _ =>
          exact absurd hHeld
            (not_occupies_root hFormed hStores.target_below)
      | value hStores _ _ =>
          exact absurd hStores.occupies.2
            (not_occupies_root hFormed hStores.below)
  | slot hBelow hStays hHeld hHolds =>
      cases hSecond with
      | root =>
          exact absurd hHeld (not_occupies_root hFormed hBelow)
      | slot hBelow' _ hHeld' hHolds' =>
          rcases hFormed.once _ _ _ _ _ hBelow hBelow' hHeld
            hHeld' with ⟨rfl, rfl⟩
          exact hHolds.unique hHolds'
      | operand hStores _ hHeld' _ =>
          rcases hFormed.once _ _ _ _ _ hBelow
            hStores.target_below hHeld hHeld' with ⟨rfl, _⟩
          exact absurd ⟨_, _, _, _, hStores, Or.inr rfl⟩ hStays
      | value hStores _ _ =>
          rcases hFormed.once _ _ _ _ _ hBelow
            hStores.below hHeld hStores.occupies.2 with ⟨rfl, _⟩
          exact absurd ⟨_, _, _, _, hStores, Or.inl rfl⟩ hStays
  | operand hStores _ hHeld hHolds ih =>
      cases hSecond with
      | root =>
          exact absurd hHeld
            (not_occupies_root hFormed hStores.target_below)
      | slot hBelow hStays hHeld' _ =>
          rcases hFormed.once _ _ _ _ _ hBelow
            hStores.target_below hHeld' hHeld with ⟨rfl, _⟩
          exact absurd ⟨_, _, _, _, hStores, Or.inr rfl⟩ hStays
      | operand hStores' hCalled' hHeld' hHolds' =>
          rcases hFormed.once _ _ _ _ _ hStores.target_below
            hStores'.target_below hHeld hHeld' with ⟨rfl, rfl⟩
          rcases hFormed.once _ _ _ _ _ hStores.below
            hStores'.below hStores.occupies.1
            hStores'.occupies.1 with ⟨rfl, _⟩
          rw [ih hCalled'] at hHolds
          exact hHolds.unique hHolds'
      | value hStores' _ _ =>
          rcases hFormed.once _ _ _ _ _ hStores.target_below
            hStores'.below hHeld hStores'.occupies.2 with
            ⟨hSame, _⟩
          exact absurd hSame (hStores.target_ne hStores')
  | value hStores _ hHolds ih =>
      cases hSecond with
      | root =>
          exact absurd hStores.occupies.2
            (not_occupies_root hFormed hStores.below)
      | slot hBelow hStays hHeld _ =>
          rcases hFormed.once _ _ _ _ _ hBelow
            hStores.below hHeld hStores.occupies.2 with ⟨rfl, _⟩
          exact absurd ⟨_, _, _, _, hStores, Or.inl rfl⟩ hStays
      | operand hStores' _ hHeld _ =>
          rcases hFormed.once _ _ _ _ _ hStores'.target_below
            hStores.below hHeld hStores.occupies.2 with
            ⟨hSame, _⟩
          exact absurd hSame (hStores'.target_ne hStores)
      | value hStores' hCalled' hHolds' =>
          rcases hFormed.once _ _ _ _ _ hStores.below
            hStores'.below hStores.occupies.2
            hStores'.occupies.2 with ⟨rfl, _⟩
          rw [ih hCalled'] at hHolds
          exact hHolds.unique hHolds'

end Seats

------------------------------------------------------------
-- What Is Seated
------------------------------------------------------------

/- What remains of a subtree below the root, and its seat. -/
structure Seated
    (table : BindingTable)
    (options : Options)
    (root result : NodeId)
    (before after : Workspace)
    (part : Passage) : Prop where
  remains : Remains after.symbols table options
    before.tree.size after.tree part
  standing : before.tree.Standing part.old
  below : before.tree.Below root part.old.id
  assigned : before.tree.isAssigned part.old.id =
    .ok part.assigned
  handed_iff : part.handed = true ↔
    HandedOver after.symbols before.tree root part.old.id
  untaken : ∀ store value component,
    ¬ Stores after.symbols before.tree root store part.old.id
      value component
  seat : Seat after.symbols before.tree after.tree root result
    part.old.id part.new.id

section Seated

variable {symbols : Symbols}
variable {tree : Tree}
variable {root : NodeId}

/- A store is a placed assignment to a placed access. -/
theorem Stores.stored?
    {id target value : NodeId}
    {label : Label}
    {children : List Placed}
    {component : TypeId}
    (hStores : Stores symbols tree root id target value
      component)
    (hHolds : tree.Holds (.node id label children)) :
    ∃ outer operands placed,
      children = [.node target outer operands, placed] ∧
        placed.id = value ∧
        Arrays.stored? symbols label (children.map (·.view)) =
          some (some
            ⟨component, placed.label.shape.canRetain⟩) := by
  rcases hStores.assignment with ⟨stored, hStored, hKind⟩
  rcases hStores.access with ⟨access, hAccess, hShape, hTy⟩
  have hLabel : stored.label = label :=
    (hHolds.of_get? hStored).1
  subst hLabel
  rcases hHolds.pair hStored (by rw [hKind]; rfl) with
    ⟨⟨first, outer, operands⟩, placed, rfl, rfl, hValue⟩
  have hOuter : access.label = outer :=
    ((hHolds.child List.mem_cons_self).of_get? hAccess).1
  subst hOuter
  have hLabel : stored.label.shape =
      .assignment .assign () () :=
    congrArg NodeKind.shape hKind
  have hOuter : access.label.shape = .arrayAccess () () :=
    hShape
  have hTaken := stored?_of_element
    (operands.map (·.view)) placed.view hLabel hOuter hTy
    hStores.object
  refine ⟨_, operands, placed, rfl, hValue, ?_⟩
  simpa using hTaken

/- What stores nothing is no store. -/
theorem not_stores_of_stored?
    {id : NodeId}
    {label : Label}
    {children : List Placed}
    (hHolds : tree.Holds (.node id label children))
    (hNone : Arrays.stored? symbols label
      (children.map (·.view)) = some none)
    (target value : NodeId)
    (component : TypeId) :
    ¬ Stores symbols tree root id target value component := by
  intro hStores
  rcases hStores.stored? hHolds with ⟨_, _, _, _, _, hStored⟩
  rw [hNone] at hStored
  exact absurd hStored (by simp)

/- Nothing is stored by assigning to what is no access. -/
theorem not_stores_of_tag
    {n : NodeId}
    {node : Node}
    (hNode : tree.get? n = some node)
    (hOther : node.kind.tag ≠ .arrayAccess)
    (store value : NodeId)
    (component : TypeId) :
    ¬ Stores symbols tree root store n value component := by
  intro hStores
  rcases hStores.access with ⟨stored, hStored, hShape, _⟩
  rw [hNode] at hStored
  cases hStored
  apply hOther
  rw [← NodeKind.tag_shape, hShape]
  rfl

/- What no store holds is no part of one. -/
theorem apart_of_occupies
    (hFormed : tree.WellFormed root)
    {owner child : NodeId}
    {slot : Nat}
    (hBelow : tree.Below root owner)
    (hHeld : tree.Occupies owner slot child)
    (hNone : ∀ target value component,
      ¬ Stores symbols tree root owner target value
        component) :
    ¬ HandedOver symbols tree root child ∧
      ∀ store value component,
        ¬ Stores symbols tree root store child value
          component := by
  refine ⟨?_, ?_⟩
  · rw [handedOver_iff]
    rintro ⟨store, target, component, hStores⟩
    rcases hFormed.once _ _ _ _ _ hBelow hStores.below hHeld
      hStores.occupies.2 with ⟨rfl, _⟩
    exact hNone _ _ _ hStores
  · intro store value component hStores
    rcases hFormed.once _ _ _ _ _ hBelow hStores.below hHeld
      hStores.occupies.1 with ⟨rfl, _⟩
    exact hNone _ _ _ hStores

/- The root is no part of a store. -/
theorem apart_of_root
    (hFormed : tree.WellFormed root) :
    ¬ HandedOver symbols tree root root ∧
      ∀ store value component,
        ¬ Stores symbols tree root store root value
          component := by
  refine ⟨?_, ?_⟩
  · rw [handedOver_iff]
    rintro ⟨store, target, component, hStores⟩
    exact not_occupies_root hFormed hStores.below
      hStores.occupies.2
  · intro store value component hStores
    exact not_occupies_root hFormed hStores.below
      hStores.occupies.1

/- A slot of a list of places, by what comes before it. -/
private theorem getElem?_map_id
    (front back : List Placed)
    (placed : Placed) :
    ((front ++ placed :: back).map (·.id))[front.length]? =
      some placed.id := by
  simp

variable {table : BindingTable}
variable {options : Options}
variable {result : NodeId}
variable {before after : Workspace}

/- The operands of what is kept are seated in its slots. -/
private theorem seated_of_kept
    {assigned handed : Bool}
    {id : NodeId}
    {label : Label}
    {children news : List Placed}
    {new : Placed}
    {part : Passage}
    (hFormed : before.tree.WellFormed root)
    (hWhole : Seated table options root result before after
      ⟨assigned, handed, .node id label children, new⟩)
    (hNone : stored? after.symbols label
      (children.map (·.view)) = some none)
    (hLooks : after.tree.Looks id (label.retainIf handed)
      (news.map (·.id)))
    (hMem : part ∈ along label.shape.assignsFirst children news)
    (hRemains : Remains after.symbols table options
      before.tree.size after.tree part) :
    Seated table options root result before after part := by
  rcases hWhole with
    ⟨_, hStanding, hBelow, _, _, hUntaken, _⟩
  rcases exists_slot_of_along hMem with
    ⟨front, back, front', back', rfl, rfl, hLength, hAssigned⟩
  have hHanded := (mem_along hMem).1
  have hNever : ∀ target value component,
      ¬ Stores after.symbols before.tree root id target value
        component :=
    not_stores_of_stored? hStanding.holds hNone
  have hHeld : before.tree.Occupies id front.length
      part.old.id :=
    hStanding.holds.shows.looks.occupies
      (getElem?_map_id front back part.old)
  rcases apart_of_occupies hFormed hBelow hHeld hNever with
    ⟨hNot, hApart⟩
  refine ⟨hRemains, hStanding.child (by simp),
    hBelow.tail ⟨_, hHeld⟩, ?_, ?_, hApart, ?_⟩
  · rw [hStanding.isAssigned_child, hAssigned]
  · rw [hHanded]
    exact iff_of_false (by simp) hNot
  · refine .slot hBelow ?_ hHeld ?_
    · rintro ⟨store, target, value, component, hStores,
        rfl | rfl⟩
      · exact hNever _ _ _ hStores
      · exact hUntaken _ _ _ hStores
    · apply hLooks.occupies
      rw [hLength]
      exact getElem?_map_id front' back' part.new

/- An access has an array and an index. -/
theorem operands_of_access
    {id : NodeId}
    {label : Label}
    {operands : List Placed}
    (hHolds : tree.Holds (.node id label operands))
    (hAccess : label.shape = .arrayAccess () ()) :
    ∃ array index, operands = [array, index] := by
  rcases hHolds.exists_pair
      (fun _ hIs =>
        NodeKind.eq_arrayAccess_of_shape (hIs.trans hAccess))
      (fun _ _ => rfl) with
    ⟨_, array, index, _, _, _, hOperands⟩
  exact ⟨array, index, hOperands⟩

/- The operands of a store are seated in the call. -/
private theorem seated_of_stored
    {assigned handed : Bool}
    {id target : NodeId}
    {label outer : Label}
    {operands news : List Placed}
    {value last new : Placed}
    {store : Store}
    (hFormed : before.tree.WellFormed root)
    (hWhole : Seated table options root result before after
      ⟨assigned, handed,
        .node id label [.node target outer operands, value],
        new⟩)
    (hStored : stored? after.symbols label
      [.node outer (operands.map (·.view)), value.view] =
        some (some store))
    (hLength : operands.length = news.length)
    (hCall : after.tree.Looks new.id new.label
      ((news ++ [last]).map (·.id)))
    (hValue : Remains after.symbols table options
      before.tree.size after.tree ⟨false, true, value, last⟩) :
    (∀ part ∈ along false operands news,
      Remains after.symbols table options before.tree.size
          after.tree part →
        Seated table options root result before after part) ∧
      Seated table options root result before after
        ⟨false, true, value, last⟩ := by
  rcases hWhole with ⟨_, hStanding, hBelow, _, _, _, hSeat⟩
  have hStores := stores_of_stored? hStanding.holds hBelow
    hStored
  have hTarget : before.tree.Standing
      (.node target outer operands) :=
    hStanding.child List.mem_cons_self
  rcases eq_of_stored? hStored with
    ⟨_, _, hBoth, _, hAccess, _, _⟩
  cases hBoth
  rw [View.label] at hAccess
  refine ⟨?_, ?_⟩
  · intro part hMem hRemains
    rcases exists_slot_of_along hMem with
      ⟨front, back, front', back', rfl, rfl, hSlot, hAssigned⟩
    have hHanded := (mem_along hMem).1
    have hHeld : before.tree.Occupies target front.length
        part.old.id :=
      hTarget.holds.shows.looks.occupies
        (getElem?_map_id front back part.old)
    rcases apart_of_occupies hFormed hStores.target_below hHeld
        (fun _ _ _ hStores' =>
          hStores.target_ne hStores' rfl) with
      ⟨hNot, hApart⟩
    refine ⟨hRemains, hTarget.child (by simp),
      hStores.target_below.tail ⟨_, hHeld⟩, ?_, ?_, hApart, ?_⟩
    · rw [hTarget.isAssigned_child, hAssigned, hAccess]
      rfl
    · rw [hHanded]
      exact iff_of_false (by simp) hNot
    · refine .operand hStores hSeat hHeld (hCall.occupies ?_)
      rw [hSlot, List.append_assoc, List.cons_append]
      exact getElem?_map_id front' (back' ++ [last]) part.new
  · rcases operands_of_access hTarget.holds hAccess with
      ⟨array, index, hPair⟩
    have hApart : ∀ store' value' component',
        ¬ Stores after.symbols before.tree root store' value.id
          value' component' := by
      intro store' value' component' hStores'
      have hSlots := (hFormed.once _ _ _ _ _ hBelow
        hStores'.below hStores.occupies.2
        hStores'.occupies.1).2
      exact absurd hSlots (by simp)
    refine ⟨hValue, hStanding.child (by simp),
      hBelow.tail ⟨1, hStores.occupies.2⟩, ?_, ?_, hApart, ?_⟩
    · have hHere : before.tree.Standing (.node id label
          ([.node target outer operands] ++ value :: [])) :=
        hStanding
      exact hHere.isAssigned_child.trans (by simp)
    · exact iff_of_true rfl
        (handedOver_iff.mpr ⟨_, _, _, hStores⟩)
    · refine .value hStores hSeat (hCall.occupies ?_)
      have hTwo : 2 = news.length := by
        rw [← hLength, hPair]
        rfl
      rw [hTwo]
      exact getElem?_map_id news [] last

/-
  Each node of a subtree has its lowering seated, unless a
  store assigns to it. By induction on what remains.
-/
theorem seated_or_taken
    {whole : Passage}
    (hFormed : before.tree.WellFormed root)
    (hWhole : Seated table options root result before after
      whole)
    {n : NodeId}
    (hMem : n ∈ whole.old.ids) :
    (∃ part,
      part.old.id = n ∧
        Seated table options root result before after part) ∨
      ∃ store value component,
        Stores after.symbols before.tree root store n value
          component := by
  have hRemains := hWhole.remains
  induction hRemains with
  | @kept assigned handed id label children news new _ hNone
      hLength hLooks hBelow _ ih =>
      rw [Placed.ids_node] at hMem
      rcases List.mem_cons.mp hMem with rfl | hIn
      · exact Or.inl ⟨_, rfl, hWhole⟩
      rcases Placed.mem_idsAll.mp hIn with
        ⟨child, hChild, hIn⟩
      rw [← map_old_along label.shape.assignsFirst hLength]
        at hChild
      rcases List.mem_map.mp hChild with ⟨part, hPart, rfl⟩
      exact ih part hPart
        (seated_of_kept hFormed hWhole hNone hLooks hPart
          (hBelow part hPart)) hIn
  | @stored assigned handed id target label outer operands news
      value last new store _ hStored hLength _ _ _ hCall hBelow
      hValue ihBelow ihValue =>
      rcases seated_of_stored hFormed hWhole hStored hLength
        hCall hValue with ⟨hOperands, hLast⟩
      simp only [Placed.ids_node, Placed.idsAll_cons,
        Placed.idsAll_nil, List.append_nil, List.cons_append,
        List.mem_cons, List.mem_append] at hMem
      rcases hMem with rfl | rfl | hIn | hIn
      · exact Or.inl ⟨_, rfl, hWhole⟩
      · exact Or.inr ⟨_, _, _, stores_of_stored?
          hWhole.standing.holds hWhole.below hStored⟩
      · rcases Placed.mem_idsAll.mp hIn with
          ⟨child, hChild, hIn⟩
        rw [← map_old_along false hLength] at hChild
        rcases List.mem_map.mp hChild with ⟨part, hPart, rfl⟩
        exact ihBelow part hPart
          (hOperands part hPart (hBelow part hPart)) hIn
      · exact ihValue hLast hIn

/- Each node below the root of a run has its lowering seated. -/
theorem Start.seated
    (hStart : Start table root before)
    (hRun : lower table options root before =
      .ok result after)
    {n : NodeId}
    (hBelow : before.tree.Below root n) :
    (∃ part,
      part.old.id = n ∧
        Seated table options root result before after part) ∨
      ∃ store value component,
        Stores after.symbols before.tree root store n value
          component := by
  rcases hStart.formed.standing hStart.reached with
    ⟨placed, rfl, hStanding⟩
  rcases hStanding.isAssigned_ok with ⟨assigned, hAssigned⟩
  rcases remains_lower hStanding hStart.session.ready hAssigned
    hRun with ⟨new, rfl, _, hRemains⟩
  rcases @apart_of_root after.symbols _ _ hStart.formed
    with ⟨hNot, hApart⟩
  have hWhole : Seated table options placed.id new.id before
      after ⟨assigned, false, placed, new⟩ :=
    ⟨hRemains, hStanding, Relation.ReflTransGen.refl, hAssigned,
      iff_of_false (by simp) hNot, hApart, .root⟩
  exact seated_or_taken hStart.formed hWhole
    (hStanding.holds.below_iff.mp hBelow)

/- A store is assigned to by no other. -/
theorem Stores.untaken
    {store target value : NodeId}
    {component : TypeId}
    (hStores : Stores symbols tree root store target value
      component)
    (store' value' : NodeId)
    (component' : TypeId) :
    ¬ Stores symbols tree root store' store value'
      component' :=
  fun hTaken => hTaken.target_ne hStores rfl

/- What a store assigns to is not stored. -/
theorem Stores.target_kept
    {store target value : NodeId}
    {component : TypeId}
    (hFormed : tree.WellFormed root)
    (hStores : Stores symbols tree root store target value
      component) :
    ¬ HandedOver symbols tree root target := by
  rw [handedOver_iff]
  rintro ⟨store', target', component', hStores'⟩
  have hSlots := (hFormed.once _ _ _ _ _ hStores.below
    hStores'.below hStores.occupies.1 hStores'.occupies.2).2
  exact absurd hSlots (by simp)

------------------------------------------------------------
-- What Nodes Look Like
------------------------------------------------------------

/-
  What a run leaves of a node: its label, with a mark if it was
  handed over, and in each slot what was there or what that was
  lowered to.
-/
structure LooksAfter
    (root result : NodeId)
    (before after : Workspace)
    (n : NodeId)
    (label : Label)
    (listed : List NodeId)
    (handed : Bool)
    (listed' : List NodeId) : Prop where
  handed_iff : handed = true ↔
    HandedOver after.symbols before.tree root n
  looks : after.tree.Looks n (label.retainIf handed) listed'
  length_eq : listed'.length = listed.length
  seated : ∀ (slot : Nat) (c c' : NodeId),
    listed[slot]? = some c →
      listed'[slot]? = some c' →
        c' = c ∨
          Seat after.symbols before.tree after.tree root result
            c c'

/- What stays as it was looks as before. -/
private theorem looksAfter_of_same
    {n : NodeId}
    {label : Label}
    {listed : List NodeId}
    (hNot : ¬ HandedOver after.symbols before.tree root n)
    (hLooks : after.tree.Looks n label listed) :
    LooksAfter root result before after n label listed false
      listed := by
  refine ⟨iff_of_false (by simp) hNot, hLooks, rfl, ?_⟩
  intro slot c c' hSlot hSlot'
  rw [hSlot] at hSlot'
  exact Or.inl (Option.some.inj hSlot').symm

/- An assignment cannot be retained. -/
private theorem retainIf_of_stored?
    {label : Label}
    {children : List View}
    {store : Store}
    (hStored : Arrays.stored? symbols label children =
      some (some store))
    (handed : Bool) :
    label.retainIf handed = label := by
  rcases eq_of_stored? hStored with ⟨_, _, _, hShape, _⟩
  apply label.retainIf_eq_self handed
  rw [hShape]
  rfl

/- What is seated looks as it remains. -/
private theorem Seated.looksAfter
    {part : Passage}
    (hSeated : Seated table options root result before after
      part) :
    ∃ listed',
      LooksAfter root result before after part.old.id
        part.old.label (part.old.children.map (·.id))
        part.handed listed' := by
  have hRemains := hSeated.remains
  have hHeld := hSeated.standing.holds.shows.looks
  cases hRemains with
  | kept _ hNone hLength hLooks _ _ =>
      refine ⟨_, hSeated.handed_iff, hLooks, by simp [hLength],
        ?_⟩
      intro slot c c' hSlot hSlot'
      refine Or.inr (.slot hSeated.below ?_
        (hHeld.occupies hSlot) (hLooks.occupies hSlot'))
      rintro ⟨store, target, value, component, hStores,
        hSame | hSame⟩
      · subst hSame
        exact not_stores_of_stored? hSeated.standing.holds hNone
          _ _ _ hStores
      · subst hSame
        exact hSeated.untaken _ _ _ hStores
  | @stored _ handed _ _ label _ _ _ _ _ _ _ _ hStored _
      hAssignment =>
      refine ⟨_, hSeated.handed_iff, ?_, rfl, ?_⟩
      · rw [Placed.label_node,
          retainIf_of_stored? hStored handed]
        exact hAssignment
      · intro slot c c' hSlot hSlot'
        exact Or.inl (Option.some.inj (hSlot'.symm.trans hSlot))

/- What a store assigns to looks as before. -/
private theorem looksAfter_of_taken
    (hStart : Start table root before)
    (hRun : lower table options root before =
      .ok result after)
    {store target value : NodeId}
    {component : TypeId}
    (hStores : Stores after.symbols before.tree root store
      target value component)
    {label : Label}
    {listed : List NodeId}
    (hLooks : before.tree.Looks target label listed) :
    LooksAfter root result before after target label listed
      false listed := by
  apply looksAfter_of_same
    (hStores.target_kept hStart.formed)
  rcases hStart.seated hRun hStores.below with
    ⟨part, rfl, hSeated⟩ | ⟨store', value', component', hTaken⟩
  · have hRemains := hSeated.remains
    have hHolds := hSeated.standing.holds
    cases hRemains with
    | kept _ hNone =>
        exact absurd hStores
          (not_stores_of_stored? hHolds hNone _ _ _)
    | stored _ hStored _ _ hAccess =>
        rcases hStores.stored? hHolds with
          ⟨_, _, _, hChildren, _, _⟩
        cases hChildren
        have hBefore :=
          (hHolds.child List.mem_cons_self).shows.looks
        rcases hLooks.unique hBefore with ⟨rfl, rfl⟩
        exact hAccess
  · exact absurd hTaken (hStores.untaken _ _ _)

/- What is not below the root at most lists the result. -/
private theorem looksAfter_of_outside
    (hStart : Start table root before)
    (hRun : lower table options root before =
      .ok result after)
    {n : NodeId}
    (hOutside : ¬ before.tree.Below root n)
    {label : Label}
    {listed : List NodeId}
    (hLooks : before.tree.Looks n label listed) :
    ∃ listed',
      LooksAfter root result before after n label listed false
        listed' := by
  rcases hStart.finish hRun with ⟨old, new, rfl, hFinish⟩
  have hNew := hFinish.answer
  subst hNew
  have hNot : ¬ HandedOver after.symbols before.tree old.id
      n := by
    rw [handedOver_iff]
    rintro ⟨store, target, component, hStores⟩
    exact hOutside
      (hStores.below.tail ⟨1, hStores.occupies.2⟩)
  rw [hFinish.standing.holds.below_iff] at hOutside
  by_cases hOwner : before.tree.owner? old.id = some n
  · rcases hLooks with ⟨stored, hStored, rfl, rfl⟩
    rcases hFinish.replaced.relisted n stored hOwner hStored
      with ⟨stored', hStored', hLabel, _, hChildren⟩
    refine ⟨_, iff_of_false (by simp) hNot,
      ⟨stored', hStored', hLabel, hChildren⟩,
      List.length_replace, ?_⟩
    intro slot c c' hSlot hSlot'
    rw [List.getElem?_replace, hSlot] at hSlot'
    split at hSlot'
    · next hRoot =>
      have hIs : c = old.id := by simpa using hRoot
      subst hIs
      split at hSlot'
      · exact Or.inl (Option.some.inj hSlot').symm
      · rw [← Option.some.inj hSlot']
        exact Or.inr .root
    · exact Or.inl (Option.some.inj hSlot').symm
  · refine ⟨listed, looksAfter_of_same hNot ?_⟩
    exact hLooks.frame (Tree.sameAt_of_get?_eq
      (hFinish.replaced.kept n hLooks.lt_size hOutside hOwner))

/- What a run leaves of each node of the store. -/
theorem Start.looksAfter
    (hStart : Start table root before)
    (hRun : lower table options root before =
      .ok result after)
    {n : NodeId}
    {label : Label}
    {listed : List NodeId}
    (hLooks : before.tree.Looks n label listed) :
    ∃ handed listed',
      LooksAfter root result before after n label listed handed
        listed' := by
  by_cases hBelow : before.tree.Below root n
  · rcases hStart.seated hRun hBelow with
      ⟨part, rfl, hSeated⟩ |
        ⟨store, value, component, hStores⟩
    · have hHeld := hSeated.standing.holds.shows.looks
      rcases hLooks.unique hHeld with ⟨rfl, rfl⟩
      exact ⟨_, hSeated.looksAfter⟩
    · exact ⟨false, listed,
        looksAfter_of_taken hStart hRun hStores hLooks⟩
  · exact ⟨false,
      looksAfter_of_outside hStart hRun hBelow hLooks⟩

end Seated

end Arrays

end Lowering
