import Lowering.Proofs.Recording
import Lowering.Proofs.Arrays.Typings

/-
  This file lists what a run checks, in the order in which it
  comes by, before anything is lowered. Each node is checked on
  the way down and on the way up; of a store, the access that
  it assigns to is not checked by itself.

  What a check finds in the symbols at the start and by the
  types that the children will have is what the run finds when
  it gets there, in its symbols and by the types that the
  lowered children have.

  Key definitions include:
    * `Arrays.Check`
    * `Arrays.checks`
    * `Arrays.Told`

  Main results:
    * `Arrays.leaveFlaw?_eq`
    * `Arrays.checks_retain`
-/

namespace Lowering

namespace Arrays

open Symbols

------------------------------------------------------------
-- Checks
------------------------------------------------------------

/- What is asked of a visitor, and what is wrong with it. -/
structure Check where
  visit : Visit
  flaw? : Option LoweringViolation

section Checks

variable (symbols : Symbols)

/- Whether a subtree has no type once it has been lowered. -/
def lacksType (placed : Placed) : Bool :=
  typing symbols placed.view = .untyped

/- The check of a node on the way down. -/
def enterCheck
    (id : NodeId)
    (label : Label)
    (children : List Placed) : Check :=
  ⟨.enter id, enterFlaw? label children⟩

/- The check of a node on the way up. -/
def leaveCheck
    (id : NodeId)
    (label : Label)
    (children : List Placed) : Check :=
  ⟨.leave id,
    leaveFlaw? symbols (lacksType symbols) id label children⟩

mutual

/- The checks of a subtree, in the order of a walk. -/
def checks : Placed → List Check
  | .node id label children =>
    enterCheck id label children ::
      (match stored? symbols label
          (children.map (·.view)) with
        | some (some _) => checksStored children
        | _ => checksAll children) ++
      [leaveCheck symbols id label children]

/- The checks of the operands of a node, but not of the node. -/
def checksBelow : Placed → List Check
  | .node _ _ children => checksAll children

/-
  The checks of what a stored element is reached by, and of
  the value that is stored.
-/
def checksStored : List Placed → List Check
  | [target, value] => checksBelow target ++ checks value
  | _ => []

/- The checks of subtrees, one after the other. -/
def checksAll : List Placed → List Check
  | [] => []
  | placed :: rest => checks placed ++ checksAll rest

end

end Checks

section Checks

variable {symbols : Symbols}
variable {id target : NodeId}
variable {label outer : Label}
variable {children operands front back : List Placed}
variable {value placed : Placed}

@[simp] theorem checksAll_nil : checksAll symbols [] = [] := by
  rw [checksAll]

@[simp] theorem checksAll_cons :
    checksAll symbols (placed :: back) =
      checks symbols placed ++ checksAll symbols back := by
  rw [checksAll]

@[simp] theorem checksAll_append :
    checksAll symbols (front ++ back) =
      checksAll symbols front ++ checksAll symbols back := by
  induction front with
  | nil => simp
  | cons first front ih => simp [ih]

/- The checks of what stores nothing. -/
theorem checks_of_kept
    (hNot : ∀ store,
      stored? symbols label (children.map (·.view)) ≠
        some (some store)) :
    checks symbols (.node id label children) =
      enterCheck id label children ::
        checksAll symbols children ++
        [leaveCheck symbols id label children] := by
  rw [checks]
  split
  · next store hStored => exact absurd hStored (hNot store)
  · rfl

/- The checks of a store leave out the access. -/
theorem checks_of_stored
    {store : Store}
    (hStored : stored? symbols label
      [.node outer (operands.map (·.view)), value.view] =
        some (some store)) :
    checks symbols
        (.node id label [.node target outer operands, value]) =
      enterCheck id label
          [.node target outer operands, value] ::
        checksAll symbols (operands ++ [value]) ++
        [leaveCheck symbols id label
          [.node target outer operands, value]] := by
  rw [checks, List.map_cons, List.map_cons, List.map_nil,
    Placed.view_node, hStored]
  simp [checksStored, checksBelow]

/-
  A walk goes on with the children of a node, or with the
  operands of a store.
-/
@[elab_as_elim]
theorem walk_induct
    (symbols : Symbols)
    {motive : Placed → Prop}
    (kept : ∀ id label children,
      (∀ store,
        stored? symbols label (children.map (·.view)) ≠
          some (some store)) →
        (∀ child ∈ children, motive child) →
          motive (.node id label children))
    (stored : ∀ id target label outer operands value store,
      stored? symbols label
          [.node outer (operands.map (·.view)), value.view] =
        some (some store) →
        (∀ child ∈ operands ++ [value], motive child) →
          motive (.node id label
            [.node target outer operands, value]))
    (placed : Placed) : motive placed := by
  suffices hBoth : motive placed ∧
      ∀ child ∈ placed.children, motive child from hBoth.1
  induction placed with
  | node id label children ih =>
      refine ⟨?_, fun child hMem => (ih child hMem).1⟩
      by_cases hStored : ∃ store,
          stored? symbols label (children.map (·.view)) =
            some (some store)
      · rcases hStored with ⟨store, hStored⟩
        rcases eq_of_stored? hStored with
          ⟨_, _, hPair, _⟩
        rcases List.map_eq_cons_iff.mp hPair with
          ⟨⟨target, outer, operands⟩, _, rfl, _, hRest⟩
        rcases List.map_eq_singleton_iff.mp hRest with
          ⟨value, rfl, _⟩
        simp only [List.map_cons, List.map_nil,
          Placed.view_node] at hStored
        refine stored id target label outer operands value
          store hStored ?_
        intro child hMem
        rcases List.mem_append.mp hMem with hMem | hMem
        · exact (ih _ List.mem_cons_self).2 child hMem
        · rw [List.mem_singleton.mp hMem]
          exact (ih value (by simp)).1
      · rw [not_exists] at hStored
        exact kept id label children hStored
          fun child hMem => (ih child hMem).1

/- A subtree is first checked on the way down. -/
theorem mem_checks_enter (placed : Placed) :
    .enter placed.id ∈ (checks symbols placed).map (·.visit) := by
  rcases placed with ⟨id, label, children⟩
  rw [checks]
  exact List.mem_cons_self

/- Subtrees are checked one by one. -/
theorem mem_checksAll
    {check : Check} :
    check ∈ checksAll symbols children ↔
      ∃ child ∈ children, check ∈ checks symbols child := by
  induction children with
  | nil => simp
  | cons child children ih =>
      rw [checksAll_cons, List.mem_append, ih]
      simp

/- What is checked are nodes of the subtree. -/
theorem node_mem_ids
    {check : Check}
    (hMem : check ∈ checks symbols placed) :
    check.visit.node ∈ placed.ids := by
  induction placed using walk_induct symbols with
  | kept id label children hNot ih =>
      rw [checks_of_kept hNot] at hMem
      rcases List.mem_append.mp hMem with hMem | hLast
      · rcases List.mem_cons.mp hMem with rfl | hBelow
        · simp [enterCheck, Visit.node]
        · rcases mem_checksAll.mp hBelow with
            ⟨child, hChild, hCheck⟩
          exact Placed.ids_child_subset hChild
            (ih child hChild hCheck)
      · rw [List.mem_singleton.mp hLast]
        simp [leaveCheck, Visit.node]
  | stored id target label outer operands value store hStored
      ih =>
      rw [checks_of_stored hStored] at hMem
      rcases List.mem_append.mp hMem with hMem | hLast
      · rcases List.mem_cons.mp hMem with rfl | hBelow
        · simp [enterCheck, Visit.node]
        · rcases mem_checksAll.mp hBelow with
            ⟨child, hChild, hCheck⟩
          have hIn := Placed.ids_subset_idsAll hChild
            (ih child hChild hCheck)
          simp only [Placed.idsAll_append, Placed.idsAll_cons,
            Placed.idsAll_nil, List.append_nil,
            List.mem_append] at hIn
          simp only [Placed.ids_node, Placed.idsAll_cons,
            Placed.idsAll_nil, List.append_nil,
            List.cons_append, List.mem_cons, List.mem_append]
          exact Or.inr (Or.inr hIn)
      · rw [List.mem_singleton.mp hLast]
        simp [leaveCheck, Visit.node]

end Checks

------------------------------------------------------------
-- Retained Results
------------------------------------------------------------

section Retained

variable {symbols : Symbols}

private theorem enterFlaw?_retain
    (label : Label)
    (children : List Placed) :
    enterFlaw? label.retain children =
      enterFlaw? label children := by
  unfold enterFlaw?
  simp only [elementOperator?_retain]

private theorem leaveFlaw?_retain
    (untyped : Placed → Bool)
    (id : NodeId)
    (label : Label)
    (children : List Placed) :
    leaveFlaw? symbols untyped id label.retain children =
      leaveFlaw? symbols untyped id label children := by
  rcases label with ⟨shape, ty, element⟩
  unfold Label.retain NodeKind.retain
  cases shape <;> (dsimp only; split <;> rfl)

/- A result that is asked for retained is checked the same. -/
theorem checks_retain (placed : Placed) :
    checks symbols placed.retain = checks symbols placed := by
  rcases placed with ⟨id, label, children⟩
  simp only [Placed.retain, checks, stored?_retain, enterCheck,
    leaveCheck, enterFlaw?_retain, leaveFlaw?_retain]

end Retained

------------------------------------------------------------
-- Flaws In Later Symbols
------------------------------------------------------------

section Later

variable {symbols later : Symbols}
variable {array : TypeId}

private theorem arrayFlaw?_eq
    (hGrown : symbols.Grown later)
    (hLive : symbols.cache.Live array)
    (node : NodeId) :
    arrayFlaw? later node array =
      arrayFlaw? symbols node array := by
  unfold arrayFlaw? shown
  rw [component?_eq hGrown hLive,
    hLive.display_mono hGrown.cache]

private theorem nestingFlaw?_eq
    (hGrown : symbols.Grown later)
    (hLive : symbols.cache.Live array)
    (node : NodeId)
    (dimensions : Nat) :
    nestingFlaw? later node array dimensions =
      nestingFlaw? symbols node array dimensions := by
  unfold nestingFlaw? shown
  rw [innermost?_eq hGrown hLive,
    hLive.display_mono hGrown.cache]

private theorem creationFlaw?_eq
    (hGrown : symbols.Grown later)
    (hLive : symbols.cache.Live array)
    (node : NodeId)
    (dimensions : Nat)
    (initialized : Bool) :
    creationFlaw? later node array dimensions initialized =
      creationFlaw? symbols node array dimensions
        initialized := by
  unfold creationFlaw?
  split
  · rfl
  · exact nestingFlaw?_eq hGrown hLive _ _
  · exact arrayFlaw?_eq hGrown hLive _

/- A subtree is as it was told before it was lowered. -/
structure Told
    (symbols later : Symbols)
    (old new : Placed) : Prop where
  retyped : Retyped symbols later old.view new.view
  /- What has no type is still what it was. -/
  untyped : new.label.ty = none →
    new.id = old.id ∧ new.label = old.label

theorem Told.mono
    {latest : Symbols}
    {old new : Placed}
    (hGrown : later.Grown latest)
    (hSafe : old.view.Safe symbols.cache)
    (hTold : Told symbols later old new) :
    Told symbols latest old new where
  retyped := hTold.retyped.mono hGrown hSafe
  untyped := hTold.untyped

/- What lacks a type in the end was told. -/
theorem Told.lacksType
    {old new : Placed}
    (hTold : Told symbols later old new) :
    Arrays.lacksType symbols old = new.label.ty.isNone := by
  have hFits := hTold.retyped.fits
  rw [Placed.ty_view] at hFits
  unfold Arrays.lacksType
  generalize typing symbols old.view = typing at hFits
  generalize new.label.ty = ty at hFits
  cases hFits <;> rfl

/-
  What is wrong with a node above its lowered children is what
  was found to be wrong with it at the start.
-/
theorem leaveFlaw?_eq
    {id : NodeId}
    {label : Label}
    {children news : List Placed}
    (hGrown : symbols.Grown later)
    (hLive : ∀ ty, label.ty = some ty →
      symbols.cache.Live ty)
    (hTold : List.Forall₂ (Told symbols later) children news) :
    leaveFlaw? later (·.label.ty.isNone) id label news =
      leaveFlaw? symbols (lacksType symbols) id label
        children := by
  unfold leaveFlaw?
  cases hShape : label.shape
  case arrayCreation dimensions initializer marked =>
    cases hTy : label.ty with
    | none => rfl
    | some array =>
        exact creationFlaw?_eq hGrown (hLive array hTy) _ _ _
  case instanceOf value tested =>
    rcases hTold with _ | ⟨_, _ | ⟨hTested, _ | _⟩⟩
    · rfl
    · rfl
    · simp only [hTested.lacksType]
      split
      · next hNone =>
        rcases hTested.untyped
            (Option.isNone_iff_eq_none.mp hNone) with
          ⟨hId, hLabel⟩
        rw [hId, hLabel]
      · rfl
    · rfl
  all_goals rfl

end Later

end Arrays

end Lowering
