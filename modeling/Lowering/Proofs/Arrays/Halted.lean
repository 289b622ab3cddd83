import Lowering.Proofs.Arrays.Checks

/-
  This file describes a subtree in which a walk was refused,
  beside what the subtree was before the walk.

  The walk was refused at one check. What it had left before is
  lowered, and what it had not come by is where it was, below
  the same node or, as an operand of a store, below the call
  that has taken the place of the store.

  Key definitions include:
    * `Arrays.Hangs`
    * `Arrays.Storing`
    * `Arrays.Halted`
    * `Arrays.Keeps`
    * `Arrays.Waits`
    * `Arrays.shownFlaw?`

  Main results:
    * `Arrays.Halted.split`
    * `Arrays.Halted.waits`
    * `Arrays.Halted.hands_over`
    * `Arrays.Halted.failing`
-/

namespace Lowering

/- A subtree whose root may be asked for a retained result. -/
abbrev Placed.retainIf
    (handed : Bool)
    (placed : Placed) : Placed :=
  if handed then placed.retain else placed

namespace Arrays

open Symbols

------------------------------------------------------------
-- Parts Of A Subtree
------------------------------------------------------------

/- The slot of a child is told by what is in front of it. -/
private theorem slot_of_child
    (front : List Placed)
    (child : Placed)
    (back : List Placed) :
    (front ++ child :: back)[front.length]? = some child := by
  simp

/- Within a subtree, a part is in a slot of a node. -/
inductive Hangs
    (part : Placed)
    (owner : NodeId)
    (label : Label)
    (slot : Nat) : Placed → Prop
  | child
      {children : List Placed}
      (in_slot : children[slot]? = some part) :
      Hangs part owner label slot (.node owner label children)
  | deeper
      {id : NodeId}
      {above : Label}
      {children : List Placed}
      {child : Placed}
      (mem : child ∈ children)
      (hangs : Hangs part owner label slot child) :
      Hangs part owner label slot (.node id above children)

section Hangs

variable {tree : Tree}
variable {part whole : Placed}
variable {owner n : NodeId}
variable {label : Label}
variable {slot : Nat}

/- Each node but the root lies below a child. -/
theorem exists_child
    {id : NodeId}
    {children : List Placed}
    (hMem : n ∈ (Placed.node id label children).ids)
    (hNot : n ≠ id) :
    ∃ child ∈ children, n ∈ child.ids := by
  rw [Placed.ids_node] at hMem
  rcases List.mem_cons.mp hMem with hRoot | hBelow
  · exact absurd hRoot hNot
  · exact Placed.mem_idsAll.mp hBelow

/- Each node but the root is a child. -/
theorem exists_hangs
    (hMem : n ∈ whole.ids)
    (hNot : n ≠ whole.id) :
    ∃ part owner label slot,
      part.id = n ∧ Hangs part owner label slot whole := by
  induction whole with
  | node id label children ih =>
      rcases exists_child hMem hNot with
        ⟨child, hChild, hIn⟩
      by_cases hIs : n = child.id
      · rcases List.mem_iff_getElem?.mp hChild with
          ⟨slot, hSlot⟩
        exact ⟨child, id, label, slot, hIs.symm, .child hSlot⟩
      · rcases ih child hChild hIn hIs with
          ⟨part, owner, above, slot, hPart, hHangs⟩
        exact ⟨part, owner, above, slot, hPart,
          .deeper hChild hHangs⟩

/- A part of what is held is held, in its slot of its owner. -/
theorem Hangs.holds
    (hHangs : Hangs part owner label slot whole)
    (hHolds : tree.Holds whole) :
    tree.Holds part ∧
      tree.owner? part.id = some owner ∧
      tree.Occupies owner slot part.id ∧
      owner ∈ whole.ids ∧
      ∃ stored,
        tree.get? owner = some stored ∧ stored.label = label := by
  induction hHangs with
  | @child children hSlot =>
      have hMem := List.mem_of_getElem? hSlot
      rcases hHolds.stored with ⟨stored, hAt, hLabel, hListed⟩
      refine ⟨hHolds.child hMem, hHolds.owner?_child hMem,
        ⟨stored, hAt, ?_⟩, by simp, stored, hAt, hLabel⟩
      rw [hListed, Placed.children_node, List.getElem?_map,
        hSlot]
      rfl
  | deeper hMem _ ih =>
      rcases ih (hHolds.child hMem) with
        ⟨hPart, hOwner, hOccupies, hIn, hStored⟩
      exact ⟨hPart, hOwner, hOccupies,
        Placed.ids_child_subset hMem hIn, hStored⟩

theorem Hangs.ids_subset
    (hHangs : Hangs part owner label slot whole) :
    part.ids ⊆ whole.ids := by
  induction hHangs with
  | child hSlot =>
      exact Placed.ids_child_subset (List.mem_of_getElem? hSlot)
  | deeper hMem _ ih =>
      exact fun n hIn => Placed.ids_child_subset hMem (ih hIn)

/- What is below a root does not depend on its label. -/
theorem Hangs.relabel
    {id : NodeId}
    {above : Label}
    {children : List Placed}
    (hHangs : Hangs part owner label slot
      (.node id above children))
    (above' : Label) :
    ∃ label',
      Hangs part owner label' slot
        (.node id above' children) := by
  cases hHangs with
  | child hSlot => exact ⟨above', .child hSlot⟩
  | deeper hMem hHangs => exact ⟨label, .deeper hMem hHangs⟩

theorem Hangs.of_retainIf
    {handed : Bool}
    (hHangs : Hangs part owner label slot
      (whole.retainIf handed)) :
    ∃ label, Hangs part owner label slot whole := by
  cases handed with
  | false => exact ⟨label, hHangs⟩
  | true =>
      rcases whole with ⟨id, above, children⟩
      exact hHangs.relabel above

theorem Hangs.retainIf
    (hHangs : Hangs part owner label slot whole)
    (handed : Bool) :
    ∃ label,
      Hangs part owner label slot (whole.retainIf handed) := by
  cases handed with
  | false => exact ⟨label, hHangs⟩
  | true =>
      rcases whole with ⟨id, above, children⟩
      exact hHangs.relabel above.retain

end Hangs

------------------------------------------------------------
-- Stores Of A Subtree
------------------------------------------------------------

/-
  What a store hands over: the operands of its access, and its
  value, which is asked for a retained result.
-/
inductive Operand
    (operands : List Placed)
    (value : Placed) : Bool → Placed → Prop
  | operand
      {part : Placed}
      (mem : part ∈ operands) :
      Operand operands value false part
  | value : Operand operands value true value

/-
  A walk goes on from a node with its children, and from a
  store with the operands.
-/
inductive GoesTo (symbols : Symbols) (child : Placed) : Placed → Prop
  | kept
      {id : NodeId}
      {label : Label}
      {children : List Placed}
      (not_stored : ∀ store,
        stored? symbols label (children.map (·.view)) ≠
          some (some store))
      (mem : child ∈ children) :
      GoesTo symbols child (.node id label children)
  | stored
      {id target : NodeId}
      {label outer : Label}
      {operands : List Placed}
      {value : Placed}
      {store : Store}
      (stored : stored? symbols label
        [.node outer (operands.map (·.view)), value.view] =
          some (some store))
      (mem : child ∈ operands ++ [value]) :
      GoesTo symbols child
        (.node id label [.node target outer operands, value])

/- A walk over a subtree comes by a store. -/
inductive Storing
    (symbols : Symbols)
    (id target : NodeId)
    (operands : List Placed)
    (value : Placed) : Placed → Prop
  | here
      {label outer : Label}
      {store : Store}
      (stored : stored? symbols label
        [.node outer (operands.map (·.view)), value.view] =
          some (some store)) :
      Storing symbols id target operands value
        (.node id label [.node target outer operands, value])
  | deeper
      {whole child : Placed}
      (goes_to : GoesTo symbols child whole)
      (storing : Storing symbols id target operands value
        child) :
      Storing symbols id target operands value whole

section Storing

variable {symbols : Symbols}
variable {id target n : NodeId}
variable {label outer : Label}
variable {operands children : List Placed}
variable {value part child whole : Placed}
variable {handed : Bool}

theorem Operand.mem
    (hOperand : Operand operands value handed part) :
    part ∈ operands ++ [value] := by
  cases hOperand with
  | operand hMem => exact List.mem_append_left _ hMem
  | value => simp

/- A subtree that a walk goes on with is handed over. -/
theorem mem_operands
    (hMem : part ∈ operands ++ [value]) :
    ∃ handed, Operand operands value handed part := by
  rcases List.mem_append.mp hMem with hMem | hMem
  · exact ⟨false, .operand hMem⟩
  · rw [List.mem_singleton.mp hMem]
    exact ⟨true, .value⟩

/- What is below an operand is below the store. -/
theorem Operand.hangs
    {below : Placed}
    {owner : NodeId}
    {above : Label}
    {slot : Nat}
    (hOperand : Operand operands value handed part)
    (hHangs : Hangs below owner above slot part) :
    Hangs below owner above slot
      (.node id label [.node target outer operands, value]) := by
  cases hOperand with
  | operand hMem =>
      exact .deeper List.mem_cons_self (.deeper hMem hHangs)
  | value => exact .deeper (by simp) hHangs

/- The arguments of a call are the operands of a store. -/
theorem mem_arguments
    {argument : Placed}
    (hMem : argument ∈ operands ++ [value.retain]) :
    ∃ handed part,
      Operand operands value handed part ∧
        argument = part.retainIf handed := by
  rcases List.mem_append.mp hMem with hMem | hMem
  · exact ⟨false, argument, .operand hMem, rfl⟩
  · exact ⟨true, value, .value, List.mem_singleton.mp hMem⟩

/-
  A node of a store is an assignment, an access, or lies in an
  argument of the call for it.
-/
theorem exists_argument
    (hMem : n ∈ (Placed.node id label
      [.node target outer operands, value]).ids)
    (hNot : n ≠ id)
    (hTarget : n ≠ target) :
    ∃ argument ∈ operands ++ [value.retain],
      n ∈ argument.ids := by
  apply Placed.mem_idsAll.mp
  simp only [Placed.ids_node, Placed.idsAll_cons,
    Placed.idsAll_nil, List.append_nil, List.cons_append,
    List.mem_cons] at hMem
  rcases hMem with hIs | hIs | hMem
  · exact absurd hIs hNot
  · exact absurd hIs hTarget
  · simpa using hMem

/- The arguments of a call lie apart, and not at the store. -/
theorem nodup_arguments
    (hNodup : (Placed.node id label
      [.node target outer operands, value]).ids.Nodup) :
    (id :: Placed.idsAll (operands ++ [value.retain])).Nodup := by
  simp only [Placed.ids_node, Placed.idsAll_cons,
    Placed.idsAll_nil, List.append_nil, List.cons_append,
    List.nodup_cons, List.mem_cons, not_or] at hNodup
  simp only [Placed.idsAll_append, Placed.idsAll_cons,
    Placed.idsAll_nil, Placed.ids_retain, List.append_nil,
    List.nodup_cons]
  exact ⟨hNodup.1.2, hNodup.2.2⟩

theorem Operand.argument
    (hOperand : Operand operands value handed part) :
    part.retainIf handed ∈ operands ++ [value.retain] := by
  cases hOperand with
  | operand hMem => exact List.mem_append_left _ hMem
  | value => simp

@[simp] theorem id_retainIf (handed : Bool) (part : Placed) :
    (part.retainIf handed).id = part.id := by
  cases handed with
  | false => rfl
  | true => exact part.id_retain

theorem label_retainIf (handed : Bool) (part : Placed) :
    (part.retainIf handed).label =
      part.label.retainIf handed := by
  cases handed with
  | false => rfl
  | true => rcases part with ⟨id, label, children⟩; rfl

@[simp] theorem ids_retainIf (handed : Bool) (part : Placed) :
    (part.retainIf handed).ids = part.ids := by
  cases handed with
  | false => rfl
  | true => exact part.ids_retain

@[simp] theorem checks_retainIf
    (handed : Bool)
    (part : Placed) :
    checks symbols (part.retainIf handed) =
      checks symbols part := by
  cases handed with
  | false => rfl
  | true => exact checks_retain part

theorem GoesTo.ids_subset
    (hGoes : GoesTo symbols child whole) :
    child.ids ⊆ whole.ids := by
  cases hGoes with
  | kept _ hMem => exact Placed.ids_child_subset hMem
  | stored _ hMem =>
      rcases List.mem_append.mp hMem with hMem | hMem
      · exact fun n hIn => Placed.ids_child_subset
          List.mem_cons_self (Placed.ids_child_subset hMem hIn)
      · rw [List.mem_singleton.mp hMem]
        exact Placed.ids_child_subset (by simp)

/- What hangs where a walk goes on hangs in the whole. -/
theorem GoesTo.hangs
    {owner : NodeId}
    {above : Label}
    {slot : Nat}
    (hGoes : GoesTo symbols child whole)
    (hHangs : Hangs part owner above slot child) :
    Hangs part owner above slot whole := by
  cases hGoes with
  | kept _ hMem => exact .deeper hMem hHangs
  | stored _ hMem =>
      rcases mem_operands hMem with ⟨handed, hOperand⟩
      exact hOperand.hangs hHangs

/- The access of a store hangs from the store. -/
theorem Storing.hangs
    (hStoring : Storing symbols id target operands value
      whole) :
    ∃ outer label,
      Hangs (.node target outer operands) id label 0 whole := by
  induction hStoring with
  | here _ => exact ⟨_, _, .child rfl⟩
  | deeper hGoes _ ih =>
      rcases ih with ⟨outer, label, hHangs⟩
      exact ⟨outer, label, hGoes.hangs hHangs⟩

/- Whether a result is retained changes no walk. -/
@[simp] theorem goesTo_retainIf :
    GoesTo symbols child (whole.retainIf handed) ↔
      GoesTo symbols child whole := by
  cases handed with
  | false => exact Iff.rfl
  | true =>
      rcases whole with ⟨id, label, children⟩
      show GoesTo symbols child
        (.node id label.retain children) ↔ _
      constructor
      · intro hGoes
        cases hGoes with
        | kept hNot hMem =>
            simp only [stored?_retain] at hNot
            exact .kept hNot hMem
        | stored hStored hMem =>
            rw [stored?_retain] at hStored
            exact .stored hStored hMem
      · intro hGoes
        cases hGoes with
        | kept hNot hMem =>
            simp only [← stored?_retain label] at hNot
            exact .kept hNot hMem
        | stored hStored hMem =>
            rw [← stored?_retain label] at hStored
            exact .stored hStored hMem

@[simp] theorem storing_retainIf :
    Storing symbols id target operands value
        (whole.retainIf handed) ↔
      Storing symbols id target operands value whole := by
  cases handed with
  | false => exact Iff.rfl
  | true =>
      rcases whole with ⟨other, label, children⟩
      have hGoes {child : Placed} :
          GoesTo symbols child (.node other label.retain
            children) ↔
          GoesTo symbols child (.node other label children) :=
        @goesTo_retainIf symbols child
          (.node other label children) true
      show Storing symbols id target operands value
        (.node other label.retain children) ↔ _
      constructor
      · intro hStoring
        cases hStoring with
        | here hStored =>
            rw [stored?_retain] at hStored
            exact .here hStored
        | deeper hTo hStoring =>
            exact .deeper (hGoes.mp hTo) hStoring
      · intro hStoring
        cases hStoring with
        | here hStored =>
            rw [← stored?_retain label] at hStored
            exact .here hStored
        | deeper hTo hStoring =>
            exact .deeper (hGoes.mpr hTo) hStoring

/- The nodes of a store lie in the subtree. -/
theorem Storing.mem_ids
    (hStoring : Storing symbols id target operands value
      whole) :
    id ∈ whole.ids ∧
      target ∈ whole.ids ∧
      ∀ part ∈ operands ++ [value], part.ids ⊆ whole.ids := by
  induction hStoring with
  | here hStored =>
      exact ⟨by simp, by simp,
        fun part hMem => (GoesTo.stored hStored hMem).ids_subset⟩
  | deeper hGoes _ ih =>
      have hSubset := hGoes.ids_subset
      exact ⟨hSubset ih.1, hSubset ih.2.1,
        fun part hPart n hIn => hSubset (ih.2.2 part hPart hIn)⟩

/- What a walk goes on with is checked. -/
theorem GoesTo.checks
    (hGoes : GoesTo symbols child whole)
    {check : Check}
    (hMem : check ∈ Arrays.checks symbols child) :
    check ∈ Arrays.checks symbols whole := by
  cases hGoes with
  | kept hNot hChild =>
      rw [checks_of_kept hNot]
      have hAll := mem_checksAll.mpr ⟨child, hChild, hMem⟩
      simp [hAll]
  | stored hStored hChild =>
      rw [checks_of_stored hStored]
      have hAll := mem_checksAll.mpr ⟨child, hChild, hMem⟩
      exact List.mem_append_left _ (List.mem_cons_of_mem _ hAll)

/- The visits of a walk, as far as it is told beforehand. -/
abbrev visits (log : List Check) : List Visit :=
  log.map (·.visit)

theorem GoesTo.visits
    (hGoes : GoesTo symbols child whole)
    {visit : Visit}
    (hIn : visit ∈ Arrays.visits (Arrays.checks symbols child)) :
    visit ∈ Arrays.visits (Arrays.checks symbols whole) := by
  rcases List.mem_map.mp hIn with ⟨check, hCheck, rfl⟩
  exact List.mem_map.mpr ⟨check, hGoes.checks hCheck, rfl⟩

/- A walk that comes by a store enters its operands. -/
theorem Storing.entered
    (hStoring : Storing symbols id target operands value whole)
    (hMem : part ∈ operands ++ [value]) :
    .enter part.id ∈ visits (checks symbols whole) := by
  induction hStoring with
  | here hStored =>
      exact (GoesTo.stored hStored hMem).visits
        (mem_checks_enter part)
  | deeper hGoes _ ih => exact hGoes.visits ih

/- A store is entered. -/
theorem Storing.mem_checks
    (hStoring : Storing symbols id target operands value
      whole) :
    .enter id ∈ visits (checks symbols whole) := by
  induction hStoring with
  | @here label outer _ _ =>
      exact mem_checks_enter (.node id label
        [.node target outer operands, value])
  | deeper hGoes _ ih => exact hGoes.visits ih

/- What a walk does not enter is assigned to. -/
theorem exists_storing_of_not_entered
    (hMem : n ∈ whole.ids)
    (hNot : .enter n ∉ visits (checks symbols whole)) :
    ∃ id operands value,
      Storing symbols id n operands value whole := by
  induction whole using walk_induct symbols with
  | kept id label children hKept ih =>
      rw [Placed.ids_node] at hMem
      rcases List.mem_cons.mp hMem with rfl | hBelow
      · exact absurd
          (mem_checks_enter (.node n label children)) hNot
      rcases Placed.mem_idsAll.mp hBelow with
        ⟨child, hChild, hIn⟩
      have hGoes : GoesTo symbols child
          (.node id label children) := .kept hKept hChild
      rcases ih child hChild hIn
          (fun hEnter => hNot (hGoes.visits hEnter)) with
        ⟨store, operands, value, hStoring⟩
      exact ⟨store, operands, value, .deeper hGoes hStoring⟩
  | stored id target label outer operands value store hStored
      ih =>
      simp only [Placed.ids_node, Placed.idsAll_cons,
        Placed.idsAll_nil, List.append_nil, List.cons_append,
        List.mem_cons] at hMem
      rcases hMem with rfl | rfl | hBelow
      · exact absurd (mem_checks_enter (.node n label
          [.node target outer operands, value])) hNot
      · exact ⟨id, operands, value, .here hStored⟩
      have hBelow' : n ∈ Placed.idsAll (operands ++ [value]) := by
        simpa using hBelow
      rcases Placed.mem_idsAll.mp hBelow' with
        ⟨child, hChild, hIn⟩
      have hGoes : GoesTo symbols child (.node id label
          [.node target outer operands, value]) :=
        .stored hStored hChild
      rcases ih child hChild hIn
          (fun hEnter => hNot (hGoes.visits hEnter)) with
        ⟨store, others, last, hStoring⟩
      exact ⟨store, others, last, .deeper hGoes hStoring⟩

/- The checks of a subtree are among those of a forest. -/
theorem checks_subset
    {forest : List Placed}
    (hMem : child ∈ forest) :
    checks symbols child ⊆ checksAll symbols forest :=
  fun _ hCheck => mem_checksAll.mpr ⟨child, hMem, hCheck⟩

/- What is not visited in the end was not visited before. -/
theorem not_visited_of_subset
    {log log' : List Check}
    {visit : Visit}
    (hSubset : log ⊆ log')
    (hNot : visit ∉ visits log') :
    visit ∉ visits log :=
  fun hIn => hNot (List.map_subset _ hSubset hIn)

/- A store below what stores nothing is below a child. -/
theorem Storing.below_of_kept
    {other : NodeId}
    (hStoring : Storing symbols id target operands value
      (.node other label children))
    (hNot : ∀ store,
      stored? symbols label (children.map (·.view)) ≠
        some (some store)) :
    ∃ child ∈ children,
      Storing symbols id target operands value child := by
  cases hStoring with
  | here hStored =>
      rw [← Placed.view_node] at hStored
      exact absurd hStored (hNot _)
  | deeper hGoes hStoring =>
      cases hGoes with
      | kept _ hMem => exact ⟨_, hMem, hStoring⟩
      | stored hStored _ =>
          rw [← Placed.view_node] at hStored
          exact absurd hStored (hNot _)

/- A store at or below a store. -/
theorem Storing.of_stored
    {other access : NodeId}
    {arguments : List Placed}
    {last : Placed}
    {store : Store}
    (hStoring : Storing symbols id target operands value
      (.node other label [.node access outer arguments, last]))
    (hStored : stored? symbols label
      [.node outer (arguments.map (·.view)), last.view] =
        some (some store)) :
    (id = other ∧ target = access ∧ operands = arguments ∧
        value = last) ∨
      ∃ child ∈ arguments ++ [last],
        Storing symbols id target operands value child := by
  cases hStoring with
  | here => exact Or.inl ⟨rfl, rfl, rfl, rfl⟩
  | deeper hGoes hStoring =>
      cases hGoes with
      | kept hNot _ =>
          rw [← Placed.view_node] at hStored
          exact absurd hStored (hNot _)
      | stored _ hMem => exact Or.inr ⟨_, hMem, hStoring⟩

/-
  A store that was begun lies in what was walked over, or in
  the subtree where the walk was refused.
-/
theorem place_of_begun
    {front back : List Placed}
    {other : Placed}
    {root : NodeId}
    {passed : List Check}
    (hNodup : (root :: Placed.idsAll
      (front ++ child :: back)).Nodup)
    (hMem : other ∈ front ++ child :: back)
    (hIn : id ∈ other.ids)
    (hBegun : .enter id ∈ visits
      (enterCheck root label children ::
        checksAll symbols front ++ passed))
    (hPassed : passed ⊆ checks symbols child) :
    other ∈ front ∨ other = child ∧ .enter id ∈ visits passed := by
  have hBelow := Placed.ids_subset_idsAll hMem hIn
  simp only [Placed.idsAll_append, Placed.idsAll_cons,
    List.nodup_cons, List.nodup_append] at hNodup hBelow
  rcases List.mem_append.mp hMem with hFront | hRest
  · exact Or.inl hFront
  right
  have hLater : id ∉ Placed.idsAll front := by
    intro hEarly
    apply hNodup.2.2.2 id hEarly id _ rfl
    rcases List.mem_cons.mp hRest with rfl | hBack
    · exact List.mem_append_left _ hIn
    · exact List.mem_append_right _
        (Placed.ids_subset_idsAll hBack hIn)
  have hInPassed : .enter id ∈ visits passed := by
    simp only [visits, List.cons_append, List.map_cons,
      List.map_append, List.mem_cons, List.mem_append]
      at hBegun
    rcases hBegun with hRoot | hEarly | hInPassed
    · cases hRoot
      exact absurd hBelow hNodup.1
    · rcases List.mem_map.mp hEarly with
        ⟨check, hCheck, hVisit⟩
      rcases mem_checksAll.mp hCheck with
        ⟨earlier, hEarlier, hIts⟩
      have hNode := node_mem_ids hIts
      rw [hVisit] at hNode
      exact absurd (Placed.ids_subset_idsAll hEarlier hNode)
        hLater
    · exact hInPassed
  refine ⟨?_, hInPassed⟩
  rcases List.mem_cons.mp hRest with hChild | hBack
  · exact hChild
  · exfalso
    rcases List.mem_map.mp hInPassed with
      ⟨check, hCheck, hVisit⟩
    have hNode := node_mem_ids (hPassed hCheck)
    rw [hVisit] at hNode
    exact hNodup.2.2.1.2.2 id hNode id
      (Placed.ids_subset_idsAll hBack hIn) rfl

end Storing

------------------------------------------------------------
-- Halted Subtrees
------------------------------------------------------------

section Halted

variable (symbols later : Symbols)
variable (size : Nat)

/-
  What is wrong with a node when it is asked about, by which of
  its children have a type then.
-/
def shownFlaw?
    (label : Label)
    (children : List Placed) : Visit → Option LoweringViolation
  | .enter _ => enterFlaw? label children
  | .leave id =>
    leaveFlaw? later (·.label.ty.isNone) id label children

/-
  A subtree in which a walk was refused, before the walk and
  now. The walk has passed some checks and was refused at one
  more. The children in front were lowered, and those behind
  stand where they stood, or below the new call that has taken
  the place of a store.
-/
inductive Halted :
    List Check → Check → Placed → Placed → Prop
  | entering
      {id : NodeId}
      {label : Label}
      {children : List Placed} :
      Halted [] (enterCheck id label children)
        (.node id label children) (.node id label children)
  | leaving
      {id : NodeId}
      {label : Label}
      {children news : List Placed}
      (not_stored : ∀ store,
        stored? symbols label (children.map (·.view)) ≠
          some (some store))
      (length_eq : children.length = news.length)
      (shown :
        leaveFlaw? later (·.label.ty.isNone) id label news =
          (leaveCheck symbols id label children).flaw?) :
      Halted
        (enterCheck id label children ::
          checksAll symbols children)
        (leaveCheck symbols id label children)
        (.node id label children) (.node id label news)
  | within
      {id : NodeId}
      {label : Label}
      {front back news : List Placed}
      {child new : Placed}
      {passed : List Check}
      {check : Check}
      (not_stored : ∀ store,
        stored? symbols label
            ((front ++ child :: back).map (·.view)) ≠
          some (some store))
      (length_eq : front.length = news.length)
      (halted : Halted passed check child new) :
      Halted
        (enterCheck id label (front ++ child :: back) ::
          checksAll symbols front ++ passed)
        check
        (.node id label (front ++ child :: back))
        (.node id label (news ++ new :: back))
  | stored
      {id target call : NodeId}
      {label outer callLabel : Label}
      {operands front back news : List Placed}
      {value child new : Placed}
      {store : Store}
      {passed : List Check}
      {check : Check}
      (stored : stored? symbols label
        [.node outer (operands.map (·.view)), value.view] =
          some (some store))
      (fresh : size ≤ call.raw)
      (is_call : callLabel.shape.tag = .functionInvocation)
      (arguments : operands ++ [value.retain] =
        front ++ child :: back)
      (length_eq : front.length = news.length)
      (halted : Halted passed check child new) :
      Halted
        (enterCheck id label
            [.node target outer operands, value] ::
          checksAll symbols front ++ passed)
        check
        (.node id label [.node target outer operands, value])
        (.node call callLabel (news ++ new :: back))

/-
  A part of a subtree is kept: what stands for it now is in its
  slot of its owner, or hangs from the new call for a store that
  the walk has come by.
-/
inductive Keeps
    (passed : List Check)
    (old new kept now : Placed) : Prop
  | top (was : kept = old) (is_now : now = new)
  | owned
      {owner : NodeId}
      {label label' : Label}
      {slot : Nat}
      (before : Hangs kept owner label slot old)
      (after : Hangs now owner label' slot new)
  | handed
      {id target call : NodeId}
      {label : Label}
      {operands : List Placed}
      {value part : Placed}
      {handed : Bool}
      {slot : Nat}
      (storing : Storing symbols id target operands value old)
      (begun : .enter id ∈ visits passed)
      (operand : Operand operands value handed part)
      (kept_eq : kept = part.retainIf handed)
      (fresh : size ≤ call.raw)
      (is_call : label.shape.tag = .functionInvocation)
      (after : Hangs now call label slot new)

/-
  A node that the walk has not entered is kept as it was, or a
  store that the walk has come by assigns to it.
-/
inductive Waits
    (passed : List Check)
    (old new : Placed)
    (n : NodeId) : Prop
  | kept
      {kept : Placed}
      (id_eq : kept.id = n)
      (keeps : Keeps symbols size passed old new kept kept)
  | assigned
      {id : NodeId}
      {operands : List Placed}
      {value : Placed}
      (storing : Storing symbols id n operands value old)
      (begun : .enter id ∈ visits passed)

/- A part hangs from a call that was not there before. -/
inductive HangsFromCall (part whole : Placed) : Prop
  | intro
      {call : NodeId}
      {label : Label}
      {slot : Nat}
      (fresh : size ≤ call.raw)
      (is_call : label.shape.tag = .functionInvocation)
      (hangs : Hangs part call label slot whole)

variable {symbols} {later} {size}
variable {id target call n : NodeId}
variable {label outer callLabel : Label}
variable {operands front back news : List Placed}
variable {value child old new kept now : Placed}
variable {passed : List Check}
variable {check : Check}
variable {handed : Bool}

/- The arguments of a call are checked as the operands. -/
theorem checksAll_arguments :
    checksAll symbols (operands ++ [value.retain]) =
      checksAll symbols (operands ++ [value]) := by
  simp [checks_retain]

namespace Halted

/- A walk is refused at a check of its subtree. -/
theorem split
    (hHalted : Halted symbols later size passed check old new) :
    ∃ rest, checks symbols old = passed ++ check :: rest := by
  induction hHalted with
  | entering =>
      rw [checks]
      exact ⟨_, rfl⟩
  | leaving hNot _ _ =>
      rw [checks_of_kept hNot]
      exact ⟨[], rfl⟩
  | @within id label front back _ child _ passed check hNot _ _
      ih =>
      rcases ih with ⟨rest, hRest⟩
      rw [checks_of_kept hNot, checksAll_append,
        checksAll_cons, hRest]
      exact ⟨rest ++ checksAll symbols back ++
        [leaveCheck symbols id label (front ++ child :: back)],
        by simp⟩
  | @stored id target _ label outer _ operands _ back _ value _ _
      _ _ _ hStored _ _ hArguments _ _ ih =>
      rcases ih with ⟨rest, hRest⟩
      rw [checks_of_stored hStored, ← checksAll_arguments,
        hArguments, checksAll_append, checksAll_cons, hRest]
      exact ⟨rest ++ checksAll symbols back ++
        [leaveCheck symbols id label
          [.node target outer operands, value]], by simp⟩

/- What a refused walk has passed are checks of its subtree. -/
theorem passed_subset
    (hHalted : Halted symbols later size passed check old new) :
    passed ⊆ checks symbols old := by
  rcases hHalted.split with ⟨rest, hRest⟩
  rw [hRest]
  exact List.subset_append_left _ _

/- The root was entered. -/
theorem entered
    (hHalted : Halted symbols later size passed check old new) :
    .enter old.id ∈ visits (passed ++ [check]) := by
  cases hHalted <;> simp [visits, enterCheck]

/- What was not entered is not the root. -/
theorem ne_id
    (hHalted : Halted symbols later size passed check old new)
    (hNot : .enter n ∉ visits (passed ++ [check])) :
    n ≠ old.id := by
  rintro rfl
  exact hNot hHalted.entered

end Halted

namespace Keeps

/- What is kept below a child is kept below its owner. -/
theorem within
    {begun : List Check}
    (hNot : ∀ store,
      stored? symbols label
          ((front ++ child :: back).map (·.view)) ≠
        some (some store))
    (hLength : front.length = news.length)
    (hBegun : passed ⊆ begun)
    (hKeeps : Keeps symbols size passed child new kept now) :
    Keeps symbols size begun
      (.node id label (front ++ child :: back))
      (.node id label (news ++ new :: back)) kept now := by
  have hGoes : GoesTo symbols child
      (.node id label (front ++ child :: back)) :=
    .kept hNot (by simp)
  cases hKeeps with
  | top hWas hNow =>
      subst hWas hNow
      exact .owned (.child (slot_of_child _ _ _))
        (.child (by rw [hLength]; exact slot_of_child _ _ _))
  | owned hBefore hAfter =>
      exact .owned (.deeper (by simp) hBefore)
        (.deeper (by simp) hAfter)
  | handed hStoring hPassed hOperand hKept hFresh hCall hAfter =>
      exact .handed (.deeper hGoes hStoring)
        (List.map_subset _ hBegun hPassed) hOperand hKept
        hFresh hCall (.deeper (by simp) hAfter)

/- What is kept below an operand is kept below the call. -/
theorem stored
    {begun : List Check}
    {store : Store}
    (hStored : stored? symbols label
      [.node outer (operands.map (·.view)), value.view] =
        some (some store))
    (hFresh : size ≤ call.raw)
    (hCall : callLabel.shape.tag = .functionInvocation)
    (hArguments : operands ++ [value.retain] =
      front ++ child :: back)
    (hEntered : .enter id ∈ visits begun)
    (hBegun : passed ⊆ begun)
    (hKeeps : Keeps symbols size passed child new kept now) :
    Keeps symbols size begun
      (.node id label [.node target outer operands, value])
      (.node call callLabel (news ++ new :: back)) kept now := by
  have hMem : child ∈ operands ++ [value.retain] := by
    rw [hArguments]
    simp
  rcases mem_arguments hMem with
    ⟨handed, part, hOperand, rfl⟩
  have hGoes : GoesTo symbols part
      (.node id label [.node target outer operands, value]) :=
    .stored hStored hOperand.mem
  cases hKeeps with
  | top hWas hNow =>
      subst hNow
      exact .handed (.here hStored) hEntered hOperand hWas
        hFresh hCall (.child (slot_of_child _ _ _))
  | owned hBefore hAfter =>
      rcases hBefore.of_retainIf with ⟨label', hBefore⟩
      exact .owned (hOperand.hangs hBefore)
        (.deeper (by simp) hAfter)
  | handed hStoring hPassed hOperand hKept hFresh hCall hAfter =>
      exact .handed (.deeper hGoes (storing_retainIf.mp hStoring))
        (List.map_subset _ hBegun hPassed) hOperand hKept
        hFresh hCall (.deeper (by simp) hAfter)

end Keeps

namespace Waits

/- What is a child as before is kept, with all below it. -/
theorem ofChild
    {children : List Placed}
    {slot : Nat}
    (hOld : children[slot]? = some child)
    (hNew : news[slot]? = some child)
    (hIn : n ∈ child.ids) :
    Waits symbols size passed (.node id label children)
      (.node id label news) n := by
  by_cases hRoot : n = child.id
  · exact .kept hRoot.symm (.owned (.child hOld) (.child hNew))
  · rcases exists_hangs hIn hRoot with
      ⟨part, owner, above, slot', hPart, hHangs⟩
    exact .kept hPart
      (.owned (.deeper (List.mem_of_getElem? hOld) hHangs)
        (.deeper (List.mem_of_getElem? hNew) hHangs))

/- What is behind a child is kept, with all below it. -/
theorem ofBehind
    {other : Placed}
    (hLength : front.length = news.length)
    (hMem : other ∈ back)
    (hIn : n ∈ other.ids) :
    Waits symbols size passed
      (.node id label (front ++ child :: back))
      (.node id label (news ++ new :: back)) n := by
  rcases List.mem_iff_getElem?.mp hMem with ⟨place, hPlace⟩
  have hSlot {front : List Placed} {child : Placed} :
      (front ++ child :: back)[front.length + (place + 1)]? =
        some other := by
    rw [List.getElem?_append_right (Nat.le_add_right _ _),
      Nat.add_sub_cancel_left]
    exact hPlace
  refine ofChild hSlot ?_ hIn
  rw [hLength]
  exact hSlot

/- What a call takes over is kept, with all below it. -/
theorem ofOperand
    {store : Store}
    (hStored : stored? symbols label
      [.node outer (operands.map (·.view)), value.view] =
        some (some store))
    (hFresh : size ≤ call.raw)
    (hCall : callLabel.shape.tag = .functionInvocation)
    (hEntered : .enter id ∈ visits passed)
    (hOld : child ∈ operands ++ [value.retain])
    (hNew : child ∈ news)
    (hIn : n ∈ child.ids) :
    Waits symbols size passed
      (.node id label [.node target outer operands, value])
      (.node call callLabel news) n := by
  rcases mem_arguments hOld with
    ⟨handed, part, hOperand, rfl⟩
  by_cases hRoot : n = (part.retainIf handed).id
  · rcases List.mem_iff_getElem?.mp hNew with ⟨slot, hSlot⟩
    exact .kept hRoot.symm
      (.handed (.here hStored) hEntered hOperand rfl hFresh
        hCall (.child hSlot))
  · rcases exists_hangs hIn hRoot with
      ⟨below, owner, above, slot, hBelow, hHangs⟩
    rcases hHangs.of_retainIf with ⟨above', hBefore⟩
    exact .kept hBelow (.owned (hOperand.hangs hBefore)
      (.deeper hNew hHangs))

/- What was walked over was entered, if not assigned to. -/
theorem ofWalked
    (hGoes : GoesTo symbols child old)
    (hIn : n ∈ child.ids)
    (hNot : .enter n ∉ visits (passed ++ [check]))
    (hSubset : checks symbols child ⊆ passed) :
    Waits symbols size passed old new n := by
  have hNot' : .enter n ∉ visits (checks symbols child) :=
    not_visited_of_subset
      (fun _ hIn => List.mem_append_left _ (hSubset hIn)) hNot
  rcases exists_storing_of_not_entered hIn hNot' with
    ⟨id, operands, value, hStoring⟩
  exact .assigned (.deeper hGoes hStoring)
    (List.map_subset _ hSubset hStoring.mem_checks)

/- What waits below a child waits below its owner. -/
theorem within
    {begun : List Check}
    (hNot : ∀ store,
      stored? symbols label
          ((front ++ child :: back).map (·.view)) ≠
        some (some store))
    (hLength : front.length = news.length)
    (hBegun : passed ⊆ begun)
    (hWaits : Waits symbols size passed child new n) :
    Waits symbols size begun
      (.node id label (front ++ child :: back))
      (.node id label (news ++ new :: back)) n := by
  cases hWaits with
  | kept hId hKeeps =>
      exact .kept hId (hKeeps.within hNot hLength hBegun)
  | assigned hStoring hPassed =>
      exact .assigned
        (.deeper (.kept hNot (by simp)) hStoring)
        (List.map_subset _ hBegun hPassed)

/- What waits below an operand waits below the call. -/
theorem stored
    {begun : List Check}
    {store : Store}
    (hStored : stored? symbols label
      [.node outer (operands.map (·.view)), value.view] =
        some (some store))
    (hFresh : size ≤ call.raw)
    (hCall : callLabel.shape.tag = .functionInvocation)
    (hArguments : operands ++ [value.retain] =
      front ++ child :: back)
    (hEntered : .enter id ∈ visits begun)
    (hBegun : passed ⊆ begun)
    (hWaits : Waits symbols size passed child new n) :
    Waits symbols size begun
      (.node id label [.node target outer operands, value])
      (.node call callLabel (news ++ new :: back)) n := by
  cases hWaits with
  | kept hId hKeeps =>
      exact .kept hId (hKeeps.stored hStored hFresh hCall
        hArguments hEntered hBegun)
  | assigned hStoring hPassed =>
      have hMem : child ∈ operands ++ [value.retain] := by
        rw [hArguments]
        simp
      rcases mem_arguments hMem with
        ⟨handed, part, hOperand, rfl⟩
      exact .assigned
        (.deeper (.stored hStored hOperand.mem)
          (storing_retainIf.mp hStoring))
        (List.map_subset _ hBegun hPassed)

end Waits

/- What hangs from a call below a child hangs from it here. -/
theorem HangsFromCall.deeper
    {part : Placed}
    {children : List Placed}
    (hMem : child ∈ children)
    (hHangs : HangsFromCall size part child) :
    HangsFromCall size part (.node id label children) := by
  rcases hHangs with ⟨hFresh, hCall, hHangs⟩
  exact ⟨hFresh, hCall, .deeper hMem hHangs⟩

namespace Halted

/-
  What the walk has not entered is kept as it was, or it is
  assigned to by a store.
-/
theorem waits
    (hHalted : Halted symbols later size passed check old new)
    (hMem : n ∈ old.ids)
    (hNot : .enter n ∉ visits (passed ++ [check])) :
    Waits symbols size passed old new n := by
  have hRoot := hHalted.ne_id hNot
  induction hHalted with
  | entering =>
      rcases exists_child hMem hRoot with
        ⟨child, hChild, hIn⟩
      rcases List.mem_iff_getElem?.mp hChild with
        ⟨slot, hSlot⟩
      exact .ofChild hSlot hSlot hIn
  | leaving hKept _ _ =>
      rcases exists_child hMem hRoot with
        ⟨child, hChild, hIn⟩
      refine .ofWalked (.kept hKept hChild) hIn hNot ?_
      intro check hCheck
      simp [checks_subset hChild hCheck]
  | @within _ _ _ _ _ _ _ passed check hKept hLength hHalted ih =>
      rcases exists_child hMem hRoot with
        ⟨other, hOther, hIn⟩
      rcases List.mem_append.mp hOther with hFront | hRest
      · refine .ofWalked (.kept hKept hOther) hIn hNot ?_
        intro check hCheck
        simp [checks_subset hFront hCheck]
      rcases List.mem_cons.mp hRest with rfl | hBack
      · have hNot' : .enter n ∉ visits (passed ++ [check]) :=
          not_visited_of_subset (by simp) hNot
        exact (ih hIn hNot' (hHalted.ne_id hNot')).within hKept
          hLength (List.subset_append_right _ _)
      · exact .ofBehind hLength hBack hIn
  | @stored _ target _ _ _ _ _ _ _ _ _ _ _ _ passed check hStored
      hFresh hCall hArguments _ hHalted ih =>
      by_cases hTarget : n = target
      · rw [hTarget]
        exact .assigned (.here hStored)
          (by simp [visits, enterCheck])
      rcases exists_argument hMem hRoot hTarget with
        ⟨other, hOther, hIn⟩
      have hPlace := hOther
      rw [hArguments] at hPlace
      rcases List.mem_append.mp hPlace with hFront | hRest
      · rcases mem_arguments hOther with
          ⟨handed, part, hOperand, rfl⟩
        rw [ids_retainIf] at hIn
        refine .ofWalked (.stored hStored hOperand.mem) hIn
          hNot ?_
        intro check hCheck
        rw [← checks_retainIf handed] at hCheck
        simp [checks_subset hFront hCheck]
      rcases List.mem_cons.mp hRest with rfl | hBack
      · have hNot' : .enter n ∉ visits (passed ++ [check]) :=
          not_visited_of_subset (by simp) hNot
        exact (ih hIn hNot' (hHalted.ne_id hNot')).stored
          hStored hFresh hCall hArguments
          (by simp [visits, enterCheck])
          (List.subset_append_right _ _)
      · exact .ofOperand hStored hFresh hCall
          (by simp [visits, enterCheck]) hOther
          (by simp [hBack]) hIn

/-
  Of the operands of a store, those that were not entered are
  behind the one that the walk was refused in, and so hang from
  the call.
-/
private theorem hangs_of_not_entered
    {part : Placed}
    (hHalted : Halted symbols later size passed check child new)
    (hFresh : size ≤ call.raw)
    (hCall : callLabel.shape.tag = .functionInvocation)
    (hMem : part ∈ front ++ child :: back)
    (hNot : .enter part.id ∉
      visits (checksAll symbols front ++ passed ++ [check])) :
    HangsFromCall size part
      (.node call callLabel (news ++ new :: back)) := by
  rcases List.mem_append.mp hMem with hFront | hRest
  · exfalso
    have hEntered := @mem_checks_enter symbols part
    refine not_visited_of_subset ?_ hNot hEntered
    intro check hCheck
    simp [checks_subset hFront hCheck]
  rcases List.mem_cons.mp hRest with rfl | hBack
  · exact absurd rfl
      (hHalted.ne_id (not_visited_of_subset (by simp) hNot))
  · have hNow : part ∈ news ++ new :: back := by
      simp [hBack]
    rcases List.mem_iff_getElem?.mp hNow with ⟨slot, hSlot⟩
    exact ⟨hFresh, hCall, .child hSlot⟩

/-
  The operands of a store that the walk has come by, as far as
  they were not entered, hang from the call for the store.
-/
theorem hands_over
    (hHalted : Halted symbols later size passed check old new)
    (hNodup : old.ids.Nodup)
    {part : Placed}
    (hStoring : Storing symbols id target operands value old)
    (hBegun : .enter id ∈ visits passed)
    (hOperand : Operand operands value handed part)
    (hNot : .enter part.id ∉ visits (passed ++ [check])) :
    HangsFromCall size (part.retainIf handed) new := by
  have hWalked {child : Placed} {log : List Check}
      (hStoring : Storing symbols id target operands value
        child)
      (hNot : .enter part.id ∉ visits log)
      (hSubset : checks symbols child ⊆ log) : False :=
    hNot (List.map_subset _ hSubset
      (hStoring.entered hOperand.mem))
  induction hHalted with
  | entering => simp [visits] at hBegun
  | leaving hKept _ _ =>
      exfalso
      apply hWalked hStoring hNot
      rw [checks_of_kept hKept]
      exact List.Subset.refl _
  | within hKept _ hHalted ih =>
      rcases hStoring.below_of_kept hKept with
        ⟨other, hOther, hBelow⟩
      rw [Placed.ids_node] at hNodup
      rcases place_of_begun hNodup hOther hBelow.mem_ids.1
          hBegun hHalted.passed_subset with
        hFront | ⟨rfl, hBegun'⟩
      · exfalso
        apply hWalked hBelow hNot
        intro check hCheck
        simp [checks_subset hFront hCheck]
      · have hChild := Placed.nodup_ids_of_mem
          (List.nodup_cons.mp hNodup).2 hOther
        exact (ih hChild hBelow hBegun'
          (not_visited_of_subset (by simp) hNot)).deeper
            (by simp)
  | stored hStored hFresh hCall hArguments _ hHalted ih =>
      rcases hStoring.of_stored hStored with
        ⟨rfl, rfl, rfl, rfl⟩ | ⟨other, hOther, hBelow⟩
      · apply hangs_of_not_entered hHalted hFresh hCall
        · rw [← hArguments]
          exact hOperand.argument
        · rw [id_retainIf]
          exact not_visited_of_subset (by simp) hNot
      · rcases mem_operands hOther with ⟨marked, hIts⟩
        have hThere := (@storing_retainIf symbols id target
          operands value other marked).mpr hBelow
        have hArgument := hIts.argument
        have hApart := nodup_arguments hNodup
        rw [hArguments] at hArgument hApart
        rcases place_of_begun hApart hArgument
            hThere.mem_ids.1 hBegun hHalted.passed_subset with
          hFront | ⟨hIs, hBegun'⟩
        · exfalso
          apply hWalked hThere hNot
          intro check hCheck
          simp [checks_subset hFront hCheck]
        · rw [hIs] at hThere hArgument
          have hChild := Placed.nodup_ids_of_mem
            (List.nodup_cons.mp hApart).2 hArgument
          exact (ih hChild hThere hBegun'
            (not_visited_of_subset (by simp) hNot)).deeper
              (by simp)

/-
  The node that the walk was refused at is still there, and it
  can be seen there what is wrong with it.
-/
theorem failing
    (hHalted : Halted symbols later size passed check old new) :
    ∃ kept now,
      kept.id = check.visit.node ∧
        now.id = check.visit.node ∧
        now.label = kept.label ∧
        shownFlaw? later now.label now.children check.visit =
          check.flaw? ∧
        Keeps symbols size passed old new kept now := by
  induction hHalted with
  | @entering id label children =>
      exact ⟨.node id label children, .node id label children,
        rfl, rfl, rfl, rfl, .top rfl rfl⟩
  | @leaving id label children news _ _ hShown =>
      exact ⟨.node id label children, .node id label news,
        rfl, rfl, rfl, hShown, .top rfl rfl⟩
  | within hKept hLength _ ih =>
      rcases ih with
        ⟨kept, now, hKeptId, hNowId, hSame, hShown, hKeeps⟩
      exact ⟨kept, now, hKeptId, hNowId, hSame, hShown,
        hKeeps.within hKept hLength
          (List.subset_append_right _ _)⟩
  | stored hStored hFresh hCall hArguments _ _ ih =>
      rcases ih with
        ⟨kept, now, hKeptId, hNowId, hSame, hShown, hKeeps⟩
      exact ⟨kept, now, hKeptId, hNowId, hSame, hShown,
        hKeeps.stored hStored hFresh hCall hArguments
          (by simp [visits, enterCheck])
          (List.subset_append_right _ _)⟩

end Halted

end Halted

end Arrays

end Lowering
