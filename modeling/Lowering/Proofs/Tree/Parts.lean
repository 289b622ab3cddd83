import Lowering.Proofs.Tree.Kind

/-
  This file proves that the ways to the children of a kind
  agree. A traversal passes the parts of a kind one after the
  other, each a single child or a named list. The children are
  what the parts hold, and no two parts have one name.

  Each list is therefore a segment of the children, apart from
  the segments of other lists, and what is appended to a list
  comes right behind its segment.

  Key definitions include:
    * `NodeKind.bare`
    * `NodeKind.places`
    * `NodeKind.Part`
    * `NodeKind.parts`
    * `NodeKind.editable?`
    * `NodeKind.start`

  Main results:
    * `NodeKind.mapM_eq`
    * `NodeKind.children_eq_parts`
    * `NodeKind.list?_eq_editable?`
    * `NodeKind.parts_append`
    * `NodeKind.segment_append`
    * `NodeKind.segments_apart`
-/

namespace Lowering

namespace NodeKind

variable {α : Type}

------------------------------------------------------------
-- What Is No Child
------------------------------------------------------------

/-
  A kind with its children and their places left out: its
  variant, and whatever it holds beside children.
-/
def bare (kind : NodeKind α) : NodeKind Unit :=
  match kind.shape with
  | compilationUnit _ _ => compilationUnit none []
  | packageDeclaration _ _ _ => packageDeclaration none [] ()
  | enumDeclaration _ _ _ _ _ =>
    enumDeclaration none [] () [] []
  | enumConstantDeclaration _ _ _ =>
    enumConstantDeclaration [] () []
  | methodDeclaration _ _ _ _ _ =>
    methodDeclaration none [] () [] none
  | variableDeclaration _ _ => variableDeclaration () none
  | block _ => block []
  | returnStatement _ => returnStatement none
  | arrayCreation _ _ retained => arrayCreation [] none retained
  | arrayInitializer _ => arrayInitializer []
  | classInstanceCreation _ retained =>
    classInstanceCreation [] retained
  | methodInvocation _ _ => methodInvocation none []
  | functionInvocation function _ retained =>
    functionInvocation function [] retained
  | other => other

theorem bare_of_shape
    {first second : NodeKind α}
    (hShape : first.shape = second.shape) :
    first.bare = second.bare := by
  unfold bare
  rw [hShape]

/- Appending changes nothing that is no child. -/
theorem bare_append
    (kind : NodeKind α)
    (slot : ListSlot)
    (child : α) :
    (kind.append slot child).bare = kind.bare := by
  cases kind <;> rfl

------------------------------------------------------------
-- Places
------------------------------------------------------------

/- Write down a child that is passed, and leave it there. -/
def noteChild (child : α) : StateM (List α) α :=
  modifyGet fun passed => (child, passed ++ [child])

/- The children in the places of a kind, as they are passed. -/
def places (kind : NodeKind α) : List α :=
  (Id.run ((kind.mapM noteChild).run [])).2

/-
  Going through the places of a kind, whatever is done there,
  is going through its children and putting what comes out
  into the kind.
-/
theorem mapM_eq
    {m : Type → Type}
    [Monad m] [LawfulMonad m]
    (kind : NodeKind α)
    (act : α → m α) :
    kind.mapM act = do
      return kind.withChildren (← kind.children.mapM act) := by
  rw [← bind_pure (kind.mapM act)]
  apply kind.bind_mapM
  intro filled hShape
  have hLength := length_children_of_shape hShape
  have hFilled :
      filled = kind.withChildren filled.children := by
    apply eq_of_shape
    · rw [shape_withChildren _ hLength, hShape]
    · rw [children_withChildren _ hLength]
  rw [← hFilled]

private theorem run_noteChildren (items passed : List α) :
    (items.mapM noteChild).run passed =
      pure (items, passed ++ items) := by
  induction items generalizing passed with
  | nil =>
      rw [List.mapM_nil, List.append_nil]
      rfl
  | cons item items ih =>
      have hHead : (noteChild item).run passed =
          pure (item, passed ++ [item]) := rfl
      simp only [List.mapM_cons, StateT.run_bind, hHead,
        pure_bind, ih, StateT.run_pure, List.append_assoc,
        List.cons_append, List.nil_append]

/- The places hold the children in their order. -/
theorem places_eq_children (kind : NodeKind α) :
    kind.places = kind.children := by
  rw [places, mapM_eq, StateT.run_bind, run_noteChildren,
    pure_bind]
  rfl

------------------------------------------------------------
-- Parts
------------------------------------------------------------

/- What a traversal passes at once. -/
inductive Part (α : Type)
  | single (child : α)
  | list (name : ListSlot) (items : List α)
  deriving DecidableEq, Repr

namespace Part

/- The children in a part. -/
def items : Part α → List α
  | single child => [child]
  | list _ items => items

/- The name of a part, if it is a list. -/
def name? : Part α → Option ListSlot
  | single _ => none
  | list name _ => some name

/- What a part holds if it is the list with a given name. -/
def listNamed? (slot : ListSlot) : Part α → Option (List α)
  | single _ => none
  | list name items => if name = slot then some items else none

/- A part after an appending to the list with a given name. -/
def append (slot : ListSlot) (child : α) : Part α → Part α
  | single other => single other
  | list name items =>
    list name (if name = slot then items ++ [child] else items)

section Reading

variable (slot name : ListSlot)
variable (child other : α)
variable (items : List α)

@[simp] theorem items_single :
    (single child).items = [child] := rfl

@[simp] theorem items_list :
    (list name items).items = items := rfl

@[simp] theorem name?_single :
    (single child).name? = none := rfl

@[simp] theorem name?_list :
    (list name items).name? = some name := rfl

@[simp] theorem listNamed?_single :
    (single child).listNamed? slot = none := rfl

@[simp] theorem listNamed?_list :
    (list name items).listNamed? slot =
      if name = slot then some items else none := rfl

@[simp] theorem append_single :
    (single other).append slot child = single other := rfl

@[simp] theorem append_list :
    (list name items).append slot child =
      list name
        (if name = slot then items ++ [child] else items) := rfl

end Reading

theorem listNamed?_eq_some_iff
    {slot : ListSlot}
    {items : List α}
    {part : Part α} :
    part.listNamed? slot = some items ↔
      part = .list slot items := by
  cases part with
  | single child => simp
  | list name found =>
      by_cases hEq : name = slot <;> simp [hEq]

theorem listNamed?_eq_none_iff
    {slot : ListSlot}
    {part : Part α} :
    part.listNamed? slot = none ↔
      part.name? ≠ some slot := by
  cases part <;> simp

/- Appending to a list leaves other parts as they are. -/
theorem append_of_ne
    {slot : ListSlot}
    {part : Part α}
    (child : α)
    (hName : part.name? ≠ some slot) :
    part.append slot child = part := by
  cases part with
  | single other => rfl
  | list name items =>
      have hNe : name ≠ slot := fun hEq =>
        hName (congrArg some hEq)
      rw [append_list, if_neg hNe]

theorem listNamed?_append
    (slot other : ListSlot)
    (child : α)
    (part : Part α) :
    (part.append slot child).listNamed? other =
      (part.listNamed? other).map fun items =>
        if other = slot then items ++ [child] else items := by
  cases part with
  | single _ => rfl
  | list name items =>
      by_cases hEq : name = other <;> simp [hEq]

end Part

/- Write down a part that is passed, and leave it there. -/
def noteSingle (child : α) : StateM (List (Part α)) α :=
  modifyGet fun passed => (child, passed ++ [.single child])

def noteList
    (name : ListSlot)
    (items : List α) : StateM (List (Part α)) (List α) :=
  modifyGet fun passed => (items, passed ++ [.list name items])

/- The parts of a kind, as they are passed. -/
def parts (kind : NodeKind α) : List (Part α) :=
  (Id.run ((kind.traverse noteSingle noteList).run [])).2

/- The child list that is passed under a name, if any. -/
def editable?
    (slot : ListSlot)
    (kind : NodeKind α) : Option (List α) :=
  kind.parts.findSome? (Part.listNamed? slot)

/- How many children are passed before the list with a name. -/
def start (slot : ListSlot) (kind : NodeKind α) : Nat :=
  ((kind.parts.takeWhile (·.name? ≠ some slot)).flatMap
    Part.items).length

section Noting

variable (passed : List (Part α))

private theorem run_noteSingle (child : α) :
    (noteSingle child).run passed =
      pure (child, passed ++ [.single child]) := rfl

private theorem run_noteList
    (name : ListSlot)
    (items : List α) :
    (noteList name items).run passed =
      pure (items, passed ++ [.list name items]) := rfl

private theorem run_noteOption (item : Option α) :
    (item.mapM noteSingle).run passed =
      pure (item, passed ++ item.toList.map .single) := by
  cases item with
  | none => simp
  | some child => simp [run_noteSingle]

end Noting

/- A child that may be missing, read as parts. -/
@[simp] private theorem flatMap_items_singles (item : Option α) :
    (item.toList.map Part.single).flatMap Part.items =
      item.toList := by
  cases item <;> rfl

@[simp] private theorem findSome?_singles
    (item : Option α)
    (slot : ListSlot) :
    (item.toList.map Part.single).findSome?
      (Part.listNamed? slot) = none := by
  cases item <;> rfl

@[simp] private theorem filterMap_name?_singles
    (item : Option α) :
    item.toList.filterMap (Part.name? ∘ Part.single) = [] := by
  cases item <;> rfl

/- The children of a kind are what its parts hold. -/
theorem children_eq_parts (kind : NodeKind α) :
    kind.children = kind.parts.flatMap Part.items := by
  cases kind <;>
    simp [parts, traverse, run_noteSingle, run_noteList,
      run_noteOption, children]

/- The lists of a kind are those that are passed. -/
theorem list?_eq_editable?
    (kind : NodeKind α)
    (slot : ListSlot) :
    kind.list? slot = kind.editable? slot := by
  cases kind
  all_goals
    simp only [editable?, parts, traverse, StateT.run_bind,
      StateT.run_pure, run_noteSingle, run_noteList,
      run_noteOption, pure_bind, Id.run_pure,
      List.findSome?_append, findSome?_singles]
    cases slot <;> rfl

/- No two lists of a kind are passed under one name. -/
theorem nodup_names (kind : NodeKind α) :
    (kind.parts.filterMap Part.name?).Nodup := by
  cases kind <;>
    simp [parts, traverse, run_noteSingle, run_noteList,
      run_noteOption, List.filterMap_cons]

/- Appending changes the part with the name, and no other. -/
theorem parts_append
    (kind : NodeKind α)
    (slot : ListSlot)
    (child : α) :
    (kind.append slot child).parts =
      kind.parts.map (Part.append slot child) := by
  cases kind
  case compilationUnit package _ => cases package <;> rfl
  case packageDeclaration doc _ _ => cases doc <;> rfl
  case enumDeclaration doc _ _ _ _ => cases doc <;> rfl
  case methodDeclaration doc _ _ _ body =>
      cases doc <;> cases body <;> rfl
  case variableDeclaration _ initializer =>
      cases initializer <;> rfl
  case returnStatement expression => cases expression <;> rfl
  case arrayCreation _ initializer _ =>
      cases initializer <;> rfl
  case methodInvocation receiver _ => cases receiver <;> rfl
  all_goals rfl

/- Appending extends the list with the name, and no other. -/
theorem list?_append
    (kind : NodeKind α)
    (slot other : ListSlot)
    (child : α) :
    (kind.append slot child).list? other =
      (kind.list? other).map fun items =>
        if other = slot then items ++ [child] else items := by
  simp only [list?_eq_editable?, editable?, parts_append,
    List.findSome?_map, List.map_findSome?]
  congr 1
  funext part
  exact part.listNamed?_append slot other child

------------------------------------------------------------
-- Segments
------------------------------------------------------------

/- A list among the parts of a kind. -/
private structure SplitAt
    (kind : NodeKind α)
    (slot : ListSlot)
    (items : List α)
    (front back : List (Part α)) : Prop where
  parts : kind.parts = front ++ .list slot items :: back
  front : ∀ part ∈ front, part.name? ≠ some slot
  back : ∀ part ∈ back, part.name? ≠ some slot

section Segments

variable {kind : NodeKind α}
variable {slot other : ListSlot}
variable {items others : List α}
variable {front back front' back' : List (Part α)}

private theorem exists_splitAt
    (hList : kind.list? slot = some items) :
    ∃ front back, SplitAt kind slot items front back := by
  rw [list?_eq_editable?, editable?,
    List.findSome?_eq_some_iff] at hList
  rcases hList with ⟨front, part, back, hParts, hPart, hFront⟩
  rw [Part.listNamed?_eq_some_iff] at hPart
  subst hPart
  refine ⟨front, back, hParts, ?_, ?_⟩
  · intro part hMem
    exact Part.listNamed?_eq_none_iff.mp (hFront part hMem)
  · intro part hMem hName
    have hNodup := kind.nodup_names
    rw [hParts, List.filterMap_append,
      List.filterMap_cons_some (Part.name?_list slot items)]
      at hNodup
    have hOnce := List.nodup_cons.mp
      (List.nodup_append.mp hNodup).2.1
    exact hOnce.1 (List.mem_filterMap.mpr ⟨part, hMem, hName⟩)

private theorem SplitAt.start
    (hSplit : SplitAt kind slot items front back) :
    kind.start slot = (front.flatMap Part.items).length := by
  have hBefore :
      kind.parts.takeWhile (·.name? ≠ some slot) = front := by
    rw [hSplit.parts, List.takeWhile_append_of_pos]
    · simp
    · intro part hMem
      exact decide_eq_true (hSplit.front part hMem)
  rw [NodeKind.start, hBefore]

private theorem SplitAt.children
    (hSplit : SplitAt kind slot items front back) :
    kind.children =
      front.flatMap Part.items ++ items ++
        back.flatMap Part.items := by
  rw [children_eq_parts, hSplit.parts, List.flatMap_append,
    List.flatMap_cons, Part.items_list, List.append_assoc]

private theorem SplitAt.append
    (hSplit : SplitAt kind slot items front back)
    (child : α) :
    SplitAt (kind.append slot child) slot (items ++ [child])
      front back := by
  have hKept {parts : List (Part α)}
      (hNames : ∀ part ∈ parts, part.name? ≠ some slot) :
      parts.map (Part.append slot child) = parts := by
    rw [← List.map_id parts, List.map_map]
    apply List.map_congr_left
    intro part hMem
    exact part.append_of_ne child (hNames part hMem)
  refine ⟨?_, hSplit.front, hSplit.back⟩
  rw [parts_append, hSplit.parts, List.map_append,
    List.map_cons, hKept hSplit.front, hKept hSplit.back,
    Part.append_list, if_pos rfl]

/-
  A list is a segment of the children, and what is appended to
  it comes right behind the segment.
-/
theorem segment_append (hList : kind.list? slot = some items) :
    ∃ ahead behind,
      ahead.length = kind.start slot ∧
        kind.children = ahead ++ items ++ behind ∧
        ∀ child, (kind.append slot child).children =
          ahead ++ items ++ child :: behind := by
  rcases exists_splitAt hList with ⟨front, back, hSplit⟩
  refine ⟨_, _, hSplit.start.symm, hSplit.children, ?_⟩
  intro child
  rw [(hSplit.append child).children]
  simp only [List.append_assoc, List.cons_append,
    List.nil_append]

private theorem SplitAt.start_le
    {middle : List (Part α)}
    (hSplit : SplitAt kind slot items front back)
    (hOther : SplitAt kind other others front' back')
    (hFront : front' = front ++ .list slot items :: middle) :
    kind.start slot + items.length ≤ kind.start other := by
  rw [hSplit.start, hOther.start, hFront]
  simp only [List.flatMap_append, List.flatMap_cons,
    List.length_append, Part.items_list]
  omega

/- Of two lists, one ends before the other begins. -/
theorem segments_apart
    (hNe : slot ≠ other)
    (hList : kind.list? slot = some items)
    (hOther : kind.list? other = some others) :
    kind.start slot + items.length ≤ kind.start other ∨
      kind.start other + others.length ≤ kind.start slot := by
  rcases exists_splitAt hList with ⟨front, back, hSplit⟩
  rcases exists_splitAt hOther with ⟨front', back', hSplit'⟩
  have hParts := hSplit.parts.symm.trans hSplit'.parts
  rcases List.append_eq_append_iff.mp hParts with
    ⟨middle, hFront, hBack⟩ | ⟨middle, hFront, hBack⟩
  · cases middle with
    | nil => simp [hNe] at hBack
    | cons part middle =>
        left
        injection hBack with hPart
        subst hPart
        exact hSplit.start_le hSplit' hFront
  · cases middle with
    | nil => simp [hNe.symm] at hBack
    | cons part middle =>
        right
        injection hBack with hPart
        subst hPart
        exact hSplit'.start_le hSplit hFront

end Segments

/- Appending to a child list adds one child, and only that. -/
theorem perm_children_append
    (kind : NodeKind α)
    (slot : ListSlot)
    (child : α)
    (hSlot : (kind.list? slot).isSome) :
    (kind.append slot child).children.Perm
      (child :: kind.children) := by
  rcases Option.isSome_iff_exists.mp hSlot with ⟨items, hList⟩
  rcases segment_append hList with
    ⟨ahead, behind, _, hChildren, hAppended⟩
  rw [hChildren, hAppended]
  exact List.perm_middle

/- What is among the children after an appending. -/
theorem mem_children_append
    (kind : NodeKind α)
    (slot : ListSlot)
    (child item : α)
    (hSlot : (kind.list? slot).isSome) :
    item ∈ (kind.append slot child).children ↔
      item ∈ kind.children ∨ item = child := by
  rw [(perm_children_append kind slot child hSlot).mem_iff,
    List.mem_cons]
  exact or_comm

end NodeKind

end Lowering
