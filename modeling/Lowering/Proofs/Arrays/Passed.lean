import Lowering.Proofs.Arrays.Passage

/-
  This file follows the operands of constructs through a whole
  subtree, from where they were to where they are passed on to.

  Every place of the new subtree is the root of a passage or
  was made for one, and every place of the old subtree is the
  root of a passage, unless it was left behind. What is passed
  on is assigned to where it stands just as it was before.

  Key definitions include:
    * `Arrays.Leads`
    * `Arrays.Passage.Stands`

  Main results:
    * `Arrays.Form.perm_old`
    * `Arrays.Form.perm_new`
    * `Arrays.passed_on_or_left`
    * `Arrays.passed_on_or_made`
    * `Arrays.Leads.stands`
-/

namespace Lowering

namespace Arrays

open Symbols

------------------------------------------------------------
-- Accounts
------------------------------------------------------------

open Placed (idsAll)

section Accounts

variable {symbols : Symbols}
variable {table : BindingTable}
variable {options : Options}
variable {whole : Passage}
variable {parts : List Passage}
variable {made : List Placed}
variable {lost : List NodeId}

/- What looks like a leaf has one place. -/
private theorem ids_of_leaf
    {placed : Placed}
    {label : Label}
    (hView : placed.view = .node label []) :
    placed.ids = [placed.id] := by
  rcases Placed.eq_of_view hView with ⟨id, below, rfl, hNone⟩
  rw [List.map_eq_nil_iff] at hNone
  subst hNone
  simp

/- The places of a call are those of what it is made of. -/
private theorem FactoryCall.perm_ids
    {factory : Factory}
    {arguments : List Placed}
    {call : Placed}
    (hCalls : FactoryCall factory arguments call made) :
    call.ids.Perm
      (call.id ::
        (made.map (·.id) ++ idsAll arguments)) := by
  cases hCalls with
  | plain _ hReceiver =>
      simp [ids_of_leaf hReceiver]
  | typed _ hReceiver hLast =>
      simp only [Placed.ids_node, Placed.id_node,
        Placed.idsAll_cons, Placed.idsAll_append,
        Placed.idsAll_nil, ids_of_leaf hReceiver,
        ids_of_leaf hLast, List.map_cons, List.map_nil,
        List.append_nil, List.cons_append, List.nil_append]
      exact ((List.perm_append_singleton _ _).cons _).cons _

/- The places of an initializer are what it lists and more. -/
private theorem perm_initializer (initializer : Placed) :
    initializer.ids.Perm
      (idsAll (expressions initializer) ++
        around initializer) := by
  rcases initializer with ⟨id, label, children⟩
  unfold expressions around
  simp only [Placed.label_node, Placed.children_node,
    Placed.id_node]
  split
  · rw [Placed.ids_node]
    exact (List.perm_append_singleton _ _).symm
  · simp

/- All old places are passed on, but for those left behind. -/
theorem Form.perm_old
    (hForm : Form symbols table options whole parts made lost) :
    whole.old.ids.Perm
      (whole.old.id ::
        (idsAll (parts.map (·.old)) ++ lost)) := by
  cases hForm with
  | kept _ _ hPassed =>
      simp [map_old_along _ hPassed.length_eq]
  | stored _ _ hPassed _ =>
      simp only [List.map_append,
        map_old_along _ hPassed.length_eq, List.map_singleton,
        Placed.ids_node, Placed.id_node, Placed.idsAll_append,
        Placed.idsAll_cons, Placed.idsAll_nil, List.append_nil,
        List.cons_append]
      exact (List.perm_append_singleton _ _).symm.cons _
  | read _ _ _ hPassed =>
      simp [map_old_along _ hPassed.length_eq]
  | pointer _ _ _ hPassed =>
      simp [map_old_along _ hPassed.length_eq]
  | length _ _ _ hPassed =>
      simp [map_old_along _ hPassed.length_eq]
  | lengths _ _ _ _ _ hPassed =>
      simp [map_old_along _ hPassed.length_eq]
  | @elements _ _ _ _ _ _ _ _ lengths _ initializer _ _ _ _ _
      _ _ _ _ hPassed =>
      simp only [map_old_along _ hPassed.length_eq,
        Placed.ids_node, Placed.id_node, Placed.idsAll_append,
        Placed.idsAll_cons, Placed.idsAll_nil, List.append_nil]
      refine List.Perm.cons _ (List.Perm.trans
        ((perm_initializer initializer).append_left _) ?_)
      rw [← List.append_assoc, ← List.append_assoc]
      exact List.perm_append_comm.append_right _
  | size _ _ _ _ _ hPassed =>
      simp [map_old_along _ hPassed.length_eq]
  | test _ _ _ _ _ hPassed =>
      simp [map_old_along _ hPassed.length_eq]

/- All new places are from what is passed on, or are made. -/
theorem Form.perm_new
    (hForm : Form symbols table options whole parts made lost) :
    whole.new.ids.Perm
      (whole.new.id ::
        (made.map (·.id) ++
          idsAll (parts.map (·.new)))) := by
  cases hForm with
  | kept _ _ hPassed =>
      simp [map_new_along _ hPassed.length_eq]
  | stored _ _ hPassed _ =>
      simp [map_new_along _ hPassed.length_eq]
  | read _ _ _ hPassed =>
      simp [map_new_along _ hPassed.length_eq]
  | pointer _ _ _ hPassed =>
      simp [map_new_along _ hPassed.length_eq]
  | length _ _ _ hPassed hCalls =>
      rw [map_new_along _ hPassed.length_eq]
      exact hCalls.perm_ids
  | lengths _ _ _ _ _ hPassed hCount _ hCalls =>
      rw [map_new_along _ hPassed.length_eq]
      apply hCalls.perm_ids.trans
      simp only [Placed.idsAll_cons, Placed.ids_node,
        Placed.idsAll_nil, Placed.id_node, ids_of_leaf hCount,
        List.map_cons, List.append_nil, List.cons_append,
        List.nil_append]
      exact (List.perm_middle.trans
        (List.perm_middle.cons _)).cons _
  | elements _ _ _ _ hPassed hCount _ hCalls =>
      rw [map_new_along _ hPassed.length_eq]
      apply hCalls.perm_ids.trans
      simp only [Placed.idsAll_cons, Placed.ids_node,
        Placed.idsAll_nil, Placed.id_node, ids_of_leaf hCount,
        List.map_cons, List.append_nil, List.cons_append]
      refine List.Perm.cons _ (List.perm_middle.trans
        (List.Perm.cons _ ?_))
      rw [← List.append_assoc]
      exact List.perm_append_singleton _ _
  | size _ _ _ _ _ hPassed hField =>
      simp [map_new_along _ hPassed.length_eq, ids_of_leaf hField]
  | test _ _ _ _ _ hPassed hObject =>
      simp [map_new_along _ hPassed.length_eq, ids_of_leaf hObject]

/- The arguments of a call follow each other below it. -/
private theorem FactoryCall.split
    {factory : Factory}
    {arguments made : List Placed}
    {call : Placed}
    (hCalls : FactoryCall factory arguments call made) :
    ∃ id label children front back,
      call = .node id label children ∧
        label.shape.assignsFirst = false ∧
        children = front ++ arguments ++ back := by
  cases hCalls with
  | @plain _ receiver _ _ =>
      exact ⟨_, _, _, [receiver], [], rfl, rfl, by simp⟩
  | @typed _ receiver last _ _ _ _ =>
      exact ⟨_, _, _, [receiver], [last], rfl, rfl, by simp⟩

/- The nodes around the arguments of a call are leaves of it. -/
private theorem FactoryCall.leaf_of_made
    {factory : Factory}
    {arguments : List Placed}
    {call node : Placed}
    (hCalls : FactoryCall factory arguments call made)
    (hMem : node ∈ made) :
    node ∈ call.children ∧
      node.label.shape.tag ∈
        [.simpleName, .typeLiteral, .arrayInitializer,
          .numberLiteral] := by
  cases hCalls with
  | plain _ hReceiver =>
      rw [List.mem_singleton] at hMem
      subst hMem
      refine ⟨List.mem_cons_self, ?_⟩
      rw [← Placed.label_view, hReceiver]
      simp [ClassName.view, View.label, NodeKind.tag]
  | typed _ hReceiver hLast =>
      rcases List.mem_pair.mp hMem with rfl | rfl
      · refine ⟨List.mem_cons_self, ?_⟩
        rw [← Placed.label_view, hReceiver]
        simp [ClassName.view, View.label, NodeKind.tag]
      · refine ⟨by simp, ?_⟩
        rw [← Placed.label_view, hLast]
        simp [ClassObject.view, View.label, NodeKind.tag]

/- What the list of a call shows, and the number beside it. -/
private theorem shape_of_list
    {id : NodeId}
    {label : Label}
    {children lowered : List Placed}
    {ty : TypeId}
    (hView : (Placed.node id label children).view =
      listView ty (lowered.map (·.view))) :
    label.shape.tag = .arrayInitializer ∧
      label.shape.assignsFirst = false := by
  have hLabel := congrArg View.label hView
  rw [Placed.view_node, View.label] at hLabel
  rw [hLabel]
  exact ⟨rfl, rfl⟩

private theorem tag_of_number
    {placed : Placed}
    {value : Int}
    {ty : TypeId}
    (hView : placed.view = numberView value ty) :
    placed.label.shape.tag = .numberLiteral := by
  rw [← Placed.label_view, hView]
  rfl

private theorem FactoryCall.holds_made
    {tree : Tree}
    {factory : Factory}
    {arguments : List Placed}
    {call node : Placed}
    (hCalls : FactoryCall factory arguments call made)
    (hHolds : tree.Holds call)
    (hMem : node ∈ made) :
    tree.Holds node ∧
      node.label.shape.tag ∈
        [.simpleName, .typeLiteral, .arrayInitializer,
          .numberLiteral] := by
  rcases call with ⟨id, label, children⟩
  exact (hCalls.leaf_of_made hMem).imp_left hHolds.child

/-
  What is made beside a new root lies below it, and is a list,
  a number, a name or a class object. Only below a pointer, it
  is a call.
-/
theorem Form.holds_made
    {tree : Tree}
    {node : Placed}
    (hForm : Form symbols table options whole parts made lost)
    (hHolds : tree.Holds whole.new)
    (hMem : node ∈ made) :
    tree.Holds node ∧
      (node.label.shape.tag ∈
          [.simpleName, .typeLiteral, .arrayInitializer,
            .numberLiteral] ∨
        ∃ function count,
          node.label.shape =
              .functionInvocation function count false ∧
            whole.new.label.shape =
              .prefixOperation .dereference () ∧
            whole.new.children = [node]) := by
  cases hForm with
  | kept => exact absurd hMem (by simp)
  | stored => exact absurd hMem (by simp)
  | read => exact absurd hMem (by simp)
  | pointer =>
      rw [List.mem_singleton] at hMem
      subst hMem
      exact ⟨hHolds.child List.mem_cons_self,
        Or.inr ⟨_, _, rfl, rfl, rfl⟩⟩
  | length _ _ _ _ hCalls =>
      exact (hCalls.holds_made hHolds hMem).imp_right Or.inl
  | @lengths _ _ _ _ _ _ _ _ _ lowered count call _ _ _ _ _ _ _
      _ _ hCount hView hCalls =>
      rcases hCalls.split with
        ⟨_, _, _, front, back, rfl, _, rfl⟩
      rcases List.mem_cons.mp hMem with rfl | hMem
      · exact ⟨hHolds.child (by simp),
          Or.inl (by simp [tag_of_number hCount])⟩
      rcases List.mem_cons.mp hMem with rfl | hMem
      · exact ⟨hHolds.child (by simp),
          Or.inl (by simp [(shape_of_list hView).1])⟩
      · exact (hCalls.holds_made hHolds hMem).imp_right Or.inl
  | elements _ _ _ _ _ hCount hView hCalls =>
      rcases hCalls.split with
        ⟨_, _, _, front, back, rfl, _, rfl⟩
      rcases List.mem_cons.mp hMem with rfl | hMem
      · exact ⟨hHolds.child (by simp),
          Or.inl (by simp [(shape_of_list hView).1])⟩
      rcases List.mem_cons.mp hMem with rfl | hMem
      · exact ⟨hHolds.child (by simp),
          Or.inl (by simp [tag_of_number hCount])⟩
      · exact (hCalls.holds_made hHolds hMem).imp_right Or.inl
  | size _ _ _ _ _ _ hField =>
      rw [List.mem_singleton] at hMem
      subst hMem
      refine ⟨hHolds.child (by simp), Or.inl ?_⟩
      rw [← Placed.label_view, hField]
      simp [View.label, NodeKind.tag]
  | test _ _ _ _ _ _ hObject =>
      rw [List.mem_singleton] at hMem
      subst hMem
      refine ⟨hHolds.child (by simp), Or.inl ?_⟩
      rw [← Placed.label_view, hObject]
      simp [ClassObject.view, View.label, NodeKind.tag]

/- What is passed on was lowered itself. -/
theorem Form.valid
    (hForm : Form symbols table options whole parts made lost)
    {part : Passage}
    (hMem : part ∈ parts) :
    part.Valid symbols table options := by
  cases hForm with
  | kept _ _ hPassed => exact hPassed.valid part hMem
  | stored _ _ hPassed hValue =>
      rcases List.mem_append.mp hMem with hMem | hMem
      · exact hPassed.valid part hMem
      · rw [List.mem_singleton] at hMem
        rw [hMem]
        exact hValue
  | read _ _ _ hPassed => exact hPassed.valid part hMem
  | pointer _ _ _ hPassed => exact hPassed.valid part hMem
  | length _ _ _ hPassed => exact hPassed.valid part hMem
  | lengths _ _ _ _ _ hPassed => exact hPassed.valid part hMem
  | elements _ _ _ _ hPassed => exact hPassed.valid part hMem
  | size _ _ _ _ _ hPassed => exact hPassed.valid part hMem
  | test _ _ _ _ _ hPassed => exact hPassed.valid part hMem

end Accounts

------------------------------------------------------------
-- Standing Passages
------------------------------------------------------------

/-
  A passage stands where both of its subtrees stand and are
  assigned to as it tells.
-/
structure Passage.Stands
    (before after : Tree)
    (passage : Passage) : Prop where
  old : before.Standing passage.old
  new : after.Standing passage.new
  old_assigned : before.isAssigned passage.old.id =
    .ok passage.assigned
  new_assigned : after.isAssigned passage.new.id =
    .ok passage.assigned

section Standing

variable {symbols : Symbols}
variable {table : BindingTable}
variable {options : Options}
variable {before after : Tree}
variable {id id' : NodeId}
variable {label label' : Label}

/-
  Operands stand, old and new, where they follow each other
  below nodes that assign to the first of them or to none.
-/
private theorem stands_along
    {first : Bool}
    {all all' olds news : List Placed}
    (front back front' back' : List Placed)
    (hOld : before.Standing (.node id label all))
    (hNew : after.Standing (.node id' label' all'))
    (hAll : all = front ++ olds ++ back)
    (hAll' : all' = front' ++ news ++ back')
    (hFirst : first =
      (label.shape.assignsFirst && front.isEmpty))
    (hFirst' : first =
      (label'.shape.assignsFirst && front'.isEmpty))
    {part : Passage}
    (hMem : part ∈ along first olds news) :
    part.Stands before after := by
  induction olds generalizing first news front front' with
  | nil => exact absurd hMem (by simp [along])
  | cons old olds ih =>
      rcases news with _ | ⟨new, news⟩
      · exact absurd hMem (by simp [along])
      · rw [List.append_assoc, List.cons_append] at hAll hAll'
        rcases List.mem_cons.mp hMem with rfl | hMem
        · subst hAll hAll'
          refine ⟨hOld.child (by simp), hNew.child (by simp),
            ?_, ?_⟩
          · rw [hOld.isAssigned_child, hFirst]
          · rw [hNew.isAssigned_child, hFirst']
        · rw [List.append_cons, ← List.append_assoc]
            at hAll hAll'
          exact ih _ _ hAll hAll' (by simp) (by simp) hMem

/- Below nodes that assign to none, operands stand anywhere. -/
private theorem stands_along_false
    {all all' olds news : List Placed}
    (front back front' back' : List Placed)
    (hOld : before.Standing (.node id label all))
    (hNew : after.Standing (.node id' label' all'))
    (hAll : all = front ++ olds ++ back)
    (hAll' : all' = front' ++ news ++ back')
    (hFirst : label.shape.assignsFirst = false)
    (hFirst' : label'.shape.assignsFirst = false)
    {part : Passage}
    (hMem : part ∈ along false olds news) :
    part.Stands before after := by
  apply stands_along _ _ _ _ hOld hNew hAll hAll' _ _ hMem
  · rw [hFirst, Bool.false_and]
  · rw [hFirst', Bool.false_and]

/- What creates an array assigns to nothing. -/
private theorem assignsFirst_of_creation
    {handed marked : Bool}
    {dimensions : List Unit}
    {initializer : Option Unit}
    (hShape : (label.retainIf handed).shape =
      .arrayCreation dimensions initializer marked) :
    label.shape.assignsFirst = false := by
  rw [← label.assignsFirst_retainIf handed, hShape]
  rfl

/- What is made of a standing passage stands. -/
theorem Form.stands
    {whole part : Passage}
    {parts : List Passage}
    {made : List Placed}
    {lost : List NodeId}
    (hForm : Form symbols table options whole parts made lost)
    (hStands : whole.Stands before after)
    (hMem : part ∈ parts) :
    part.Stands before after := by
  have hOld := hStands.old
  have hNew := hStands.new
  cases hForm with
  | @kept assigned handed id id' label children lowered _ _ _ =>
      apply stands_along [] [] [] [] hOld hNew (by simp)
        (by simp) (by simp) _ hMem
      rw [label.assignsFirst_retainIf handed]
      simp
  | @stored assigned handed id id' target label outer operands
      lowered value last _ _ hStored _ _ _ =>
      rcases eq_of_stored? hStored with
        ⟨_, _, hPair, _, hOuter, _, _⟩
      cases hPair
      have hNone : outer.shape.assignsFirst = false := by
        rw [View.label] at hOuter
        rw [hOuter]
        rfl
      rcases List.mem_append.mp hMem with hMem | hMem
      · exact stands_along_false [] [] [] [last]
          (hOld.child List.mem_cons_self) hNew (by simp)
          (by simp) hNone rfl hMem
      · rw [List.mem_singleton] at hMem
        subst hMem
        refine ⟨hOld.child (by simp), hNew.child (by simp),
          ?_, ?_⟩
        · have hHere : before.Standing (.node id label
              ([.node target outer operands] ++ value :: [])) :=
            hOld
          exact hHere.isAssigned_child.trans (by simp)
        · exact hNew.isAssigned_child.trans rfl
  | read hShape _ _ _ =>
      apply stands_along_false [] [] [] [] hOld hNew (by simp)
        (by simp) _ rfl hMem
      rw [hShape]
      rfl
  | pointer hShape _ _ _ =>
      apply stands_along_false [] [] [] [] hOld
        (hNew.child List.mem_cons_self) (by simp) (by simp) _
        rfl hMem
      rw [hShape]
      rfl
  | length hShape _ _ _ hCalls =>
      rcases hCalls.split with
        ⟨_, _, _, _, _, rfl, hFirst, hSplit⟩
      exact stands_along_false [] [] _ _ hOld hNew (by simp)
        hSplit (assignsFirst_of_creation hShape) hFirst hMem
  | @lengths assigned handed marked id list label listed
      dimensions lengths lowered count call made array factory
      hShape _ _ _ _ _ _ hList hCalls =>
      rcases hCalls.split with
        ⟨_, _, _, front, back, rfl, _, rfl⟩
      have hList' : after.Standing (.node list listed lowered) :=
        hNew.child (by simp)
      exact stands_along_false [] [] [] [] hOld hList'
        (by simp) (by simp) (assignsFirst_of_creation hShape)
        (shape_of_list hList).2 hMem
  | @elements assigned handed marked id list label listed
      dimensions lengths lowered initializer count call made
      array factory _ _ _ _ _ _ hList hCalls =>
      rcases hCalls.split with
        ⟨_, _, _, front, back, rfl, _, rfl⟩
      rcases initializer with ⟨inner, outer, children⟩
      unfold expressions at hMem
      simp only [Placed.label_node, Placed.children_node]
        at hMem
      split at hMem
      · next hShape =>
        have hInner : before.Standing
            (.node inner outer children) :=
          hOld.child (by simp)
        have hList' : after.Standing
            (.node list listed lowered) :=
          hNew.child (by simp)
        exact stands_along_false [] [] [] [] hInner hList'
          (by simp) (by simp) (by rw [hShape]; rfl)
          (shape_of_list hList).2 hMem
      · exact absurd hMem (by simp [along])
  | @size _ _ _ _ _ _ name _ field _ _ _ hShape _ _ _ _ _ _ =>
      apply stands_along_false [] [name] [] [field]
        hOld hNew (by simp) (by simp) _ rfl hMem
      rcases hShape with hShape | hShape <;> rw [hShape] <;> rfl
  | @test _ _ _ _ _ _ tested _ object _ _ _ hShape _ _ _ _ _
      _ =>
      apply stands_along_false [] [tested] [object] []
        hOld hNew (by simp) (by simp) _ rfl hMem
      rw [hShape]
      rfl

end Standing

------------------------------------------------------------
-- Passing On
------------------------------------------------------------

section Passing

variable (symbols : Symbols)
variable (table : BindingTable)
variable (options : Options)

/- A passage leads to those that are passed on within it. -/
inductive Leads : Passage → Passage → Prop
  | here (whole : Passage) : Leads whole whole
  | further
      {whole part last : Passage}
      {parts : List Passage}
      {made : List Placed}
      {lost : List NodeId}
      (form : Form symbols table options whole parts made lost)
      (listed : part ∈ parts)
      (leads : Leads part last) :
      Leads whole last

/- Within a passage, a place is left behind. -/
def LeftBehind (whole : Passage) (n : NodeId) : Prop :=
  ∃ part parts made lost,
    Leads symbols table options whole part ∧
      Form symbols table options part parts made lost ∧
      n ∈ lost

/- Within a passage, a node is made beside a new root. -/
def MadeBeside (whole : Passage) (node : Placed) : Prop :=
  ∃ part parts made lost,
    Leads symbols table options whole part ∧
      Form symbols table options part parts made lost ∧
      node ∈ made

variable {symbols} {table} {options}
variable {whole part last : Passage}
variable {parts : List Passage}
variable {made : List Placed}
variable {lost : List NodeId}

/- What is passed on has fewer places. -/
private theorem Form.length_lt
    (hForm : Form symbols table options whole parts made lost)
    (hMem : part ∈ parts) :
    part.old.ids.length < whole.old.ids.length ∧
      part.new.ids.length < whole.new.ids.length := by
  have hOld := hForm.perm_old.length_eq
  have hNew := hForm.perm_new.length_eq
  have hPartOld := Placed.length_ids_le_of_mem
    (List.mem_map_of_mem (f := (·.old)) hMem)
  have hPartNew := Placed.length_ids_le_of_mem
    (List.mem_map_of_mem (f := (·.new)) hMem)
  rw [List.length_cons, List.length_append] at hOld hNew
  omega

theorem Leads.valid
    (hLeads : Leads symbols table options whole last)
    (hValid : whole.Valid symbols table options) :
    last.Valid symbols table options := by
  induction hLeads with
  | here => exact hValid
  | further hForm hListed _ ih => exact ih (hForm.valid hListed)

/- What is led to stands where the whole stands. -/
theorem Leads.stands
    {before after : Tree}
    (hLeads : Leads symbols table options whole last)
    (hStands : whole.Stands before after) :
    last.Stands before after := by
  induction hLeads with
  | here => exact hStands
  | further hForm hListed _ ih =>
      exact ih (hForm.stands hStands hListed)

/- An old place is passed on, or it is left behind. -/
theorem passed_on_or_left
    {before after : Tree}
    (hStands : whole.Stands before after)
    (hValid : whole.Valid symbols table options)
    {n : NodeId}
    (hMem : n ∈ whole.old.ids) :
    (∃ part,
      Leads symbols table options whole part ∧
        part.old.id = n) ∨
      LeftBehind symbols table options whole n := by
  induction hSize : whole.old.ids.length
    using Nat.strong_induction_on generalizing whole with
  | _ size ih =>
      rcases form_of_valid hStands.old.holds hValid with
        ⟨parts, made, lost, hForm⟩
      rcases List.mem_cons.mp
          (hForm.perm_old.mem_iff.mp hMem) with rfl | hMem
      · exact Or.inl ⟨whole, .here whole, rfl⟩
      rcases List.mem_append.mp hMem with hMem | hLost
      · rcases Placed.mem_idsAll.mp hMem with
          ⟨old, hOld, hIn⟩
        rcases List.mem_map.mp hOld with ⟨part, hListed, rfl⟩
        have hFewer := (hForm.length_lt hListed).1
        rw [hSize] at hFewer
        rcases ih _ hFewer (hForm.stands hStands hListed)
            (hForm.valid hListed) hIn rfl with
          ⟨last, hLeads, hPlace⟩ |
            ⟨last, parts, made, lost, hLeads, hLast, hLost⟩
        · exact Or.inl ⟨last, .further hForm hListed hLeads,
            hPlace⟩
        · exact Or.inr ⟨last, parts, made, lost,
            .further hForm hListed hLeads, hLast, hLost⟩
      · exact Or.inr ⟨whole, parts, made, lost, .here whole,
          hForm, hLost⟩

/- A new place is one that was passed on to, or it is made. -/
theorem passed_on_or_made
    {before after : Tree}
    (hStands : whole.Stands before after)
    (hValid : whole.Valid symbols table options)
    {n : NodeId}
    (hMem : n ∈ whole.new.ids) :
    (∃ part,
      Leads symbols table options whole part ∧
        part.new.id = n) ∨
      ∃ node,
        MadeBeside symbols table options whole node ∧
          node.id = n := by
  induction hSize : whole.new.ids.length
    using Nat.strong_induction_on generalizing whole with
  | _ size ih =>
      rcases form_of_valid hStands.old.holds hValid with
        ⟨parts, made, lost, hForm⟩
      rcases List.mem_cons.mp
          (hForm.perm_new.mem_iff.mp hMem) with rfl | hMem
      · exact Or.inl ⟨whole, .here whole, rfl⟩
      rcases List.mem_append.mp hMem with hMade | hMem
      · rcases List.mem_map.mp hMade with ⟨node, hNode, hPlace⟩
        exact Or.inr ⟨node, ⟨whole, parts, made, lost,
          .here whole, hForm, hNode⟩, hPlace⟩
      · rcases Placed.mem_idsAll.mp hMem with
          ⟨new, hNew, hIn⟩
        rcases List.mem_map.mp hNew with ⟨part, hListed, rfl⟩
        have hFewer := (hForm.length_lt hListed).2
        rw [hSize] at hFewer
        rcases ih _ hFewer (hForm.stands hStands hListed)
            (hForm.valid hListed) hIn rfl with
          ⟨last, hLeads, hPlace⟩ |
            ⟨node, ⟨last, parts, made, lost, hLeads, hRest⟩,
              hPlace⟩
        · exact Or.inl ⟨last, .further hForm hListed hLeads,
            hPlace⟩
        · exact Or.inr ⟨node, ⟨last, parts, made, lost,
            .further hForm hListed hLeads, hRest⟩, hPlace⟩

end Passing

end Arrays

end Lowering
