import Lowering.Proofs.Arrays.Settled

/-
  This file proves that the pass does nothing where a settled
  view stands: it makes no node, no type, no element and no
  name, and replaces nothing.

  Main results:
    * `Arrays.run_enter_settled`
    * `Arrays.run_leave_settled`
    * `Arrays.run_walkWithin_settled`
    * `Arrays.run_lower_settled`
-/

namespace Lowering

namespace Arrays

open Symbols

variable {workspace : Workspace}
variable {id : NodeId}
variable {label : Label}
variable {children : List Placed}

------------------------------------------------------------
-- The Way Down
------------------------------------------------------------

/- Without an access to an element, nothing is stored. -/
theorem run_enter_settled
    (table : BindingTable)
    (hHolds : workspace.tree.Holds (.node id label children))
    (hSettled : Settled workspace.symbols
      (Placed.node id label children).view) :
    enter table id label.shape.tag workspace =
      .ok .children workspace := by
  rcases hHolds.stored with ⟨stored, hNode, hLabel, _⟩
  rw [Placed.label_node] at hLabel
  subst hLabel
  cases hKind : stored.kind
  case assignment op targetId valueId =>
    have hTag : stored.label.shape.tag = .assignment := by
      show stored.kind.shape.tag = _
      rw [hKind]
      rfl
    rcases hHolds.pair hNode (by rw [hKind]; rfl) with
      ⟨target, value, rfl, rfl, rfl⟩
    rcases (hHolds.child
        (List.mem_cons_self : target ∈ [target, value])).stored
      with ⟨outer, hOuter, hOuterLabel, _⟩
    have hTarget : Settled workspace.symbols target.view := by
      rw [Placed.view_node] at hSettled
      exact hSettled.child (by simp)
    rw [hTag]
    show lowerAssignment table id workspace = _
    unfold lowerAssignment
    rw [run_bind_ok (run_inTree_ok (Tree.node_eq_ok hNode))]
    simp only [hKind]
    rw [run_bind_ok (run_inTree_ok (Tree.node_eq_ok hOuter))]
    cases hOuterKind : outer.kind
    case arrayAccess array index =>
      rcases target with ⟨targetId, outerLabel, operands⟩
      rw [Placed.label_node] at hOuterLabel
      rw [Placed.view_node] at hTarget
      apply absurd _ hTarget.rests.no_access
      rw [← hOuterLabel]
      show outer.kind.shape.tag = _
      rw [hOuterKind]
      rfl
    all_goals rfl
  all_goals
    show enter table id stored.kind.shape.tag workspace = _
    rw [hKind]
    rfl

------------------------------------------------------------
-- The Way Up
------------------------------------------------------------

private theorem run_isLengthName
    {name : Placed}
    {length : Bool}
    (hHolds : workspace.tree.Holds name)
    (hLength : isLength? workspace.symbols name.view =
      some length) :
    isLengthName name.id workspace = .ok length workspace := by
  rcases hHolds.stored with ⟨stored, hNode, hLabel, _⟩
  have hShape : name.view.label.shape = stored.kind.shape := by
    rw [Placed.label_view, ← hLabel]
    rfl
  unfold isLength? at hLength
  rw [hShape] at hLength
  unfold isLengthName
  rw [run_bind_ok (run_inTree_ok (Tree.node_eq_ok hNode))]
  cases hKind : stored.kind
  case simpleName identifier =>
    rw [hKind] at hLength
    simp only [NodeKind.shape] at hLength ⊢
    rcases Option.map_eq_some_iff.mp hLength with
      ⟨text, hText, rfl⟩
    have hRun : isLength identifier workspace.symbols =
        .ok (text = "length") workspace.symbols := by
      unfold isLength
      rw [run_bind_ok (run_ask_nameText hText)]
      rfl
    exact run_liftSymbols_ok hRun
  all_goals
    rw [hKind] at hLength
    cases hLength
    rfl

private theorem run_operandComponent?
    {operand : Placed}
    {component : Option TypeId}
    (hHolds : workspace.tree.Holds operand)
    (hOperand : arrayOperand? workspace.symbols operand.view =
      some component) :
    operandComponent? operand.id workspace =
      .ok component workspace := by
  rcases hHolds.stored with ⟨stored, hNode, hLabel, _⟩
  have hSame : operand.view.ty = stored.ty := by
    rw [Placed.ty_view, ← hLabel]
    rfl
  unfold arrayOperand? at hOperand
  rw [hSame] at hOperand
  unfold operandComponent?
  rw [run_bind_ok (run_inTree_ok (Tree.node_eq_ok hNode))]
  cases hTy : stored.ty with
  | some ty =>
      rw [hTy] at hOperand
      exact run_liftSymbols_ok
        (run_ask_componentType hOperand)
  | none =>
      rw [hTy] at hOperand
      cases hOperand
      rfl

private theorem run_isObjectArray
    {symbols : Symbols}
    {ty : TypeId}
    {array : Bool}
    (hArray : isObjectArray? symbols ty = some array) :
    isObjectArray ty symbols = .ok array symbols := by
  unfold isObjectArray? at hArray
  rcases Option.bind_eq_some_iff.mp hArray with
    ⟨component, hComponent, hArray⟩
  unfold isObjectArray
  rw [run_bind_ok (run_ask_componentType hComponent)]
  cases component with
  | none =>
      cases hArray
      rfl
  | some component =>
      rcases Option.bind_eq_some_iff.mp hArray with
        ⟨primitive, hPrimitive, hLast⟩
      cases hLast
      exact run_bind_ok (run_ask_isPrimitive hPrimitive)

private theorem run_lowerLength
    (table : BindingTable)
    {operand name : Placed}
    {stored : Node}
    (hNode : workspace.tree.get? id = some stored)
    (hMember : memberAccess? stored.kind =
      some (operand.id, name.id))
    (hOperand : workspace.tree.Holds operand)
    (hName : workspace.tree.Holds name)
    (hRests :
      isLength? workspace.symbols name.view = some false ∨
        isLength? workspace.symbols name.view = some true ∧
          arrayOperand? workspace.symbols operand.view =
            some none) :
    lowerLength table id workspace = .ok () workspace := by
  unfold lowerLength
  rw [run_bind_ok (run_inTree_ok (Tree.node_eq_ok hNode))]
  simp only [hMember]
  rcases hRests with hOther | ⟨hLength, hComponent⟩
  · rw [run_bind_ok (run_isLengthName hName hOther)]
    rfl
  · rw [run_bind_ok (run_isLengthName hName hLength)]
    exact run_bind_ok
      (run_operandComponent? hOperand hComponent)

private theorem run_lowerTypeTest
    (table : BindingTable)
    {stored : Node}
    {value : NodeId}
    {tested : Placed}
    {ty : TypeId}
    (hNode : workspace.tree.get? id = some stored)
    (hKind : stored.kind = .instanceOf value tested.id)
    (hTested : workspace.tree.Holds tested)
    (hTy : tested.view.ty = some ty)
    (hArray : isObjectArray? workspace.symbols ty =
      some false) :
    lowerTypeTest table id workspace = .ok () workspace := by
  rcases hTested.stored with ⟨node, hTestedNode, hLabel, _⟩
  have hNodeTy : node.ty = some ty := by
    rw [Placed.ty_view, ← hLabel] at hTy
    exact hTy
  have hType : Workspace.nodeType tested.id workspace =
      .ok ty workspace := by
    unfold Workspace.nodeType
    rw [run_bind_ok
      (run_inTree_ok (Tree.node_eq_ok hTestedNode))]
    simp only [hNodeTy]
    rfl
  unfold lowerTypeTest
  rw [run_bind_ok (run_inTree_ok (Tree.node_eq_ok hNode))]
  simp only [hKind]
  rw [run_bind_ok hType]
  exact run_bind_ok
    (run_liftSymbols_ok (run_isObjectArray hArray))

private theorem run_leave_member
    (table : BindingTable)
    (hHolds : workspace.tree.Holds (.node id label children))
    (hRests : Rests workspace.symbols label
      (children.map (·.view)))
    (hShape : label.shape = .fieldAccess () () ∨
      label.shape = .qualifiedName () ()) :
    lowerLength table id workspace = .ok () workspace := by
  rcases hHolds.stored with ⟨stored, hNode, hLabel, _⟩
  rw [Placed.label_node] at hLabel
  subst hLabel
  rcases memberAccess?_of_shape hShape with
    ⟨operandId, nameId, hMember, hPair⟩
  rcases hHolds.pair hNode hPair with
    ⟨operand, name, rfl, rfl, rfl⟩
  apply run_lowerLength table hNode hMember
    (hHolds.child (by simp)) (hHolds.child (by simp))
  apply hRests.no_length operand.view name.view ?_ rfl
  rcases hShape with hShape | hShape
  · exact Or.inl (by rw [hShape]; rfl)
  · exact Or.inr (by rw [hShape]; rfl)

private theorem run_leave_instanceOf
    (table : BindingTable)
    (hHolds : workspace.tree.Holds (.node id label children))
    (hRests : Rests workspace.symbols label
      (children.map (·.view)))
    (hShape : label.shape = .instanceOf () ()) :
    lowerTypeTest table id workspace = .ok () workspace := by
  rcases hHolds.exists_pair
      (fun _ hIs =>
        NodeKind.eq_instanceOf_of_shape (hIs.trans hShape))
      (fun _ _ => rfl) with
    ⟨stored, value, tested, hNode, rfl, hKind, rfl⟩
  rcases hRests.no_test value.view tested.view
      (by rw [hShape]; rfl) rfl with
    ⟨ty, hTy, hArray⟩
  exact run_lowerTypeTest table hNode hKind
    (hHolds.child (by simp)) hTy hArray

/- Nothing is done at a node that rests. -/
theorem run_leave_settled
    (table : BindingTable)
    (options : Options)
    (hHolds : workspace.tree.Holds (.node id label children))
    (hSettled : Settled workspace.symbols
      (Placed.node id label children).view) :
    leave table options id label.shape.tag workspace =
      .ok () workspace := by
  rw [Placed.view_node] at hSettled
  have hRests := hSettled.rests
  cases hShape : label.shape
  case arrayCreation dimensions initializer marked =>
    exact absurd (by rw [hShape]; rfl) hRests.no_creation
  case arrayAccess array index =>
    exact absurd (by rw [hShape]; rfl) hRests.no_access
  case fieldAccess operand name =>
    exact run_leave_member table hHolds hRests
      (Or.inl hShape)
  case qualifiedName qualifier name =>
    exact run_leave_member table hHolds hRests
      (Or.inr hShape)
  case instanceOf value tested =>
    exact run_leave_instanceOf table hHolds hRests hShape
  all_goals rfl

------------------------------------------------------------
-- The Walk
------------------------------------------------------------

/-
  The walk changes nothing where a settled view stands, by
  induction on the depth.
-/
theorem run_walkWithin_settled
    (table : BindingTable)
    (options : Options)
    (depth : Nat)
    {placed : Placed}
    (hHolds : workspace.tree.Holds placed)
    (hDepth : placed.ids.length ≤ depth)
    (hSettled : Settled workspace.symbols placed.view) :
    (visitor table options).walkWithin depth placed.id
      workspace = .ok () workspace := by
  induction depth generalizing placed with
  | zero =>
      cases placed
      simp at hDepth
  | succ depth ih =>
      rcases placed with ⟨id, label, children⟩
      have hBelow : ∀ rest, rest ⊆ children →
          ((rest.map (·.id)).forM
            ((visitor table options).walkWithin depth) :
              LowerM Unit) workspace = .ok () workspace := by
        intro rest hSubset
        induction rest with
        | nil => rfl
        | cons child rest ihRest =>
            have hMem : child ∈ children :=
              hSubset List.mem_cons_self
            have hLength := Placed.length_ids_le_of_mem hMem
            rw [Placed.ids_node, List.length_cons] at hDepth
            have hChild : Settled workspace.symbols
                child.view := by
              rw [Placed.view_node] at hSettled
              exact hSettled.child (List.mem_map_of_mem hMem)
            have hFirst := ih (hHolds.child hMem) (by omega)
              hChild
            exact (run_bind_ok hFirst).trans
              (ihRest fun other hOther =>
                hSubset (List.mem_cons_of_mem _ hOther))
      unfold Visitor.walkWithin
      refine (run_bind_ok
        (run_inTree_ok hHolds.tag)).trans ?_
      refine (run_bind_ok
        (run_enter_settled table hHolds hSettled)).trans ?_
      refine (run_bind_ok
        (run_inTree_ok hHolds.children)).trans ?_
      refine (run_bind_ok
        (hBelow children (List.Subset.refl _))).trans ?_
      exact run_leave_settled table options hHolds hSettled

/- A run at a settled root answers the root. -/
theorem run_lower_settled
    (table : BindingTable)
    (options : Options)
    {placed : Placed}
    (hHolds : workspace.tree.Holds placed)
    (hNodup : placed.ids.Nodup)
    (hSettled : Settled workspace.symbols placed.view) :
    lower table options placed.id workspace =
      .ok placed.id { workspace with root := placed.id } := by
  have hReach : placed.ids.length ≤
      (visitor table options).reach workspace.tree.size := by
    have hLength := hHolds.length_ids_le hNodup
    show _ ≤ 2 * workspace.tree.size + 2
    omega
  have hWalk := @run_walkWithin_settled
    { workspace with root := placed.id } table options _ placed
    hHolds hReach hSettled
  unfold lower Visitor.walk
  exact run_bind_ok hWalk

end Arrays

end Lowering
