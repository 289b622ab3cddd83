import Mathlib.Data.List.Basic
import Lowering.Tree.Kind
import Lowering.Tree.Usage

/-
  This file proves what a kind of node is: a shape, which is
  the kind without its children, and a list of children.

  Children can be put into the places of a kind whenever there
  are as many of them as places; this changes the children and
  nothing else.

  Key definitions include:
    * `NodeKind.shape`
    * `NodeKind.retain`
    * `NodeKind.assignsFirst`

  Main results:
    * `NodeKind.bind_mapM`
    * `NodeKind.children_withChildren`
    * `NodeKind.shape_withChildren`
    * `NodeKind.eq_of_shape`
    * `NodeKind.assigns_eq`
-/

namespace Lowering

namespace NodeKind

variable {α β γ : Type}

------------------------------------------------------------
-- Shapes
------------------------------------------------------------

/- A kind with its children left out, but not their places. -/
def shape : NodeKind α → NodeKind Unit
  | compilationUnit package types =>
    compilationUnit (package.map fun _ => ())
      (types.map fun _ => ())
  | packageDeclaration doc annotations _ =>
    packageDeclaration (doc.map fun _ => ())
      (annotations.map fun _ => ()) ()
  | enumDeclaration doc annotations _ constants body =>
    enumDeclaration (doc.map fun _ => ())
      (annotations.map fun _ => ()) ()
      (constants.map fun _ => ()) (body.map fun _ => ())
  | enumConstantDeclaration annotations _ arguments =>
    enumConstantDeclaration (annotations.map fun _ => ()) ()
      (arguments.map fun _ => ())
  | methodDeclaration doc annotations _ parameters body =>
    methodDeclaration (doc.map fun _ => ())
      (annotations.map fun _ => ()) ()
      (parameters.map fun _ => ()) (body.map fun _ => ())
  | variableDeclaration _ initializer =>
    variableDeclaration () (initializer.map fun _ => ())
  | javadoc text => javadoc text
  | annotationUse _ => annotationUse ()
  | block statements => block (statements.map fun _ => ())
  | expressionStatement _ => expressionStatement ()
  | returnStatement expression =>
    returnStatement (expression.map fun _ => ())
  | simpleName identifier => simpleName identifier
  | qualifiedName _ _ => qualifiedName () ()
  | fieldAccess _ _ => fieldAccess () ()
  | arrayAccess _ _ => arrayAccess () ()
  | arrayCreation dimensions initializer retained =>
    arrayCreation (dimensions.map fun _ => ())
      (initializer.map fun _ => ()) retained
  | arrayInitializer expressions =>
    arrayInitializer (expressions.map fun _ => ())
  | assignment op _ _ => assignment op () ()
  | instanceOf _ _ => instanceOf () ()
  | classInstanceCreation arguments retained =>
    classInstanceCreation (arguments.map fun _ => ()) retained
  | methodInvocation receiver arguments =>
    methodInvocation (receiver.map fun _ => ())
      (arguments.map fun _ => ())
  | functionInvocation function arguments retained =>
    functionInvocation function (arguments.map fun _ => ())
      retained
  | prefixOperation op _ => prefixOperation op ()
  | postfixOperation op _ => postfixOperation op ()
  | numberLiteral value => numberLiteral value
  | stringLiteral value => stringLiteral value
  | nullLiteral => nullLiteral
  | typeLiteral literal => typeLiteral literal
  | typeRef => typeRef

/- The tag of a kind is that of its shape. -/
@[simp] theorem tag_shape (kind : NodeKind α) :
    kind.shape.tag = kind.tag := by
  cases kind <;> rfl

/- Whether a kind can retain is told by its shape. -/
@[simp] theorem canRetain_shape (kind : NodeKind α) :
    kind.shape.canRetain = kind.canRetain := by
  cases kind <;> rfl

/- The kinds with a shape, for the shapes that passes know. -/
theorem eq_arrayAccess_of_shape
    {kind : NodeKind α}
    (hShape : kind.shape = .arrayAccess () ()) :
    ∃ array index, kind = .arrayAccess array index := by
  cases kind <;> cases hShape
  exact ⟨_, _, rfl⟩

theorem eq_fieldAccess_of_shape
    {kind : NodeKind α}
    (hShape : kind.shape = .fieldAccess () ()) :
    ∃ operand name, kind = .fieldAccess operand name := by
  cases kind <;> cases hShape
  exact ⟨_, _, rfl⟩

theorem eq_qualifiedName_of_shape
    {kind : NodeKind α}
    (hShape : kind.shape = .qualifiedName () ()) :
    ∃ operand name, kind = .qualifiedName operand name := by
  cases kind <;> cases hShape
  exact ⟨_, _, rfl⟩

theorem eq_instanceOf_of_shape
    {kind : NodeKind α}
    (hShape : kind.shape = .instanceOf () ()) :
    ∃ value tested, kind = .instanceOf value tested := by
  cases kind <;> cases hShape
  exact ⟨_, _, rfl⟩

theorem eq_assignment_of_shape
    {kind : NodeKind α}
    {op : AssignOp}
    (hShape : kind.shape = .assignment op () ()) :
    ∃ target value, kind = .assignment op target value := by
  cases kind <;> cases hShape
  exact ⟨_, _, rfl⟩

theorem eq_functionInvocation_of_shape
    {kind : NodeKind α}
    {function : FunctionRef}
    {places : List Unit}
    {marked : Bool}
    (hShape : kind.shape =
      .functionInvocation function places marked) :
    ∃ arguments,
      kind = .functionInvocation function arguments marked := by
  cases kind <;> cases hShape
  exact ⟨_, rfl⟩

theorem eq_arrayCreation_of_shape
    {kind : NodeKind α}
    {dimensions : List Unit}
    {initializer : Option Unit}
    {marked : Bool}
    (hShape : kind.shape =
      .arrayCreation dimensions initializer marked) :
    ∃ dimensions' initializer',
      kind = .arrayCreation dimensions' initializer' marked ∧
        dimensions = dimensions'.map (fun _ => ()) ∧
        initializer = initializer'.map fun _ => () := by
  cases kind <;> cases hShape
  exact ⟨_, _, rfl, rfl, rfl⟩

------------------------------------------------------------
-- Filling Places
------------------------------------------------------------

/- A shape has a place for every child of a kind. -/
theorem children_shape (kind : NodeKind α) :
    kind.shape.children = kind.children.map fun _ => () := by
  cases kind <;>
    simp only [shape, children, Option.toList_map,
      List.map_append, List.map_cons, List.map_nil]

theorem length_children_of_shape
    {first : NodeKind α}
    {second : NodeKind β}
    (hShape : first.shape = second.shape) :
    first.children.length = second.children.length := by
  have hLength := congrArg (·.children.length) hShape
  simpa only [children_shape, List.length_map] using hLength

section Effects

variable {m : Type → Type}
variable [Monad m] [LawfulMonad m]
variable {act : α → m β}

/-
  What is made of a list is as long as the list, so two ways to
  go on need to agree on such lists only.
-/
private theorem bind_mapM_list
    (items : List α)
    {first second : List β → m γ}
    (hSame : ∀ made : List β,
      made.map (fun _ => ()) = items.map (fun _ => ()) →
        first made = second made) :
    items.mapM act >>= first = items.mapM act >>= second := by
  induction items generalizing first second with
  | nil =>
      simp only [List.mapM_nil, pure_bind]
      exact hSame [] rfl
  | cons item items ih =>
      simp only [List.mapM_cons, bind_assoc, pure_bind]
      apply bind_congr
      intro made
      apply ih
      intro rest hRest
      apply hSame
      simp only [List.map_cons, hRest]

/- What is made of an optional child is optional with it. -/
private theorem bind_mapM_option
    (item : Option α)
    {first : Option β → m γ}
    {second : List β → m γ}
    (hSame : ∀ made : Option β,
      made.map (fun _ => ()) = item.map (fun _ => ()) →
        first made = second made.toList) :
    item.mapM act >>= first =
      item.toList.mapM act >>= second := by
  cases item with
  | none =>
      simp only [Option.mapM_none, Option.toList_none,
        List.mapM_nil, pure_bind]
      exact hSame none rfl
  | some item =>
      simp only [Option.mapM_some, Option.toList_some,
        List.mapM_cons, List.mapM_nil, bind_assoc, pure_bind,
        map_eq_pure_bind]
      apply bind_congr
      intro made
      exact hSame (some made) rfl

/-
  Passing the places of a kind is passing its children: the
  kind that comes out is of the same shape, and its children
  are what was made of them. Both run over the same parts in
  the same order.
-/
theorem bind_mapM
    (kind : NodeKind α)
    {first : NodeKind β → m γ}
    {second : List β → m γ}
    (hSame : ∀ filled,
      filled.shape = kind.shape →
        first filled = second filled.children) :
    kind.mapM act >>= first =
      kind.children.mapM act >>= second := by
  cases kind
  all_goals
    simp only [mapM, traverse, children, List.mapM_append,
      List.mapM_cons, List.mapM_nil, bind_assoc, pure_bind]
    repeat
      first
      | refine bind_mapM_option _ fun _ _ => ?_
      | refine bind_mapM_list _ fun _ _ => ?_
      | refine bind_congr fun _ => ?_
    refine (hSame _ ?_).trans (congrArg second ?_)
    · simp only [shape, *]
    · simp only [children, List.append_assoc,
        List.cons_append]

end Effects

/- As many children as places are all taken, in order. -/
private theorem run_takeChildren
    (present items : List α)
    (hLength : items.length = present.length) :
    (present.mapM takeChild).run items =
      pure (items, []) := by
  induction present generalizing items with
  | nil =>
      have hNil : items = [] :=
        List.length_eq_zero_iff.mp hLength
      subst hNil
      rfl
  | cons first present ih =>
      cases items with
      | nil => simp at hLength
      | cons item items =>
          have hTail : items.length = present.length := by
            simpa using hLength
          have hHead : (takeChild first).run (item :: items) =
              pure (item, items) := rfl
          simp only [List.mapM_cons, StateT.run_bind, hHead,
            pure_bind, ih items hTail, StateT.run_pure]

private theorem children_withChildren_and_shape
    (kind : NodeKind α)
    {items : List α}
    (hLength : items.length = kind.children.length) :
    (kind.withChildren items).children = items ∧
      (kind.withChildren items).shape = kind.shape := by
  have hPassed :
      (do
        let filled ← kind.mapM takeChild
        return (filled.children, filled.shape)) =
      (do
        let taken ← kind.children.mapM takeChild
        return (taken, kind.shape)) := by
    apply kind.bind_mapM
    intro filled hShape
    rw [hShape]
  have hFilled := congrArg
    (fun taking => (StateT.run taking items).1) hPassed
  simp only [StateT.run_bind, pure_bind,
    run_takeChildren _ _ hLength] at hFilled
  exact Prod.mk.inj hFilled

/- A kind has the children that were put into its places. -/
theorem children_withChildren
    (kind : NodeKind α)
    {items : List α}
    (hLength : items.length = kind.children.length) :
    (kind.withChildren items).children = items :=
  (children_withChildren_and_shape kind hLength).1

/- Putting children into the places of a kind keeps its shape. -/
theorem shape_withChildren
    (kind : NodeKind α)
    {items : List α}
    (hLength : items.length = kind.children.length) :
    (kind.withChildren items).shape = kind.shape :=
  (children_withChildren_and_shape kind hLength).2

------------------------------------------------------------
-- Kinds By Shape
------------------------------------------------------------

/- As many optional children, and then the same others. -/
private theorem option_split
    {first second : Option α}
    {rest rest' : List α}
    (hShape : first.map (fun _ => ()) =
      second.map fun _ => ())
    (hItems : first.toList ++ rest = second.toList ++ rest') :
    first = second ∧ rest = rest' := by
  cases first <;> cases second <;> simp_all

/- Lists of children of one length, and then the same others. -/
private theorem list_split
    {first second rest rest' : List α}
    (hShape : first.map (fun _ => ()) =
      second.map fun _ => ())
    (hItems : first ++ rest = second ++ rest') :
    first = second ∧ rest = rest' := by
  have hLength := congrArg List.length hShape
  simp only [List.length_map] at hLength
  exact List.append_inj hItems hLength

private theorem toList_inj
    {first second : Option α}
    (hItems : first.toList = second.toList) :
    first = second := by
  cases first <;> cases second <;> simp_all

/- A kind is what its shape and its children tell. -/
theorem eq_of_shape
    {first second : NodeKind α}
    (hShape : first.shape = second.shape)
    (hChildren : first.children = second.children) :
    first = second := by
  cases first <;> cases second <;>
    first
    | (injection hShape; done)
    | skip
  all_goals
    simp only [shape, children, List.append_assoc,
      List.cons_append] at hShape hChildren
    try injection hShape
    grind [→ option_split, → list_split, → toList_inj]

------------------------------------------------------------
-- Retained Results
------------------------------------------------------------

/- A kind asked for a retained result, where it can be asked. -/
def retained (kind : NodeKind α) : NodeKind α :=
  kind.markRetained?.getD kind

/- A kind that can retain can be asked to. -/
theorem markRetained?_of_canRetain
    {kind : NodeKind α}
    (hCan : kind.canRetain) :
    kind.markRetained? = some kind.retained := by
  cases kind <;>
    first
    | rfl
    | exact absurd hCan Bool.false_ne_true

/- What is asked to retain keeps its children. -/
theorem children_of_markRetained?
    {kind marked : NodeKind α}
    (hMark : kind.markRetained? = some marked) :
    marked.children = kind.children := by
  cases kind <;> cases hMark <;> rfl

@[simp] theorem children_retained (kind : NodeKind α) :
    kind.retained.children = kind.children := by
  cases kind <;> rfl

@[simp] theorem shape_retained (kind : NodeKind α) :
    kind.retained.shape = kind.shape.retained := by
  cases kind <;> rfl

@[simp] theorem tag_retained (kind : NodeKind α) :
    kind.retained.tag = kind.tag := by
  cases kind <;> rfl

/- What becomes of a kind when its result is to be retained. -/
def retain (kind : NodeKind α) : NodeKind α :=
  if kind.canRetain then kind.retained else kind

@[simp] theorem children_retain (kind : NodeKind α) :
    kind.retain.children = kind.children := by
  unfold retain
  split <;> simp

@[simp] theorem shape_retain (kind : NodeKind α) :
    kind.retain.shape = kind.shape.retain := by
  simp only [retain, canRetain_shape]
  split <;> simp

@[simp] theorem tag_retain (kind : NodeKind α) :
    kind.retain.tag = kind.tag := by
  unfold retain
  split <;> simp

------------------------------------------------------------
-- Assigned Children
------------------------------------------------------------

/- Whether a kind assigns to its first child. -/
def assignsFirst : NodeKind α → Bool
  | assignment _ _ _ => true
  | prefixOperation op _ =>
    match op with
    | .increment | .decrement | .addressOf => true
    | _ => false
  | postfixOperation _ _ => true
  | _ => false

/- A kind assigns to no other child than its first. -/
theorem assigns_eq
    (kind : NodeKind NodeId)
    {child : NodeId}
    (hChild : child ∈ kind.children) :
    kind.assigns child =
      (kind.shape.assignsFirst &&
        decide (kind.children.head? = some child)) := by
  cases kind
  case assignment op lhs rhs =>
      simp [assigns, shape, assignsFirst, children]
  case prefixOperation op operand =>
      have hOperand : child = operand := by
        simpa [children] using hChild
      subst hOperand
      cases op <;> simp [assigns, shape, assignsFirst, children]
  case postfixOperation op operand =>
      have hOperand : child = operand := by
        simpa [children] using hChild
      subst hOperand
      simp [assigns, shape, assignsFirst, children]
  all_goals rfl

end NodeKind

end Lowering
