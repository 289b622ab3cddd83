import Lowering.Tree.Copy
import Lowering.Proofs.Coupled
import Lowering.Proofs.Tree.Kind

/-
  This file compares trees that are alike: they have the same
  nodes in the same places, and differ only in the names and
  the elements that stand in them. Which of these may stand
  for which is a parameter.

  No step on a tree looks at a name or an element. So what is
  done to one of two such trees can be done to the other, with
  the same answer or the same fault, and they are alike again.

  Key definitions include:
    * `NodeKind.names`
    * `Node.elements`
    * `Likeness`
    * `NodeKind.Alike`
    * `Node.Alike`
    * `Tree.Alike`

  Main results:
    * `Tree.Alike.alloc`
    * `Tree.Alike.deepCopy`
    * `Tree.Alike.replaceWith`
    * `Tree.Alike.retainResult`
-/

namespace Lowering

------------------------------------------------------------
-- Likeness
------------------------------------------------------------

/- The names that a kind of node holds. -/
def NodeKind.names {α : Type} : NodeKind α → List Name
  | javadoc text => [text]
  | simpleName identifier => [identifier]
  | stringLiteral value => [value]
  | functionInvocation function _ _ =>
    function.name :: function.retainedName.toList
  | _ => []

/- The class of the function that a kind of node calls. -/
def NodeKind.declaring? {α : Type} :
    NodeKind α → Option ElementId
  | functionInvocation function _ _ => some function.declaring
  | _ => none

/- The elements that stand in a node. -/
def Node.elements (node : Node) : List ElementId :=
  node.element.toList ++ node.kind.declaring?.toList

/-
  Which names and elements stand for which, the elements by
  the tag of the node; and what is known of the type of each
  node.
-/
structure Likeness where
  name : Name → Name → Prop
  element : NodeTag → ElementId → ElementId → Prop
  typed : NodeTag → Option TypeId → Prop

variable {likeness : Likeness}

/- Functions that differ in names and in the class. -/
structure FunctionRef.Alike
    (likeness : Likeness)
    (function function' : FunctionRef) : Prop where
  name : likeness.name function.name function'.name
  returnType : function'.returnType = function.returnType
  declaring : likeness.element .functionInvocation
    function.declaring function'.declaring
  params : function'.params = function.params
  retainedName : Option.Rel likeness.name
    function.retainedName function'.retainedName

/- Kinds that differ in the names they hold. -/
inductive NodeKind.Alike
    {α : Type}
    (likeness : Likeness) :
    NodeKind α → NodeKind α → Prop
  | plain
      (kind : NodeKind α)
      (nameless : kind.names = []) :
      Alike likeness kind kind
  | javadoc
      {text text' : Name}
      (alike : likeness.name text text') :
      Alike likeness (.javadoc text) (.javadoc text')
  | simpleName
      {identifier identifier' : Name}
      (alike : likeness.name identifier identifier') :
      Alike likeness (.simpleName identifier)
        (.simpleName identifier')
  | stringLiteral
      {value value' : Name}
      (alike : likeness.name value value') :
      Alike likeness (.stringLiteral value)
        (.stringLiteral value')
  | functionInvocation
      {function function' : FunctionRef}
      (arguments : List α)
      (retained : Bool)
      (alike : function.Alike likeness function') :
      Alike likeness
        (.functionInvocation function arguments retained)
        (.functionInvocation function' arguments retained)

/- Nodes that differ in names and elements. -/
structure Node.Alike
    (likeness : Likeness)
    (node node' : Node) : Prop where
  kind : node.kind.Alike likeness node'.kind
  ty : node'.ty = node.ty
  element : Option.Rel (likeness.element node.kind.tag)
    node.element node'.element
  parent : node'.parent = node.parent
  typed : likeness.typed node.kind.tag node.ty

/- Trees that are alike node by node. -/
structure Tree.Alike
    (likeness : Likeness)
    (tree tree' : Tree) : Prop where
  size : tree'.size = tree.size
  nodes : ∀ id node node',
    tree.get? id = some node →
      tree'.get? id = some node' →
        node.Alike likeness node'

------------------------------------------------------------
-- Other Likenesses
------------------------------------------------------------

private theorem rel_mono
    {α : Type}
    {Same Same' : α → α → Prop}
    (hMono : ∀ item item', Same item item' → Same' item item')
    {item item' : Option α}
    (hSame : Option.Rel Same item item') :
    Option.Rel Same' item item' := by
  cases hSame with
  | some hItem => exact .some (hMono _ _ hItem)
  | none => exact .none

/- What relates all that another likeness relates. -/
structure Likeness.Allows (likeness other : Likeness) : Prop where
  name : ∀ name name',
    other.name name name' → likeness.name name name'
  element : ∀ tag id id',
    other.element tag id id' → likeness.element tag id id'
  typed : ∀ tag ty, other.typed tag ty → likeness.typed tag ty

section Allows

variable {other : Likeness}
variable (hAllows : likeness.Allows other)

include hAllows

theorem FunctionRef.Alike.mono
    {function function' : FunctionRef}
    (hAlike : function.Alike other function') :
    function.Alike likeness function' where
  name := hAllows.name _ _ hAlike.name
  returnType := hAlike.returnType
  declaring := hAllows.element _ _ _ hAlike.declaring
  params := hAlike.params
  retainedName := rel_mono hAllows.name hAlike.retainedName

theorem NodeKind.Alike.mono
    {α : Type}
    {kind kind' : NodeKind α}
    (hAlike : kind.Alike other kind') :
    kind.Alike likeness kind' := by
  cases hAlike with
  | plain _ hNameless => exact .plain _ hNameless
  | javadoc hName => exact .javadoc (hAllows.name _ _ hName)
  | simpleName hName =>
      exact .simpleName (hAllows.name _ _ hName)
  | stringLiteral hName =>
      exact .stringLiteral (hAllows.name _ _ hName)
  | functionInvocation _ _ hFunction =>
      exact .functionInvocation _ _ (hFunction.mono hAllows)

theorem Node.Alike.mono
    {node node' : Node}
    (hAlike : node.Alike other node') :
    node.Alike likeness node' where
  kind := hAlike.kind.mono hAllows
  ty := hAlike.ty
  element := rel_mono (hAllows.element _) hAlike.element
  parent := hAlike.parent
  typed := hAllows.typed _ _ hAlike.typed

/- Trees stay alike in a likeness that allows more. -/
theorem Tree.Alike.mono
    {tree tree' : Tree}
    (hAlike : tree.Alike other tree') :
    tree.Alike likeness tree' where
  size := hAlike.size
  nodes := fun id node node' hNode hNode' =>
    (hAlike.nodes id node node' hNode hNode').mono hAllows

end Allows

/- A node is like itself if all that stands in it is. -/
theorem Node.Alike.refl
    {node : Node}
    (hName : ∀ name ∈ node.kind.names,
      likeness.name name name)
    (hElement : ∀ tag, ∀ id ∈ node.elements,
      likeness.element tag id id)
    (hTyped : likeness.typed node.kind.tag node.ty) :
    node.Alike likeness node := by
  have hOption : ∀ {α : Type} {Same : α → α → Prop}
      {item : Option α},
      (∀ found ∈ item.toList, Same found found) →
        Option.Rel Same item item := by
    intro α Same item hSame
    cases item with
    | none => exact .none
    | some found => exact .some (hSame found (by simp))
  refine ⟨?_, rfl, ?_, rfl, hTyped⟩
  · rcases node with ⟨kind, ty, element, parent⟩
    cases kind with
    | javadoc text =>
        exact .javadoc (hName text List.mem_cons_self)
    | simpleName identifier =>
        exact .simpleName (hName identifier List.mem_cons_self)
    | stringLiteral value =>
        exact .stringLiteral (hName value List.mem_cons_self)
    | functionInvocation function arguments retained =>
        refine .functionInvocation _ _ ⟨?_, rfl, ?_, rfl, ?_⟩
        · exact hName _ List.mem_cons_self
        · exact hElement _ _
            (List.mem_append_right _ List.mem_cons_self)
        · exact hOption fun found hFound =>
            hName found (List.mem_cons_of_mem _ hFound)
    | _ => exact .plain _ rfl
  · exact hOption fun found hFound =>
      hElement _ found (List.mem_append_left _ hFound)

------------------------------------------------------------
-- Kinds That Are Alike
------------------------------------------------------------

namespace NodeKind

/- Filling places changes neither the tag nor the names. -/
theorem tag_withChildren
    (kind : NodeKind NodeId)
    (children : List NodeId) :
    (kind.withChildren children).tag = kind.tag := by
  cases kind <;> rfl

theorem names_withChildren
    (kind : NodeKind NodeId)
    (children : List NodeId) :
    (kind.withChildren children).names = kind.names := by
  cases kind <;> rfl

private theorem names_of_markRetained?
    {α : Type}
    {kind marked : NodeKind α}
    (hMark : kind.markRetained? = some marked) :
    marked.names = kind.names ∧ marked.tag = kind.tag := by
  cases kind <;> cases hMark <;> exact ⟨rfl, rfl⟩

namespace Alike

section Reading

variable {kind kind' : NodeKind NodeId}
variable (hAlike : kind.Alike likeness kind')

include hAlike

theorem tag : kind'.tag = kind.tag := by
  cases hAlike <;> rfl

theorem children : kind'.children = kind.children := by
  cases hAlike <;> rfl

theorem list? (slot : ListSlot) :
    kind'.list? slot = kind.list? slot := by
  cases hAlike <;> cases slot <;> rfl

theorem assigns (child : NodeId) :
    kind'.assigns child = kind.assigns child := by
  cases hAlike <;> rfl

theorem canRetain : kind'.canRetain = kind.canRetain := by
  cases hAlike with
  | @functionInvocation function function' _ _ hFunction =>
      show function'.retainedName.isSome =
        function.retainedName.isSome
      have hNames := hFunction.retainedName
      generalize function.retainedName = name at hNames ⊢
      generalize function'.retainedName = name' at hNames ⊢
      cases hNames <;> rfl
  | _ => rfl

end Reading

section Changing

variable {kind kind' : NodeKind NodeId}
variable (hAlike : kind.Alike likeness kind')

include hAlike

theorem withChildren (children : List NodeId) :
    (kind.withChildren children).Alike likeness
      (kind'.withChildren children) := by
  cases hAlike with
  | plain _ hNameless =>
      refine .plain _ ?_
      rw [names_withChildren]
      exact hNameless
  | javadoc hName => exact .javadoc hName
  | simpleName hName => exact .simpleName hName
  | stringLiteral hName => exact .stringLiteral hName
  | functionInvocation _ _ hFunction =>
      exact .functionInvocation _ _ hFunction

theorem markRetained? :
    Option.Rel (NodeKind.Alike likeness) kind.markRetained?
      kind'.markRetained? := by
  cases hAlike with
  | plain _ hNameless =>
      cases hMark : kind.markRetained? with
      | none => exact .none
      | some marked =>
          refine .some (.plain _ ?_)
          rw [(names_of_markRetained? hMark).1]
          exact hNameless
  | javadoc => exact .none
  | simpleName => exact .none
  | stringLiteral => exact .none
  | functionInvocation arguments _ hFunction =>
      exact .some (.functionInvocation arguments true hFunction)

end Changing

end Alike

end NodeKind

------------------------------------------------------------
-- Questions To Trees
------------------------------------------------------------

namespace Tree

/- One answer for both trees, which are still alike. -/
def Both
    {α : Type}
    (likeness : Likeness)
    (answer : α)
    (tree : Tree)
    (answer' : α)
    (tree' : Tree) : Prop :=
  answer = answer' ∧ tree.Alike likeness tree'

namespace Alike

variable {tree tree' : Tree}

section Questions

variable (hAlike : tree.Alike likeness tree')

include hAlike

/- A node of the one stands at a node of the other. -/
theorem get?
    {id : NodeId}
    {node : Node}
    (hNode : tree.get? id = some node) :
    ∃ node',
      tree'.get? id = some node' ∧
        node.Alike likeness node' := by
  have hBound : id.raw < tree'.nodes.size := by
    have hSize : tree'.nodes.size = tree.nodes.size :=
      hAlike.size
    rw [hSize]
    exact (Array.getElem?_eq_some_iff.mp hNode).1
  have hNode' : tree'.get? id = some tree'.nodes[id.raw] :=
    Array.getElem?_eq_getElem hBound
  exact ⟨_, hNode', hAlike.nodes id node _ hNode hNode'⟩

theorem get?_eq_none
    {id : NodeId}
    (hNone : tree.get? id = none) :
    tree'.get? id = none := by
  have hBound : tree.nodes.size ≤ id.raw :=
    Array.getElem?_eq_none_iff.mp hNone
  have hSize : tree'.nodes.size = tree.nodes.size := hAlike.size
  apply Array.getElem?_eq_none_iff.mpr
  rw [hSize]
  exact hBound

/- Reading a node of both, and nothing changes. -/
theorem inspectNode (id : NodeId) :
    Coupled
      (fun node after node' after' =>
        node.Alike likeness node' ∧
          tree.get? id = some node ∧
          tree'.get? id = some node' ∧
          tree = after ∧ tree' = after')
      (TreeM.inspect (·.node id) tree)
      (TreeM.inspect (·.node id) tree') := by
  cases hNode : tree.get? id with
  | none =>
      have hFails : ∀ other : Tree, other.get? id = none →
          TreeM.inspect (·.node id) other =
            .error .outOfBounds other := by
        intro other hOther
        simp only [TreeM.inspect, Tree.node, hOther]
      exact .of_error (hFails _ hNode)
        (hFails _ (hAlike.get?_eq_none hNode))
  | some node =>
      rcases hAlike.get? hNode with ⟨node', hNode', hSame⟩
      have hRead : ∀ (other : Tree) (found : Node),
          other.get? id = some found →
            TreeM.inspect (·.node id) other =
              .ok found other := by
        intro other found hFound
        apply run_inspect_ok
        unfold Tree.node
        rw [hFound]
      exact .of_ok (hRead _ _ hNode) (hRead _ _ hNode')
        ⟨hSame, rfl, hNode', rfl, rfl⟩

/- A question to one node that alike nodes answer alike. -/
private theorem question
    {α : Type}
    (id : NodeId)
    {read : Node → α}
    (hRead : ∀ node node', node.Alike likeness node' →
      read node = read node') :
    (return read (← tree.node id) : Except TreeFault α) =
      (return read (← tree'.node id)) := by
  unfold Tree.node
  cases hNode : tree.get? id with
  | none =>
      rw [hAlike.get?_eq_none hNode]
  | some node =>
      rcases hAlike.get? hNode with ⟨node', hNode', hSame⟩
      rw [hNode']
      exact congrArg Except.ok (hRead node node' hSame)

theorem tag (id : NodeId) : tree.tag id = tree'.tag id :=
  hAlike.question id fun _ _ hSame => hSame.kind.tag.symm

theorem children (id : NodeId) :
    tree.children id = tree'.children id :=
  hAlike.question id fun _ _ hSame => hSame.kind.children.symm

theorem list (id : NodeId) (slot : ListSlot) :
    tree.list id slot = tree'.list id slot := by
  have hRead : ∀ node node' : Node,
      node.Alike likeness node' →
        (node.kind.list? slot).getD [] =
          (node'.kind.list? slot).getD [] := by
    intro node node' hSame
    rw [hSame.kind.list?]
  exact hAlike.question id hRead

theorem isAssigned (id : NodeId) :
    tree.isAssigned id = tree'.isAssigned id := by
  unfold Tree.isAssigned Tree.node
  cases hNode : tree.get? id with
  | none =>
      rw [hAlike.get?_eq_none hNode]
      rfl
  | some node =>
      rcases hAlike.get? hNode with ⟨node', hNode', hSame⟩
      rw [hNode']
      simp only [bind, Except.bind, hSame.parent]
      cases node.parent with
      | none => rfl
      | some parent =>
          exact hAlike.question parent fun _ _ hOwner =>
            (hOwner.kind.assigns id).symm

end Questions

------------------------------------------------------------
-- Changes To Trees
------------------------------------------------------------

section Changes

variable (hAlike : tree.Alike likeness tree')

include hAlike

/- A change after which the nodes are alike again. -/
private theorem modifyNode
    (id : NodeId)
    {change change' : Node → Node}
    (hChange : ∀ node node',
      tree.get? id = some node →
        tree'.get? id = some node' →
          node.Alike likeness node' →
            (change node).Alike likeness (change' node')) :
    Coupled (Both likeness) (Tree.modifyNode id change tree)
      (Tree.modifyNode id change' tree') := by
  have hSize : tree'.nodes.size = tree.nodes.size := hAlike.size
  unfold Tree.modifyNode
  rw [hSize]
  split
  · next hBound =>
    refine .ok ⟨rfl, ?_, ?_⟩
    · show (tree'.nodes.modify _ _).size =
        (tree.nodes.modify _ _).size
      rw [Array.size_modify, Array.size_modify, hSize]
    · intro other node node' hNode hNode'
      have hAt : (tree.nodes.modify id.raw change)[other.raw]? =
          some node := hNode
      have hAt' :
          (tree'.nodes.modify id.raw change')[other.raw]? =
            some node' := hNode'
      rw [Array.getElem?_modify] at hAt hAt'
      split at hAt
      · next hEq =>
        rw [if_pos hEq] at hAt'
        rcases Option.map_eq_some_iff.mp hAt with
          ⟨old, hOld, rfl⟩
        rcases Option.map_eq_some_iff.mp hAt' with
          ⟨old', hOld', rfl⟩
        rw [← hEq] at hOld hOld'
        exact hChange old old' hOld hOld'
          (hAlike.nodes id old old' hOld hOld')
      · next hNe =>
        rw [if_neg hNe] at hAt'
        exact hAlike.nodes other node node' hAt hAt'
  · exact .error _ _ _

theorem setParent
    (id : NodeId)
    (parent : Option NodeId) :
    Coupled (Both likeness) (Tree.setParent id parent tree)
      (Tree.setParent id parent tree') :=
  hAlike.modifyNode id fun _ _ _ _ hSame =>
    ⟨hSame.kind, hSame.ty, hSame.element, rfl, hSame.typed⟩

/- Another kind with the same tag. -/
private theorem setKind
    {id : NodeId}
    {kind kind' : NodeKind NodeId}
    (hKind : kind.Alike likeness kind')
    (hTag : ∀ node, tree.get? id = some node →
      kind.tag = node.kind.tag) :
    Coupled (Both likeness) (Tree.setKind id kind tree)
      (Tree.setKind id kind' tree') := by
  apply hAlike.modifyNode id
  intro node node' hNode _ hSame
  refine ⟨hKind, hSame.ty, ?_, hSame.parent, ?_⟩
  · show Option.Rel (likeness.element kind.tag) _ _
    rw [hTag node hNode]
    exact hSame.element
  · show likeness.typed kind.tag _
    rw [hTag node hNode]
    exact hSame.typed

theorem take (id : NodeId) :
    Coupled (Both likeness) (Tree.take id tree)
      (Tree.take id tree') := by
  apply (hAlike.setParent id none).bind
  rintro _ after _ after' ⟨_, hAfter⟩
  exact .ok ⟨rfl, hAfter⟩

private theorem claim (owner child : NodeId) :
    Coupled (Both likeness) (Tree.claim owner child tree)
      (Tree.claim owner child tree') := by
  apply (hAlike.inspectNode child).bind
  rintro node _ node' _ ⟨hSame, _, _, rfl, rfl⟩
  rw [hSame.parent]
  cases node.parent with
  | some current => exact .throw _
  | none => exact hAlike.setParent child (some owner)

/- A node is made of the same children in both. -/
theorem alloc
    {kind kind' : NodeKind NodeId}
    {ty : Option TypeId}
    {element element' : Option ElementId}
    (hKind : kind.Alike likeness kind')
    (hElement : Option.Rel (likeness.element kind.tag) element
      element')
    (hTyped : likeness.typed kind.tag ty) :
    Coupled (Both likeness) (Tree.alloc kind ty element tree)
      (Tree.alloc kind' ty element' tree') := by
  unfold Tree.alloc
  rw [run_bind_ok (run_get tree), run_bind_ok (run_get tree'),
    hAlike.size, hKind.children]
  have hClaims : Coupled
      (fun _ after _ after' => after.Alike likeness after')
      (kind.children.forM (Tree.claim ⟨tree.size⟩) tree)
      (kind.children.forM (Tree.claim ⟨tree.size⟩) tree') :=
    .forM kind.children
      (fun child after after' hAfter =>
        (hAfter.claim ⟨tree.size⟩ child).mono
          fun _ _ _ _ hPost => hPost.2) hAlike
  apply hClaims.bind
  rintro _ after _ after' hAfter
  refine .ok ⟨rfl, ?_, ?_⟩
  · show (after'.nodes.push _).size = (after.nodes.push _).size
    have hSize : after'.nodes.size = after.nodes.size :=
      hAfter.size
    rw [Array.size_push, Array.size_push, hSize]
  · intro id node node' hNode hNode'
    have hSize : after'.nodes.size = after.nodes.size :=
      hAfter.size
    have hAt : (after.nodes.push _)[id.raw]? = some node := hNode
    have hAt' : (after'.nodes.push _)[id.raw]? = some node' :=
      hNode'
    rw [Array.getElem?_push] at hAt hAt'
    rw [hSize] at hAt'
    split at hAt
    · next hNew =>
      rw [if_pos hNew] at hAt'
      cases hAt
      cases hAt'
      exact ⟨hKind, rfl, hElement, rfl, hTyped⟩
    · next hOld =>
      rw [if_neg hOld] at hAt'
      exact hAfter.nodes id node node' hAt hAt'

/- A node is put into the place of another in both. -/
theorem replaceWith (old new : NodeId) :
    Coupled (Both likeness) (Tree.replaceWith old new tree)
      (Tree.replaceWith old new tree') := by
  unfold Tree.replaceWith
  by_cases hEq : old = new
  · simp only [if_pos hEq]
    exact .error _ _ _
  simp only [if_neg hEq]
  apply (hAlike.inspectNode old).bind
  rintro node _ node' _ ⟨hSame, _, _, rfl, rfl⟩
  rw [hSame.parent]
  cases node.parent with
  | none => exact .ok ⟨rfl, hAlike⟩
  | some parent =>
      apply (hAlike.setParent old none).bind
      rintro _ freed _ freed' ⟨_, hFreed⟩
      apply (hFreed.inspectNode parent).bind
      rintro owner _ owner' _ ⟨hOwner, hAt, _, rfl, rfl⟩
      simp only [hOwner.kind.children]
      by_cases hMem : old ∈ owner.kind.children
      · simp only [if_pos hMem]
        apply Coupled.bind
          (hFreed.setKind (hOwner.kind.withChildren _) ?_)
        · rintro _ listed _ listed' ⟨_, hListed⟩
          exact hListed.setParent new (some parent)
        · intro found hFound
          rw [hAt] at hFound
          cases hFound
          exact NodeKind.tag_withChildren _ _
      · simp only [if_neg hMem]
        exact .error _ _ _

/- A node is asked for a retained result in both. -/
theorem retainResult (id : NodeId) :
    Coupled (Both likeness) (Tree.retainResult id tree)
      (Tree.retainResult id tree') := by
  unfold Tree.retainResult
  apply (hAlike.inspectNode id).bind
  rintro node _ node' _ ⟨hSame, _, _, rfl, rfl⟩
  rw [hSame.kind.canRetain]
  split
  · have hMarked : Coupled (Both likeness)
        (Tree.setRetained id tree)
        (Tree.setRetained id tree') := by
      apply (hAlike.inspectNode id).bind
      rintro found _ found' _ ⟨hFound, hAt, _, rfl, rfl⟩
      have hMarks := hFound.kind.markRetained?
      cases hMark : found.kind.markRetained? with
      | none =>
          rw [hMark] at hMarks
          generalize found'.kind.markRetained? = mark' at hMarks ⊢
          cases hMarks
          exact .ok ⟨rfl, hAlike⟩
      | some kind =>
          rw [hMark] at hMarks
          generalize found'.kind.markRetained? = mark' at hMarks ⊢
          cases hMarks with
          | some hKind =>
              apply Coupled.bind (hAlike.setKind hKind ?_)
              · rintro _ after _ after' ⟨_, hAfter⟩
                exact .ok ⟨rfl, hAfter⟩
              · intro other hOther
                rw [hAt] at hOther
                cases hOther
                exact (NodeKind.names_of_markRetained? hMark).2
    apply hMarked.bind
    rintro marked after _ after' ⟨rfl, hAfter⟩
    exact .ok ⟨rfl, hAfter⟩
  · exact .ok ⟨rfl, hAlike⟩

omit hAlike in
/- A subtree is copied in both. -/
private theorem deepCopyWithin
    (hAlike : tree.Alike likeness tree')
    (depth : Nat)
    (id : NodeId) :
    Coupled (Both likeness) (Tree.deepCopyWithin depth id tree)
      (Tree.deepCopyWithin depth id tree') := by
  induction depth generalizing id tree tree' with
  | zero => exact .throw _
  | succ depth ih =>
      unfold Tree.deepCopyWithin
      apply (hAlike.inspectNode id).bind
      rintro node _ node' _ ⟨hSame, _, _, rfl, rfl⟩
      rw [hSame.kind.children, hSame.ty]
      have hCopies : Coupled (Both likeness)
          (node.kind.children.mapM
            (Tree.deepCopyWithin depth) tree)
          (node.kind.children.mapM
            (Tree.deepCopyWithin depth) tree') :=
        .mapM node.kind.children
          (fun child after after' hAfter => ih hAfter child)
          hAlike
      apply hCopies.bind
      rintro copies after _ after' ⟨rfl, hAfter⟩
      apply hAfter.alloc (hSame.kind.withChildren copies)
      · rw [NodeKind.tag_withChildren]
        exact hSame.element
      · rw [NodeKind.tag_withChildren]
        exact hSame.typed

theorem deepCopy (id : NodeId) :
    Coupled (Both likeness) (Tree.deepCopy id tree)
      (Tree.deepCopy id tree') := by
  unfold Tree.deepCopy
  rw [run_bind_ok (run_get tree), run_bind_ok (run_get tree'),
    hAlike.size]
  exact deepCopyWithin hAlike _ id

/- Copies are made of several subtrees in both. -/
theorem deepCopies (ids : List NodeId) :
    Coupled (Both likeness) (ids.mapM Tree.deepCopy tree)
      (ids.mapM Tree.deepCopy tree') :=
  .mapM ids (fun id _ _ hAfter => hAfter.deepCopy id) hAlike

end Changes

end Alike

end Tree

end Lowering
