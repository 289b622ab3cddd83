import Lowering.Proofs.Arrays.Start
import Lowering.Proofs.Arrays.Idle

/-
  This file proves that one run of the pass reaches a normal
  form: no construct on arrays is left below what it answers,
  and a further run changes nothing.

  Key definitions include:
    * `Arrays.Construct`

  Main results:
    * `Arrays.Settled.not_construct`
    * `Arrays.lower_reaches_normal_form`
-/

namespace Lowering

namespace Arrays

------------------------------------------------------------
-- Constructs In Trees
------------------------------------------------------------

/- A node that is a construct on arrays. -/
inductive Construct
    (workspace : Workspace)
    (id : NodeId) : Prop
  | creation
      {node : Node}
      {dimensions : List NodeId}
      {initializer : Option NodeId}
      {retained : Bool}
      (stored : workspace.tree.get? id = some node)
      (kind : node.kind =
        .arrayCreation dimensions initializer retained)
  | access
      {node : Node}
      {array index : NodeId}
      (stored : workspace.tree.get? id = some node)
      (kind : node.kind = .arrayAccess array index)
  /- A member named `length` of what is an array. -/
  | length
      {node accessed named : Node}
      {operand name : NodeId}
      {identifier : Name}
      {ty component : TypeId}
      (stored : workspace.tree.get? id = some node)
      (member : memberAccess? node.kind = some (operand, name))
      (storedName : workspace.tree.get? name = some named)
      (kind : named.kind = .simpleName identifier)
      (text : workspace.cache.names.text? identifier =
        some "length")
      (storedOperand : workspace.tree.get? operand =
        some accessed)
      (typed : accessed.ty = some ty)
      (array : componentType? workspace.symbols ty =
        some (some component))
  /- A test against an array over no value primitive. -/
  | typeTest
      {node reference : Node}
      {value tested : NodeId}
      {ty component : TypeId}
      (stored : workspace.tree.get? id = some node)
      (kind : node.kind = .instanceOf value tested)
      (storedTested : workspace.tree.get? tested =
        some reference)
      (typed : reference.ty = some ty)
      (array : componentType? workspace.symbols ty =
        some (some component))
      (object : isPrimitive? workspace.symbols component ≠
        some true)

------------------------------------------------------------
-- Settled Trees
------------------------------------------------------------

section Settled

variable {workspace : Workspace}

/- What is below a place of a settled view is settled. -/
private theorem Settled.sub
    {symbols : Symbols}
    {tree : Tree}
    {placed : Placed}
    {n : NodeId}
    (hHolds : tree.Holds placed)
    (hSettled : Settled symbols placed.view)
    (hMem : n ∈ placed.ids) :
    ∃ label children,
      tree.Holds (.node n label children) ∧
        Settled symbols (Placed.node n label children).view := by
  induction placed with
  | node id label children ih =>
      rw [Placed.ids_node] at hMem
      rcases List.mem_cons.mp hMem with rfl | hBelow
      · exact ⟨label, children, hHolds, hSettled⟩
      · rcases Placed.mem_idsAll.mp hBelow with
          ⟨child, hChild, hIn⟩
        rw [Placed.view_node] at hSettled
        exact ih child hChild (hHolds.child hChild)
          (hSettled.child (List.mem_map_of_mem hChild)) hIn

/- The root of a view carries the label of the node. -/
private theorem label_of_stored
    {tree : Tree}
    {placed : Placed}
    {node : Node}
    (hHolds : tree.Holds placed)
    (hNode : tree.get? placed.id = some node) :
    placed.view.label = node.label := by
  rw [Placed.label_view]
  exact (hHolds.of_get? hNode).1.symm

/- The root of a view is of the kind of the node. -/
private theorem tag_of_stored
    {tree : Tree}
    {placed : Placed}
    {node : Node}
    (hHolds : tree.Holds placed)
    (hNode : tree.get? placed.id = some node) :
    placed.label.shape.tag = node.kind.tag := by
  rw [← NodeKind.tag_shape node.kind, ← Placed.label_view]
  exact congrArg (fun label => label.shape.tag)
    (label_of_stored hHolds hNode)

private theorem ty_of_stored
    {tree : Tree}
    {placed : Placed}
    {node : Node}
    (hHolds : tree.Holds placed)
    (hNode : tree.get? placed.id = some node) :
    placed.view.ty = node.ty :=
  congrArg Label.ty (label_of_stored hHolds hNode)

/- A simple name that reads `length` does so in its view. -/
private theorem isLength?_of_stored
    {placed : Placed}
    {node : Node}
    {identifier : Name}
    (hHolds : workspace.tree.Holds placed)
    (hNode : workspace.tree.get? placed.id = some node)
    (hKind : node.kind = .simpleName identifier)
    (hText : workspace.cache.names.text? identifier =
      some "length") :
    isLength? workspace.symbols placed.view = some true := by
  have hShape : placed.view.label.shape =
      .simpleName identifier := by
    rw [label_of_stored hHolds hNode]
    show node.kind.shape = _
    rw [hKind]
    rfl
  have hFound : workspace.symbols.text? identifier =
      some "length" := hText
  unfold isLength?
  rw [hShape]
  simp only [hFound]
  rfl

/- An operand over an array is one in its view. -/
private theorem arrayOperand?_of_stored
    {placed : Placed}
    {node : Node}
    {ty component : TypeId}
    (hHolds : workspace.tree.Holds placed)
    (hNode : workspace.tree.get? placed.id = some node)
    (hTy : node.ty = some ty)
    (hArray : componentType? workspace.symbols ty =
      some (some component)) :
    arrayOperand? workspace.symbols placed.view =
      some (some component) := by
  unfold arrayOperand?
  rw [ty_of_stored hHolds hNode, hTy]
  exact hArray

/- An array over no value primitive is tested for. -/
private theorem isObjectArray?_of_not_primitive
    {symbols : Symbols}
    {ty component : TypeId}
    (hArray : componentType? symbols ty = some (some component))
    (hObject : isPrimitive? symbols component ≠ some true) :
    isObjectArray? symbols ty ≠ some false := by
  intro hOther
  unfold isObjectArray? at hOther
  rw [hArray] at hOther
  apply hObject
  cases hPrimitive : isPrimitive? symbols component with
  | none => simp [hPrimitive] at hOther
  | some primitive =>
      simp [hPrimitive] at hOther
      rw [hOther]

/- A member access is of one of two shapes. -/
private theorem tag_of_memberAccess?
    {kind : NodeKind NodeId}
    {operand name : NodeId}
    (hMember : memberAccess? kind = some (operand, name)) :
    (kind.tag = .fieldAccess ∨ kind.tag = .qualifiedName) ∧
      kind.children = [operand, name] := by
  cases kind <;> simp [memberAccess?] at hMember
  · rcases hMember with ⟨rfl, rfl⟩
    exact ⟨Or.inr rfl, rfl⟩
  · rcases hMember with ⟨rfl, rfl⟩
    exact ⟨Or.inl rfl, rfl⟩

/- A node with a settled view is no construct. -/
theorem Settled.not_construct
    {id : NodeId}
    {label : Label}
    {children : List Placed}
    (hHolds : workspace.tree.Holds (.node id label children))
    (hSettled : Settled workspace.symbols
      (Placed.node id label children).view) :
    ¬ Construct workspace id := by
  rw [Placed.view_node] at hSettled
  have hRests := hSettled.rests
  have hRoot {node : Node}
      (hStored : workspace.tree.get? id = some node) :
      label.shape.tag = node.kind.tag :=
    tag_of_stored hHolds hStored
  intro hConstruct
  cases hConstruct with
  | creation hStored hKind =>
      apply hRests.no_creation
      rw [hRoot hStored, hKind]
      rfl
  | access hStored hKind =>
      apply hRests.no_access
      rw [hRoot hStored, hKind]
      rfl
  | length hStored hMember hNamed hKind hText hAccessed hTyped
      hArray =>
      rcases tag_of_memberAccess? hMember with
        ⟨hEither, hChildren⟩
      rw [← hRoot hStored] at hEither
      rcases hHolds.pair hStored hChildren with
        ⟨first, second, rfl, rfl, rfl⟩
      have hLength := isLength?_of_stored
        (hHolds.child (by simp)) hNamed hKind hText
      have hOperand := arrayOperand?_of_stored
        (hHolds.child (by simp)) hAccessed hTyped hArray
      rcases hRests.no_length first.view second.view hEither rfl
        with hOther | ⟨_, hNone⟩
      · cases hLength.symm.trans hOther
      · cases hOperand.symm.trans hNone
  | typeTest hStored hKind hReference hTyped hArray hObject =>
      have hTag := hRoot hStored
      rw [hKind] at hTag
      rcases hHolds.pair hStored (congrArg NodeKind.children hKind)
        with ⟨first, second, rfl, rfl, rfl⟩
      have hTy := ty_of_stored (hHolds.child (by simp))
        hReference
      rcases hRests.no_test first.view second.view hTag rfl
        with ⟨found, hFound, hOther⟩
      cases (hTyped.symm.trans hTy.symm).trans hFound
      exact isObjectArray?_of_not_primitive hArray hObject
        hOther

/- Whether a view is settled does not hang on the environment. -/
private theorem Settled.withEnvironment
    {cache : Cache}
    {env env' : Environment}
    {view : View}
    (hSettled : Settled ⟨cache, env⟩ view) :
    Settled ⟨cache, env'⟩ view := by
  induction hSettled with
  | node hRests _ ih =>
      exact .node ⟨hRests.no_creation, hRests.no_access,
        hRests.no_length, hRests.no_test⟩ ih

end Settled

------------------------------------------------------------
-- Whole Runs
------------------------------------------------------------

/-
  What a run answers is in normal form. Nothing below it is a
  construct on arrays, and a further run from there changes
  nothing: neither under the same environment, nor under a new
  one beyond what is made for that. The options of the further
  run do not matter, nor does its table.
-/
theorem lower_reaches_normal_form
    {table : BindingTable}
    {options : Options}
    {root result : NodeId}
    {before after : Workspace}
    (hStart : Start table root before)
    (hRun : lower table options root before =
      .ok result after) :
    (∀ n, after.tree.Below result n → ¬ Construct after n) ∧
      (∀ table' options',
        lower table' options' result after =
          .ok result after) ∧
      ∃ env cache,
        Environment.create after.cache = .ok env cache ∧
          ∀ table' options',
            lower table' options' result
                (after.withSymbols ⟨cache, env⟩) =
              .ok result (after.withSymbols ⟨cache, env⟩) := by
  rcases hStart.finish hRun with ⟨old, new, _, hFinish⟩
  rcases hFinish.lowered with ⟨_, _, hView⟩
  have hStands := hFinish.stands
  have hSettled := settled_lower? hFinish.ready hView
  have hRoot := hFinish.root
  have hAnswer := hFinish.answer
  subst hAnswer
  refine ⟨?_, ?_, ?_⟩
  · intro n hBelow
    rcases Settled.sub hStands.holds hSettled
        (hStands.holds.below_iff.mp hBelow) with
      ⟨label, children, hHolds, hSub⟩
    exact hSub.not_construct hHolds
  · intro table' options'
    rw [run_lower_settled table' options' hStands.holds
      hStands.nodup hSettled, ← hRoot]
  · rcases Symbols.run_create after.cache with
      ⟨env, cache, hCreate, hChanges, _⟩
    refine ⟨env, cache, hCreate, ?_⟩
    intro table' options'
    have hLater : Settled ⟨cache, env⟩ new.view :=
      Settled.mono (Settled.withEnvironment hSettled)
        (Symbols.Grown.ofCache hChanges.grown)
    have hIdle := @run_lower_settled
      (after.withSymbols ⟨cache, env⟩) table' options' new
      hStands.holds hStands.nodup hLater
    rw [hIdle, ← hRoot]
    rfl

/- The call that reads an element is in normal form. -/
theorem lower_reaches_normal_form_readItem :
    ∃ after,
      lower ⟨#[]⟩ {} ⟨2⟩ readItem = .ok ⟨6⟩ after ∧
        (∀ n, after.tree.Below ⟨6⟩ n →
          ¬ Construct after n) ∧
        ∀ table' options',
          lower table' options' ⟨6⟩ after = .ok ⟨6⟩ after := by
  rcases lower_reaches_normal_form start_readItem
    run_lower_readItem with ⟨hNone, hAgain, _⟩
  exact ⟨_, run_lower_readItem, hNone, hAgain⟩

end Arrays

end Lowering
