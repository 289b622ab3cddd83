import Lowering.Arrays.Pass
import Lowering.Proofs.Arrays.Modes.Builds

/-
  This file runs the pass on two workspaces at once, in the
  first with reference counting and in the second with
  automatic reference counting. Each step keeps them in step:
  their trees are alike, their symbols abreast, and the same
  node stands at the root.

  The walk of both is one induction on the depth that is left.
  They go down alike, for the trees have the same shape at all
  times, and they come to the same node with the same tag.

  Key definitions include:
    * `Arrays.Lockstep`
    * `Arrays.InStep`

  Main results:
    * `Arrays.inStep_enter`
    * `Arrays.inStep_leave`
    * `Arrays.inStep_lower`
-/

namespace Lowering

namespace Arrays

open Symbols
open Workspace (inTree nodeType replace refuse)

------------------------------------------------------------
-- Workspaces In Step
------------------------------------------------------------

/- Workspaces that two runs from one start have come to. -/
structure Lockstep
    (start workspace workspace' : Workspace) : Prop where
  abreast : Abreast start.symbols workspace.symbols
    workspace'.symbols
  trees : workspace.tree.Alike
    (likeness start workspace.symbols workspace'.symbols)
    workspace'.tree
  root : workspace'.root = workspace.root

namespace Lockstep

variable {start workspace workspace' : Workspace}
variable (hLock : Lockstep start workspace workspace')

include hLock

/- Later symbols that are abreast. -/
theorem withSymbols
    {symbols symbols' : Symbols}
    (hAbreast : Abreast start.symbols symbols symbols')
    (hGrown : Grown workspace.symbols symbols)
    (hGrown' : Grown workspace'.symbols symbols') :
    Lockstep start (workspace.withSymbols symbols)
      (workspace'.withSymbols symbols') where
  abreast := hAbreast
  trees := hLock.trees.mono (likeness_allows hGrown hGrown')
  root := hLock.root

end Lockstep

/-
  Two steps end alike: with the same answer and in step, or
  with the same error.
-/
def InStep
    {α : Type}
    (start : Workspace)
    (step step' : LowerM α)
    (workspace workspace' : Workspace) : Prop :=
  Coupled
    (fun answer after answer' after' =>
      answer = answer' ∧ Lockstep start after after')
    (step workspace) (step' workspace')

namespace InStep

variable {α β γ : Type}
variable {start workspace workspace' : Workspace}

theorem bind
    {first first' : LowerM α}
    {next next' : α → LowerM β}
    (hFirst : InStep start first first' workspace workspace')
    (hNext : ∀ answer after after',
      Lockstep start after after' →
        InStep start (next answer) (next' answer) after
          after') :
    InStep start (first >>= next) (first' >>= next') workspace
      workspace' := by
  apply Coupled.bind hFirst
  rintro answer after _ after' ⟨rfl, hAfter⟩
  exact hNext answer after after' hAfter

/- What is done with each item in a row. -/
theorem forM
    {step step' : α → LowerM PUnit}
    (items : List α)
    (hStep : ∀ item first first',
      Lockstep start first first' →
        InStep start (step item) (step' item) first first')
    (hLock : Lockstep start workspace workspace') :
    InStep start (items.forM step) (items.forM step') workspace
      workspace' := by
  have hItems : Coupled
      (fun _ after _ after' => Lockstep start after after')
      (items.forM step workspace)
      (items.forM step' workspace') := by
    apply Coupled.forM items _ hLock
    intro item first first' hFirst
    apply Coupled.mono (hStep item first first' hFirst)
    exact fun _ _ _ _ hPost => hPost.2
  apply hItems.mono
  exact fun _ _ _ _ hAfter => ⟨rfl, hAfter⟩

theorem refuse
    (cause : LoweringViolation) :
    InStep start (Workspace.refuse cause : LowerM α)
      (Workspace.refuse cause) workspace workspace' :=
  .throw _

/- A question that trees which are alike answer the same. -/
theorem read
    {question : Tree → Except TreeFault α}
    {next next' : α → LowerM β}
    (hSame : question workspace.tree =
      question workspace'.tree)
    (hNext : ∀ answer,
      InStep start (next answer) (next' answer) workspace
        workspace') :
    InStep start (inTree question >>= next)
      (inTree question >>= next') workspace workspace' := by
  have hRead : Coupled
      (fun answer after answer' after' =>
        answer = answer' ∧ workspace = after ∧
          workspace' = after')
      (inTree question workspace)
      (inTree question workspace') :=
    .inTree hSame fun _ _ => ⟨rfl, rfl, rfl⟩
  apply Coupled.bind hRead
  rintro answer _ _ _ ⟨rfl, rfl, rfl⟩
  exact hNext answer

section Steps

variable (hLock : Lockstep start workspace workspace')

include hLock

theorem pure
    (answer : α) :
    InStep start (pure answer) (pure answer) workspace
      workspace' :=
  .ok ⟨rfl, hLock⟩

/- Reading a node, of which only names and elements differ. -/
theorem node
    (id : NodeId)
    {next next' : Node → LowerM β}
    (hNext : ∀ node node',
      workspace.tree.get? id = some node →
        node.Alike
            (likeness start workspace.symbols
              workspace'.symbols) node' →
          InStep start (next node) (next' node') workspace
            workspace') :
    InStep start (inTree (·.node id) >>= next)
      (inTree (·.node id) >>= next') workspace workspace' := by
  have hRead : Coupled
      (fun node after node' after' =>
        workspace.tree.get? id = some node ∧
          node.Alike
            (likeness start workspace.symbols
              workspace'.symbols) node' ∧
          workspace = after ∧ workspace' = after')
      (inTree (·.node id) workspace)
      (inTree (·.node id) workspace') := by
    apply Coupled.liftTree (hLock.trees.inspectNode id)
    rintro node _ node' _ ⟨hAlike, hNode, _, rfl, rfl⟩
    exact ⟨hNode, hAlike, rfl, rfl⟩
  apply Coupled.bind hRead
  rintro node _ node' _ ⟨hNode, hAlike, rfl, rfl⟩
  exact hNext node node' hNode hAlike

/- The type of a node, or the same refusal. -/
theorem nodeType
    (id : NodeId)
    {next next' : TypeId → LowerM β}
    (hNext : ∀ ty node,
      workspace.tree.get? id = some node →
        node.ty = some ty →
          InStep start (next ty) (next' ty) workspace
            workspace') :
    InStep start (nodeType id >>= next)
      (nodeType id >>= next') workspace workspace' := by
  unfold Workspace.nodeType
  rw [bind_assoc, bind_assoc]
  apply node hLock id
  intro node node' hNode hAlike
  rw [hAlike.ty, hAlike.kind.tag]
  cases hTy : node.ty with
  | none => exact .throw _
  | some ty => exact hNext ty node hNode hTy

/- A step on the trees alone. -/
theorem onTree
    {step step' : TreeM α}
    {next next' : α → LowerM β}
    (hRuns : Coupled
      (Tree.Both
        (likeness start workspace.symbols workspace'.symbols))
      (step workspace.tree) (step' workspace'.tree))
    (hNext : ∀ answer tree tree',
      Lockstep start { workspace with tree }
          { workspace' with tree := tree' } →
        InStep start (next answer) (next' answer)
          { workspace with tree }
          { workspace' with tree := tree' }) :
    InStep start (liftM step >>= next) (liftM step' >>= next')
      workspace workspace' := by
  have hSteps : Coupled
      (fun answer after answer' after' =>
        answer = answer' ∧ ∃ tree tree',
          after = { workspace with tree } ∧
            after' = { workspace' with tree := tree' } ∧
            Lockstep start { workspace with tree }
              { workspace' with tree := tree' })
      ((liftM step : LowerM α) workspace)
      ((liftM step' : LowerM α) workspace') :=
    .liftTree hRuns fun _ tree _ tree' hPost =>
      ⟨hPost.1, tree, tree', rfl, rfl,
        hLock.abreast, hPost.2, hLock.root⟩
  apply Coupled.bind hSteps
  rintro answer _ _ _ ⟨rfl, tree, tree', rfl, rfl, hLater⟩
  exact hNext answer tree tree' hLater

/- A choice of symbols. -/
theorem choose
    {Same : Symbols → Symbols → α → γ → Prop}
    {step : SymbolM α}
    {step' : SymbolM γ}
    {next : α → LowerM β}
    {next' : γ → LowerM β}
    (hAgrees : Agrees start.symbols Same step step'
      workspace.symbols workspace'.symbols)
    (hNext : ∀ answer answer' symbols symbols',
      Lockstep start (workspace.withSymbols symbols)
          (workspace'.withSymbols symbols') →
        Same symbols symbols' answer answer' →
          InStep start (next answer) (next' answer')
            (workspace.withSymbols symbols)
            (workspace'.withSymbols symbols')) :
    InStep start (liftM step >>= next) (liftM step' >>= next')
      workspace workspace' := by
  have hSteps : Coupled
      (fun answer after answer' after' =>
        ∃ symbols symbols',
          after = workspace.withSymbols symbols ∧
            after' = workspace'.withSymbols symbols' ∧
            Lockstep start (workspace.withSymbols symbols)
              (workspace'.withSymbols symbols') ∧
            Same symbols symbols' answer answer')
      ((liftM step : LowerM α) workspace)
      ((liftM step' : LowerM γ) workspace') := by
    apply Coupled.liftSymbols hAgrees
    rintro answer symbols answer' symbols'
      ⟨hAbreast, hGrown, hGrown', hSame⟩
    exact ⟨symbols, symbols', rfl, rfl,
      hLock.withSymbols hAbreast hGrown hGrown', hSame⟩
  apply Coupled.bind hSteps
  rintro answer _ answer' _
    ⟨symbols, symbols', rfl, rfl, hLater, hSame⟩
  exact hNext answer answer' symbols symbols' hLater hSame

/- A choice that both make the same. -/
theorem agree
    {step step' : SymbolM α}
    (hAgrees : Agrees start.symbols (fun _ _ => Eq) step step'
      workspace.symbols workspace'.symbols) :
    InStep start (liftM step) (liftM step') workspace
      workspace' := by
  apply Coupled.liftSymbols hAgrees
  rintro answer symbols _ symbols'
    ⟨hAbreast, hGrown, hGrown', rfl⟩
  exact ⟨rfl, hLock.withSymbols hAbreast hGrown hGrown'⟩

/- A node is put into the place of another. -/
theorem replace
    (old new : NodeId) :
    InStep start (replace old new) (replace old new) workspace
      workspace' := by
  unfold Workspace.replace
  apply onTree hLock (hLock.trees.replaceWith old new)
  intro _ tree tree' hLater
  refine .ok ⟨rfl, hLater.abreast, hLater.trees, ?_⟩
  show (if old = workspace'.root then new else workspace'.root) =
    if old = workspace.root then new else workspace.root
  rw [hLock.root]

/- A piece is built and put into the place of a node. -/
theorem place
    {build build' : TreeM NodeId}
    (old : NodeId)
    (hBuilds : Coupled
      (Tree.Both
        (likeness start workspace.symbols workspace'.symbols))
      (build workspace.tree) (build' workspace'.tree)) :
    InStep start (liftM build >>= Workspace.replace old)
      (liftM build' >>= Workspace.replace old) workspace
      workspace' := by
  apply onTree hLock hBuilds
  intro new tree tree' hLater
  exact replace hLater old new

end Steps

end InStep

------------------------------------------------------------
-- Constructs
------------------------------------------------------------

/- Both see the same operands in a member access. -/
private theorem memberAccess?_of_alike
    {likeness : Likeness}
    {kind kind' : NodeKind NodeId}
    (hAlike : kind.Alike likeness kind') :
    memberAccess? kind' = memberAccess? kind := by
  cases hAlike <;> rfl

section Constructs

variable {start workspace workspace' : Workspace}
variable (hLock : Lockstep start workspace workspace')
variable (hEntitled : start.symbols.Entitled)
variable (table : BindingTable)
variable (id : NodeId)

include hLock hEntitled

theorem inStep_lowerAccess :
    InStep start (lowerAccess table id) (lowerAccess table id)
      workspace workspace' := by
  unfold lowerAccess
  apply InStep.node hLock id
  intro node node' hNode hAlike
  rcases node with ⟨kind, ty, element, parent⟩
  rcases node' with ⟨kind', ty', element', parent'⟩
  have hKind : kind.Alike _ kind' := hAlike.kind
  cases hKind with
  | plain _ hNames =>
      cases kind with
      | arrayAccess array index =>
          simp only []
          apply InStep.nodeType hLock id
          intro component _ _ _
          apply InStep.read (hLock.trees.isAssigned id)
          intro assigned
          apply InStep.choose hLock (agrees_elementAccess
            hLock.abreast hEntitled table component assigned)
          intro access access' symbols symbols' hLater hAccess
          exact InStep.place hLater id
            (hAccess.build typed_likeness hLater.trees array
              index)
      | _ => exact InStep.pure hLock ()
  | _ => exact InStep.pure hLock ()

/- A store of an object is put into the place of a node. -/
private theorem inStep_store
    (component : TypeId)
    (array index value : NodeId) :
    InStep start
      (do
        let value ← Tree.take value
        let retained ← Tree.retainResult value
        let function ← storeFunction table retained.isSome
        let array ← Tree.take array
        let index ← Tree.take index
        let call ←
          functionCall function component [array, index, value]
        replace id call
        return .instead call : LowerM Descent)
      (do
        let value ← Tree.take value
        let retained ← Tree.retainResult value
        let function ← storeFunction table retained.isSome
        let array ← Tree.take array
        let index ← Tree.take index
        let call ←
          functionCall function component [array, index, value]
        replace id call
        return .instead call : LowerM Descent)
      workspace workspace' := by
  apply InStep.onTree hLock (hLock.trees.take value)
  intro value _ _ hFirst
  apply InStep.onTree hFirst (hFirst.trees.retainResult value)
  intro retained _ _ hSecond
  apply InStep.choose hSecond (agrees_storeFunction
    hSecond.abreast hEntitled table retained.isSome)
  intro function function' _ _ hThird hFunction
  apply InStep.onTree hThird (hThird.trees.take array)
  intro array _ _ hFourth
  apply InStep.onTree hFourth (hFourth.trees.take index)
  intro index _ _ hFifth
  apply InStep.onTree hFifth (alike_functionCall typed_likeness
    hFunction hFifth.trees component _)
  intro call _ _ hSixth
  apply (InStep.replace hSixth id call).bind
  intro _ after after' hLast
  exact InStep.pure hLast (Descent.instead call)

theorem inStep_lowerAssignment :
    InStep start (lowerAssignment table id)
      (lowerAssignment table id) workspace workspace' := by
  unfold lowerAssignment
  apply InStep.node hLock id
  intro node node' _ hAlike
  rcases node with ⟨kind, ty, element, parent⟩
  rcases node' with ⟨kind', ty', element', parent'⟩
  have hKind : kind.Alike _ kind' := hAlike.kind
  cases hKind with
  | plain =>
      cases kind with
      | assignment op lhs rhs =>
          simp only []
          apply InStep.node hLock lhs
          intro left left' _ hLeft
          rcases left with ⟨kind, ty, element, parent⟩
          rcases left' with ⟨kind', ty', element', parent'⟩
          have hKind : kind.Alike _ kind' := hLeft.kind
          cases hKind with
          | plain =>
              cases kind with
              | arrayAccess array index =>
                  simp only []
                  apply InStep.nodeType hLock lhs
                  intro component _ _ _
                  apply InStep.choose hLock
                    (agrees_isPrimitive hLock.abreast component)
                  rintro primitive _ _ _ hLater ⟨rfl, _⟩
                  split_ifs
                  · exact InStep.pure hLater Descent.children
                  · exact InStep.pure hLater Descent.children
                  · exact inStep_store hLater hEntitled table id
                      component array index rhs
              | _ => exact InStep.pure hLock Descent.children
          | _ => exact InStep.pure hLock Descent.children
      | _ => exact InStep.pure hLock Descent.children
  | _ => exact InStep.pure hLock Descent.children

omit hEntitled in
/- Both see the same names as `length`. -/
private theorem inStep_isLengthName
    (name : NodeId) :
    InStep start (isLengthName name) (isLengthName name)
      workspace workspace' := by
  unfold isLengthName
  apply InStep.node hLock name
  intro node node' _ hAlike
  rcases node with ⟨kind, ty, element, parent⟩
  rcases node' with ⟨kind', ty', element', parent'⟩
  have hKind : kind.Alike _ kind' := hAlike.kind
  cases hKind with
  | simpleName hName =>
      exact InStep.agree hLock
        (agrees_isLength hLock.abreast hName)
  | plain _ hNames =>
      cases kind with
      | simpleName identifier => cases hNames
      | _ => exact InStep.pure hLock false
  | _ => exact InStep.pure hLock false

omit hEntitled in
private theorem inStep_operandComponent
    (operand : NodeId) :
    InStep start (operandComponent? operand)
      (operandComponent? operand) workspace workspace' := by
  unfold operandComponent?
  apply InStep.node hLock operand
  intro node node' _ hAlike
  rw [hAlike.ty]
  cases node.ty with
  | none => exact InStep.pure hLock none
  | some ty =>
      exact InStep.agree hLock
        (agrees_componentType hLock.abreast ty)

theorem inStep_lowerLength :
    InStep start (lowerLength table id) (lowerLength table id)
      workspace workspace' := by
  unfold lowerLength
  apply InStep.node hLock id
  intro node node' _ hAlike
  rw [memberAccess?_of_alike hAlike.kind]
  cases memberAccess? node.kind with
  | none => exact InStep.pure hLock ()
  | some member =>
      rcases member with ⟨operand, name⟩
      apply (inStep_isLengthName hLock name).bind
      intro length first first' hFirst
      cases length with
      | false => exact InStep.pure hFirst ()
      | true =>
          apply (inStep_operandComponent hFirst operand).bind
          intro found second second' hSecond
          cases found with
          | none => exact InStep.pure hSecond ()
          | some component =>
              apply InStep.choose hSecond (agrees_sizeAccess
                hSecond.abreast hEntitled table component)
              intro access access' _ _ hThird hAccess
              exact InStep.place hThird id
                (hAccess.build typed_likeness hThird.trees
                  operand)

theorem inStep_lowerTypeTest :
    InStep start (lowerTypeTest table id)
      (lowerTypeTest table id) workspace workspace' := by
  unfold lowerTypeTest
  apply InStep.node hLock id
  intro node node' _ hAlike
  rcases node with ⟨kind, ty, element, parent⟩
  rcases node' with ⟨kind', ty', element', parent'⟩
  have hKind : kind.Alike _ kind' := hAlike.kind
  cases hKind with
  | plain =>
      cases kind with
      | instanceOf expression tested =>
          simp only []
          apply InStep.nodeType hLock tested
          intro ty _ _ _
          apply InStep.choose hLock
            (agrees_isObjectArray hLock.abreast ty)
          rintro objects _ _ _ hFirst rfl
          cases objects with
          | false => exact InStep.pure hFirst ()
          | true =>
              apply InStep.choose hFirst (agrees_typeTest
                hFirst.abreast hEntitled table ty)
              intro test test' _ _ hSecond hTest
              exact InStep.place hSecond id
                (hTest.build typed_likeness hSecond.trees
                  expression)
      | _ => exact InStep.pure hLock ()
  | _ => exact InStep.pure hLock ()

/-
  An array creation. The first run asks for a retained result
  only where the creation is marked, the second always.
-/
theorem inStep_lowerCreation :
    InStep start
      (lowerCreation table
        { memoryManagement := .referenceCounting } id)
      (lowerCreation table { memoryManagement := .arc } id)
      workspace workspace' := by
  unfold lowerCreation
  apply InStep.node hLock id
  intro node node' hNode hAlike
  have hTyped := hAlike.typed
  rcases node with ⟨kind, ty, element, parent⟩
  rcases node' with ⟨kind', ty', element', parent'⟩
  have hKind : kind.Alike _ kind' := hAlike.kind
  cases hKind with
  | plain =>
      cases kind with
      | arrayCreation dimensions initializer marked =>
          simp only []
          apply InStep.nodeType hLock id
          intro array found hFound hTy
          cases hNode.symm.trans hFound
          have hWritten : start.cache.Written array :=
            hTyped rfl array hTy
          have hArc : (marked || Options.useArc
              { memoryManagement := .arc }) = true :=
            Bool.or_true marked
          rw [hArc]
          generalize (marked || Options.useArc
            { memoryManagement := .referenceCounting }) =
              retained
          cases initializer with
          | some initializer =>
              simp only []
              apply InStep.read
                (hLock.trees.list initializer .expressions)
              intro elements
              apply InStep.choose hLock
                (agrees_initializedFactory hLock.abreast
                  hEntitled table id hWritten retained)
              intro factory factory' _ _ hLater hFactory
              exact InStep.place hLater id
                (hFactory.buildInitialized typed_likeness
                  hLater.trees elements)
          | none =>
              rcases dimensions with _ | ⟨first, _ | ⟨second, rest⟩⟩
              · exact InStep.refuse _
              · simp only []
                apply InStep.choose hLock
                  (agrees_lengthFactory hLock.abreast hEntitled
                    table id hWritten retained)
                intro factory factory' _ _ hLater hFactory
                exact InStep.place hLater id
                  (hFactory.buildOfLength typed_likeness
                    hLater.trees first)
              · simp only []
                apply InStep.choose hLock
                  (agrees_lengthsFactory hLock.abreast hEntitled
                    table id hWritten retained _)
                intro factory factory' _ _ hLater hFactory
                exact InStep.place hLater id
                  (NestedFactory.Alike.build typed_likeness
                    hFactory hLater.trees _)
      | _ => exact InStep.pure hLock ()
  | _ => exact InStep.pure hLock ()

/- What is done on the way down. -/
theorem inStep_enter
    (tag : NodeTag) :
    InStep start (enter table id tag) (enter table id tag)
      workspace workspace' := by
  cases tag with
  | assignment =>
      exact inStep_lowerAssignment hLock hEntitled table id
  | _ => exact InStep.pure hLock Descent.children

/- What is done on the way up. -/
theorem inStep_leave
    (tag : NodeTag) :
    InStep start
      (leave table { memoryManagement := .referenceCounting } id
        tag)
      (leave table { memoryManagement := .arc } id tag)
      workspace workspace' := by
  cases tag with
  | arrayCreation =>
      exact inStep_lowerCreation hLock hEntitled table id
  | arrayAccess =>
      exact inStep_lowerAccess hLock hEntitled table id
  | fieldAccess =>
      exact inStep_lowerLength hLock hEntitled table id
  | qualifiedName =>
      exact inStep_lowerLength hLock hEntitled table id
  | instanceOf =>
      exact inStep_lowerTypeTest hLock hEntitled table id
  | _ => exact InStep.pure hLock ()

end Constructs

------------------------------------------------------------
-- The Walk
------------------------------------------------------------

section Walk

variable {start workspace workspace' : Workspace}
variable (hEntitled : start.symbols.Entitled)
variable (table : BindingTable)

include hEntitled

/- The induction is on the depth that is left. -/
private theorem inStep_walkWithin
    (hLock : Lockstep start workspace workspace')
    (depth : Nat)
    (id : NodeId) :
    InStep start
      ((visitor table
        { memoryManagement := .referenceCounting }).walkWithin
          depth id)
      ((visitor table { memoryManagement := .arc }).walkWithin
        depth id)
      workspace workspace' := by
  induction depth generalizing id workspace workspace' with
  | zero => exact .error _ _ _
  | succ depth ih =>
      unfold Visitor.walkWithin
      apply InStep.read (hLock.trees.tag id)
      intro tag
      apply (inStep_enter hLock hEntitled table id tag).bind
      intro descent first first' hFirst
      cases descent with
      | children =>
          apply InStep.read (hFirst.trees.children id)
          intro children
          apply (InStep.forM children (fun child _ _ hStill =>
            ih hStill child) hFirst).bind
          intro _ second second' hSecond
          exact inStep_leave hSecond hEntitled table id tag
      | skip => exact inStep_leave hFirst hEntitled table id tag
      | «instead» replacement =>
          apply (ih hFirst replacement).bind
          intro _ second second' hSecond
          exact inStep_leave hSecond hEntitled table id tag

/- The whole pass. -/
theorem inStep_lower
    (hLock : Lockstep start workspace workspace')
    (root : NodeId) :
    InStep start
      (lower table { memoryManagement := .referenceCounting }
        root)
      (lower table { memoryManagement := .arc } root)
      workspace workspace' := by
  have hBegin : Lockstep start { workspace with root }
      { workspace' with root } :=
    ⟨hLock.abreast, hLock.trees, rfl⟩
  have hWalk : InStep start
      ((visitor table
        { memoryManagement := .referenceCounting }).walkWithin
          ((visitor table
            { memoryManagement := .referenceCounting }).reach
              workspace.tree.size) root >>=
        fun _ => do return (← get).root : LowerM NodeId)
      ((visitor table { memoryManagement := .arc }).walkWithin
          ((visitor table { memoryManagement := .arc }).reach
            workspace'.tree.size) root >>=
        fun _ => do return (← get).root : LowerM NodeId)
      { workspace with root } { workspace' with root } := by
    rw [hLock.trees.size]
    apply (inStep_walkWithin hEntitled table hBegin _
      root).bind
    intro _ after after' hAfter
    exact .ok ⟨hAfter.root.symm, hAfter⟩
  exact hWalk

end Walk

end Arrays

end Lowering
