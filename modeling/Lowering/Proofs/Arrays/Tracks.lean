import Lowering.Proofs.Symbols.Session
import Lowering.Proofs.Tree.Steady
import Lowering.Proofs.Arrays.Reference
import Lowering.Proofs.Arrays.Evolution

/-
  This file tracks what the pass does to the symbols and to
  the tree, whatever tree it is given.

  The symbols evolve by what nodes want, and a node can only
  want what its label tells. This is so for runs that fail as
  well. On the way up, a node is lowered by work at its place,
  which keeps all properties that such work keeps.

  Key definitions include:
    * `Arrays.wants?`
    * `Arrays.Evolves`
    * `Arrays.Tracks`
    * `Arrays.WantedAt`

  Main results:
    * `Arrays.tracks_leave`
    * `Arrays.tracks_enter`
    * `Arrays.follows_lower`
    * `Arrays.session_lower`
-/

namespace Lowering

namespace Arrays

open Symbols
open Workspace (inTree nodeType replace)
open Lowering.Tree (Keeps KeptAt)

------------------------------------------------------------
-- What Nodes Want
------------------------------------------------------------

/- What a node may want of the runtime. -/
def wants? (options : Options) (label : Label) : Option Wanted :=
  match label.shape, label.ty with
  | .arrayCreation _ (some _) marked, some array =>
    some (.elements array (marked || options.useArc))
  | .arrayCreation [_] none marked, some array =>
    some (.length array (marked || options.useArc))
  | .arrayCreation dimensions none marked, some array =>
    some (.lengths array dimensions.length
      (marked || options.useArc))
  | .instanceOf _ _, _ => some .test
  | _, _ => none

/- The symbols of a workspace have evolved. -/
def Evolves
    (table : BindingTable)
    (want : Wanted → Prop)
    (before after : Workspace) : Prop :=
  before.symbols.Ready →
    Evolved table want before.symbols after.symbols

theorem Evolves.isHistory
    (table : BindingTable)
    (want : Wanted → Prop) :
    IsHistory (Evolves table want) where
  refl := fun _ _ => (Evolved.isHistory table want).refl _
  trans := by
    intro first second third hFirst hSecond hReady
    have hMiddle := hFirst hReady
    exact (Evolved.isHistory table want).trans hMiddle
      (hSecond (hMiddle.ready hReady))

------------------------------------------------------------
-- Pieces
------------------------------------------------------------

section Pieces

variable {id : NodeId}
variable {property : Tree → Prop}

private theorem keeps_className
    (hKept : KeptAt id property)
    (receiver : ClassName) :
    Keeps property receiver.build :=
  hKept.alloc _ _ _

private theorem keeps_classObject
    (hKept : KeptAt id property)
    (object : ClassObject) :
    Keeps property object.build :=
  hKept.alloc _ _ _

private theorem keeps_staticCall
    (hKept : KeptAt id property)
    (call : StaticCall)
    (arguments : List NodeId) :
    Keeps property (call.build arguments) :=
  (keeps_className hKept call.receiver).bind
    fun _ => hKept.alloc _ _ _

private theorem keeps_copies
    (hKept : KeptAt id property)
    (nodes : List NodeId) :
    Keeps property (nodes.mapM Tree.deepCopy) :=
  Keeps.mapM nodes fun node => hKept.copy node

private theorem keeps_factory
    (hKept : KeptAt id property)
    (factory : Factory)
    (arguments : List NodeId) :
    Keeps property (factory.build arguments) := by
  unfold Factory.build
  cases factory.object with
  | none => exact keeps_staticCall hKept _ _
  | some object =>
      exact (keeps_classObject hKept object).bind
        fun _ => keeps_staticCall hKept _ _

private theorem keeps_initialized
    (hKept : KeptAt id property)
    (factory : Factory)
    (elements : List NodeId) :
    Keeps property (factory.buildInitialized elements) :=
  (keeps_copies hKept elements).bind fun _ =>
    (hKept.alloc _ _ _).bind fun _ =>
    (hKept.alloc _ _ _).bind fun _ =>
    keeps_factory hKept factory _

private theorem keeps_ofLength
    (hKept : KeptAt id property)
    (factory : Factory)
    (length : NodeId) :
    Keeps property (factory.buildOfLength length) :=
  (hKept.copy length).bind fun _ =>
    keeps_factory hKept factory _

private theorem keeps_nested
    (hKept : KeptAt id property)
    (factory : NestedFactory)
    (dimensions : List NodeId) :
    Keeps property (factory.build dimensions) :=
  (hKept.alloc _ _ _).bind fun _ =>
    (keeps_copies hKept dimensions).bind fun _ =>
    (hKept.alloc _ _ _).bind fun _ =>
    keeps_factory hKept factory.toFactory _

private theorem keeps_elementAccess
    (hKept : KeptAt id property)
    (access : ElementAccess)
    (array index : NodeId) :
    Keeps property (access.build array index) := by
  apply (hKept.copy array).bind
  intro array
  apply (hKept.copy index).bind
  intro index
  apply (hKept.alloc _ _ _).bind
  intro call
  cases access.target with
  | none => exact Keeps.pure _
  | some component => exact hKept.alloc _ _ _

private theorem keeps_sizeAccess
    (hKept : KeptAt id property)
    (access : SizeAccess)
    (array : NodeId) :
    Keeps property (access.build array) :=
  (hKept.take array).bind fun _ =>
    (hKept.alloc _ _ _).bind fun _ => hKept.alloc _ _ _

private theorem keeps_typeTest
    (hKept : KeptAt id property)
    (test : TypeTest)
    (value : NodeId) :
    Keeps property (test.build value) :=
  (keeps_classObject hKept test.object).bind fun _ =>
    (hKept.take value).bind fun _ => hKept.alloc _ _ _

end Pieces

------------------------------------------------------------
-- Steps On The Workspace
------------------------------------------------------------

/-
  An operation evolves the symbols, and it keeps a property of
  the tree if it succeeds.
-/
structure Tracks
    {α : Type}
    (table : BindingTable)
    (property : Tree → Prop)
    (want : Wanted → Prop)
    (operation : LowerM α)
    (before : Workspace) : Prop where
  follows : Follows (Evolves table want) operation before
  keeps : ∀ answer after,
    operation before = .ok answer after →
      property before.tree →
        property after.tree

section Steps

variable {α β : Type}
variable {table : BindingTable}
variable {id : NodeId}
variable {property : Tree → Prop}
variable {want want' : Wanted → Prop}
variable {workspace : Workspace}

namespace Tracks

theorem pure (answer : α) :
    Tracks table property want (pure answer : LowerM α)
      workspace where
  follows := Follows.pure (Evolves.isHistory table want) _ _
  keeps := by
    intro _ after hRun hBefore
    cases hRun
    exact hBefore

theorem throw (error : LoweringError) :
    Tracks table property want (throw error : LowerM α)
      workspace where
  follows := Follows.throw (Evolves.isHistory table want) _ _
  keeps := fun _ _ hRun => absurd hRun (by nofun)

theorem bind
    {first : LowerM α}
    {next : α → LowerM β}
    (hFirst : Tracks table property want first workspace)
    (hNext : ∀ answer later,
      first workspace = .ok answer later →
        Tracks table property want (next answer) later) :
    Tracks table property want (first >>= next) workspace where
  follows := hFirst.follows.bind (Evolves.isHistory table want)
    fun answer later hRun => (hNext answer later hRun).follows
  keeps := by
    intro answer after hRun hBefore
    rcases run_bind_eq_ok hRun with
      ⟨found, later, hRunFirst, hRunNext⟩
    exact (hNext found later hRunFirst).keeps answer after
      hRunNext (hFirst.keeps found later hRunFirst hBefore)

theorem mono
    {operation : LowerM α}
    (hWant : ∀ wanted, want wanted → want' wanted)
    (hRun : Tracks table property want operation workspace) :
    Tracks table property want' operation workspace where
  follows := hRun.follows.mono fun _ _ hEvolves hReady =>
    (hEvolves hReady).mono hWant
  keeps := hRun.keeps

/- A step on the tree leaves the symbols alone. -/
theorem onTree
    {operation : TreeM α}
    (hKeeps : Keeps property operation) :
    Tracks table property want (liftM operation : LowerM α)
      workspace := by
  cases hRun : operation workspace.tree with
  | ok answer tree =>
      have hLifted := run_liftTree_ok hRun
      constructor
      · exact .of_ok hLifted
          ((Evolves.isHistory table want).refl _)
      · intro found after hFound hBefore
        rw [hLifted] at hFound
        cases hFound
        exact hKeeps _ _ _ hRun hBefore
  | error fault tree =>
      have hLifted := run_liftTree_error hRun
      constructor
      · exact .of_error hLifted
          ((Evolves.isHistory table want).refl _)
      · intro found after hFound
        rw [hLifted] at hFound
        cases hFound

/- A step on the symbols leaves the tree alone. -/
theorem onSymbols
    {operation : SymbolM α}
    (hRun : workspace.symbols.Ready →
      Follows (Evolved table want) operation workspace.symbols) :
    Tracks table property want (liftM operation : LowerM α)
      workspace := by
  cases hCase : operation workspace.symbols with
  | ok answer symbols =>
      have hLifted := run_liftSymbols_ok hCase
      constructor
      · intro hReady
        rw [hLifted]
        exact (hRun hReady).run_ok hCase
      · intro found after hFound hBefore
        rw [hLifted] at hFound
        cases hFound
        exact hBefore
  | error error symbols =>
      have hLifted := run_liftSymbols_error hCase
      constructor
      · intro hReady
        rw [hLifted]
        exact (hRun hReady).run_error hCase
      · intro found after hFound
        rw [hLifted] at hFound
        cases hFound

/- What comes after a question to the tree knows the answer. -/
theorem inTree
    {question : Tree → Except TreeFault α}
    {next : α → LowerM β}
    (hNext : ∀ answer,
      question workspace.tree = .ok answer →
        Tracks table property want (next answer) workspace) :
    Tracks table property want
      (Workspace.inTree question >>= next)
      workspace := by
  have hQuestion : Tracks table property want
      (Workspace.inTree question) workspace :=
    onTree (Keeps.inspect question)
  apply hQuestion.bind
  intro answer later hRun
  rcases run_inTree_eq_ok hRun with ⟨hAnswer, rfl⟩
  exact hNext answer hAnswer

theorem node
    {next : Node → LowerM β}
    (hNext : ∀ stored,
      workspace.tree.get? id = some stored →
        Tracks table property want (next stored) workspace) :
    Tracks table property want
      (Workspace.inTree (·.node id) >>= next) workspace :=
  inTree fun stored hStored =>
    hNext stored (Tree.get?_of_node hStored)

theorem nodeType
    {next : TypeId → LowerM β}
    (hNext : ∀ stored ty,
      workspace.tree.get? id = some stored →
        stored.ty = some ty →
          Tracks table property want (next ty) workspace) :
    Tracks table property want (Workspace.nodeType id >>= next)
      workspace := by
  unfold Workspace.nodeType
  rw [bind_assoc]
  apply Tracks.node
  intro stored hStored
  cases hTy : stored.ty with
  | none => exact Tracks.throw _
  | some ty => exact hNext stored ty hStored hTy

theorem replace
    (hKept : KeptAt id property)
    (new : NodeId) :
    Tracks table property want (Workspace.replace id new)
      workspace := by
  unfold Workspace.replace
  apply (onTree (hKept.replace new)).bind
  intro _ later _
  constructor
  · exact fun _ => (Evolved.isHistory table want).refl _
  · intro answer after hRun hBefore
    cases hRun
    exact hBefore

/- A piece that was built is put into a place. -/
theorem build
    {piece : TreeM NodeId}
    (hKept : KeptAt id property)
    (hKeeps : Keeps property piece) :
    Tracks table property want
      (do
        let new ← piece
        Workspace.replace id new : LowerM Unit) workspace :=
  (onTree hKeeps).bind fun new _ _ => replace hKept new

end Tracks

end Steps

------------------------------------------------------------
-- The Way Up
------------------------------------------------------------

/- Something is wanted by what is stored at a place. -/
def WantedAt
    (options : Options)
    (tree : Tree)
    (id : NodeId)
    (wanted : Wanted) : Prop :=
  ∃ stored,
    tree.get? id = some stored ∧
      wants? options stored.label = some wanted

section Leaving

variable (table : BindingTable)
variable (options : Options)
variable {id : NodeId}
variable {property : Tree → Prop}
variable {want : Wanted → Prop}
variable {workspace : Workspace}

private theorem tracks_lowerCreation
    (hKept : KeptAt id property) :
    Tracks table property (WantedAt options workspace.tree id)
      (lowerCreation table options id) workspace := by
  unfold lowerCreation
  apply Tracks.node
  intro stored hStored
  have hShape : stored.label.shape = stored.kind.shape := rfl
  cases hKind : stored.kind
  case arrayCreation dimensions initializer marked =>
    rw [hKind] at hShape
    simp only []
    apply Tracks.nodeType
    intro found array hFound hTy
    rw [hStored] at hFound
    cases hFound
    have hLabel : stored.label.ty = some array := hTy
    have hWanted {wanted : Wanted}
        (hWants : wants? options stored.label = some wanted) :
        WantedAt options workspace.tree id wanted :=
      ⟨stored, hStored, hWants⟩
    simp only [NodeKind.shape] at hShape
    rcases initializer with _ | initializer
    · rcases dimensions with _ | ⟨first, _ | ⟨second, rest⟩⟩
      · exact Tracks.throw _
      · apply (Tracks.onSymbols fun hReady =>
          follows_lengthFactory hReady id array _
            (hWanted ?_)).bind
        · intro factory later _
          exact Tracks.build hKept
            (keeps_ofLength hKept factory first)
        · unfold wants?
          rw [hShape, hLabel]
          rfl
      · apply (Tracks.onSymbols fun hReady =>
          follows_lengthsFactory hReady id array _ _
            (hWanted ?_)).bind
        · intro factory later _
          exact Tracks.build hKept
            (keeps_nested hKept factory _)
        · unfold wants?
          rw [hShape, hLabel]
          simp
    · apply Tracks.inTree
      intro elements _
      apply (Tracks.onSymbols fun hReady =>
        follows_initializedFactory hReady id array _
          (hWanted ?_)).bind
      · intro factory later _
        exact Tracks.build hKept
          (keeps_initialized hKept factory elements)
      · unfold wants?
        rw [hShape, hLabel]
        rfl
  all_goals exact Tracks.pure _

private theorem tracks_lowerTypeTest
    (hKept : KeptAt id property) :
    Tracks table property (WantedAt options workspace.tree id)
      (lowerTypeTest table id) workspace := by
  unfold lowerTypeTest
  apply Tracks.node
  intro stored hStored
  cases hKind : stored.kind
  case instanceOf value tested =>
    have hWanted : WantedAt options workspace.tree id .test := by
      refine ⟨stored, hStored, ?_⟩
      unfold wants? Node.label
      rw [hKind]
      rfl
    simp only []
    apply Tracks.nodeType
    intro found ty _ _
    apply (Tracks.onSymbols fun _ =>
      follows_isObjectArray ty).bind
    intro isArray later _
    cases isArray with
    | false => exact Tracks.pure _
    | true =>
        apply (Tracks.onSymbols fun hReady =>
          follows_typeTest hReady ty hWanted).bind
        intro test latest _
        exact Tracks.build hKept
          (keeps_typeTest hKept test value)
  all_goals exact Tracks.pure _

private theorem tracks_lowerAccess
    (hKept : KeptAt id property) :
    Tracks table property want (lowerAccess table id)
      workspace := by
  unfold lowerAccess
  apply Tracks.node
  intro stored _
  cases stored.kind
  case arrayAccess array index =>
    simp only []
    apply Tracks.nodeType
    intro found component _ _
    apply Tracks.inTree
    intro assigned _
    apply (Tracks.onSymbols fun _ =>
      follows_elementAccess component assigned).bind
    intro access later _
    exact Tracks.build hKept
      (keeps_elementAccess hKept access array index)
  all_goals exact Tracks.pure _

private theorem tracks_isLengthName (name : NodeId) :
    Tracks table property want (isLengthName name) workspace := by
  unfold isLengthName
  apply Tracks.node
  intro stored _
  cases stored.kind
  case simpleName identifier =>
    exact Tracks.onSymbols fun _ =>
      follows_isLength identifier
  all_goals exact Tracks.pure _

private theorem tracks_operandComponent? (operand : NodeId) :
    Tracks table property want (operandComponent? operand)
      workspace := by
  unfold operandComponent?
  apply Tracks.node
  intro stored _
  cases stored.ty with
  | none => exact Tracks.pure _
  | some ty => exact Tracks.onSymbols fun _ => follows_ask _

private theorem tracks_lowerLength
    (hKept : KeptAt id property) :
    Tracks table property want (lowerLength table id)
      workspace := by
  unfold lowerLength
  apply Tracks.node
  intro stored _
  cases memberAccess? stored.kind with
  | none => exact Tracks.pure _
  | some member =>
      apply (tracks_isLengthName table _).bind
      intro length first _
      cases length with
      | false => exact Tracks.pure _
      | true =>
          apply (tracks_operandComponent? table _).bind
          intro found second _
          cases found with
          | none => exact Tracks.pure _
          | some component =>
              apply (Tracks.onSymbols fun hReady =>
                follows_sizeAccess hReady
                  component).bind
              intro access third _
              exact Tracks.build hKept
                (keeps_sizeAccess hKept access _)

/-
  On the way up, a node asks for what its label wants, and is
  lowered by work at its place.
-/
theorem tracks_leave
    (hKept : KeptAt id property)
    (tag : NodeTag) :
    Tracks table property (WantedAt options workspace.tree id)
      (leave table options id tag) workspace := by
  cases tag
  case arrayCreation =>
    exact tracks_lowerCreation table options hKept
  case arrayAccess => exact tracks_lowerAccess table hKept
  case fieldAccess => exact tracks_lowerLength table hKept
  case qualifiedName => exact tracks_lowerLength table hKept
  case instanceOf =>
    exact tracks_lowerTypeTest table options hKept
  all_goals exact Tracks.pure _

end Leaving

------------------------------------------------------------
-- The Way Down
------------------------------------------------------------

section Entering

variable (table : BindingTable)
variable (id : NodeId)
variable {want : Wanted → Prop}
variable {workspace : Workspace}

/- Any work keeps what says nothing. -/
private theorem keeps_true
    {α : Type}
    (operation : TreeM α) :
    Keeps (fun _ => True) operation :=
  fun _ _ _ _ _ => trivial

private theorem tracks_lowerAssignment :
    Tracks table (fun _ => True) want (lowerAssignment table id)
      workspace := by
  unfold lowerAssignment
  apply Tracks.node
  intro stored _
  cases stored.kind
  case assignment op lhs rhs =>
    simp only []
    apply Tracks.node
    intro target _
    cases target.kind
    case arrayAccess array index =>
      simp only []
      apply Tracks.nodeType
      intro found component _ _
      apply (Tracks.onSymbols fun _ => follows_ask _).bind
      intro primitive first _
      cases primitive with
      | true => exact Tracks.pure _
      | false =>
          simp only [Bool.false_eq_true, if_false]
          by_cases hOp : op ≠ .assign
          · rw [if_pos hOp]
            exact Tracks.pure _
          · rw [if_neg hOp]
            apply (Tracks.onTree (keeps_true _)).bind
            intro value second _
            apply (Tracks.onTree (keeps_true _)).bind
            intro retained third _
            apply (Tracks.onSymbols fun _ =>
              follows_storeFunction _).bind
            intro function fourth _
            apply (Tracks.onTree (keeps_true _)).bind
            intro array fifth _
            apply (Tracks.onTree (keeps_true _)).bind
            intro index sixth _
            apply (Tracks.onTree (keeps_true _)).bind
            intro call seventh _
            apply (Tracks.replace
              ⟨fun _ _ _ => keeps_true _,
                fun _ => keeps_true _,
                fun _ => keeps_true _⟩ call).bind
            intro _ last _
            exact Tracks.pure _
    all_goals exact Tracks.pure _
  all_goals exact Tracks.pure _

/- On the way down, no method is asked for. -/
theorem tracks_enter (tag : NodeTag) :
    Tracks table (fun _ => True) want (enter table id tag)
      workspace := by
  cases tag
  case assignment => exact tracks_lowerAssignment table id
  all_goals exact Tracks.pure _

end Entering

------------------------------------------------------------
-- Runs
------------------------------------------------------------

/- The walk asks for what some node or other wants. -/
private theorem follows_walkWithin
    (table : BindingTable)
    (options : Options)
    (depth : Nat)
    (id : NodeId)
    (workspace : Workspace) :
    Follows (Evolves table fun _ => True)
      ((visitor table options).walkWithin depth id)
      workspace := by
  have hHistory := Evolves.isHistory table fun _ => True
  induction depth generalizing id workspace with
  | zero => exact (Tracks.onTree (keeps_true _)).follows
  | succ depth ih =>
      unfold Visitor.walkWithin
      have hTag : Follows (Evolves table fun _ => True)
          (inTree (·.tag id)) workspace :=
        (Tracks.onTree (keeps_true _)).follows
      apply hTag.bind hHistory
      intro tag start _
      have hLeave (later : Workspace) :
          Follows (Evolves table fun _ => True)
            ((visitor table options).leave id tag) later :=
        ((tracks_leave table options
          (Tree.Steady.keptAt id later.tree) tag).mono
            fun _ _ => trivial).follows
      apply (tracks_enter table id tag).follows.bind hHistory
      intro descent first _
      cases descent with
      | children =>
          have hChildren : Follows (Evolves table fun _ => True)
              (inTree (·.children id)) first :=
            (Tracks.onTree (keeps_true _)).follows
          apply hChildren.bind hHistory
          intro children second _
          apply (Follows.forM hHistory children
            (fun child _ later => ih child later) second).bind
              hHistory
          intro _ later _
          exact hLeave later
      | skip => exact hLeave first
      | «instead» replacement =>
          apply (ih replacement first).bind hHistory
          intro _ later _
          exact hLeave later

/- A run leaves evolved symbols, whether or not it succeeds. -/
theorem follows_lower
    (table : BindingTable)
    (options : Options)
    (root : NodeId)
    (workspace : Workspace) :
    Follows (Evolves table fun _ => True)
      (lower table options root) workspace := by
  have hHistory := Evolves.isHistory table fun _ => True
  have hWalk : Follows (Evolves table fun _ => True)
      (((visitor table options).walkWithin
        ((visitor table options).reach workspace.tree.size)
        root >>= fun _ => do return (← get).root :
          LowerM NodeId)) { workspace with root } := by
    apply (follows_walkWithin table options _ root _).bind
      hHistory
    intro _ later _
    exact hHistory.refl later
  exact hWalk

/- A run goes on with the session that it is started in. -/
theorem session_lower
    {table : BindingTable}
    {before : Workspace}
    (hSession : Session table before.symbols)
    (options : Options)
    (root : NodeId) :
    Session table
      (finalState (lower table options root before)).symbols :=
  (follows_lower table options root before
    hSession.ready).session hSession

end Arrays

end Lowering
