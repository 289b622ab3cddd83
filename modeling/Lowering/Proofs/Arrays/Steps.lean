import Lowering.Proofs.Arrays.Reference

/-
  This file describes what a step of lowering does at a place:
  it puts a subtree with a given view into the place of the
  one that stands there, keeps all symbols, and follows the
  root of the pass.

  Steps compose: one after the other at the same place, and
  after a choice of symbols. A step that builds a piece and
  puts it into the place of a construct is one of them.

  Key definitions include:
    * `Label.Safe`
    * `View.Safe`
    * `Workspace.At`
    * `Lowered`
    * `Walks`

  Main results:
    * `Lowered.stays`
    * `Lowered.isAssigned`
    * `Walks.choose`
    * `Walks.ofMakes`
-/

namespace Lowering

------------------------------------------------------------
-- Safe Views
------------------------------------------------------------

/-
  It is safe to ask about a node: its type is live, and if it
  is a name, the name is known.
-/
structure Label.Safe (label : Label) (cache : Cache) : Prop where
  live : ∀ ty, label.ty = some ty → cache.Live ty
  named : ∀ identifier, label.shape = .simpleName identifier →
    (cache.names.text? identifier).isSome

/- It is safe to ask about each node of a view. -/
inductive View.Safe (cache : Cache) : View → Prop
  | node
      {label : Label}
      {children : List View}
      (label_safe : label.Safe cache)
      (below : ∀ child ∈ children, Safe cache child) :
      Safe cache (.node label children)

theorem Label.Safe.mono
    {label : Label}
    {before after : Cache}
    (hGrown : before.Grown after)
    (hSafe : label.Safe before) :
    label.Safe after where
  live := fun ty hTy => (hSafe.live ty hTy).mono hGrown
  named := by
    intro identifier hShape
    rcases Option.isSome_iff_exists.mp
        (hSafe.named identifier hShape) with ⟨text, hText⟩
    rw [hGrown.names identifier text hText]
    rfl

theorem View.Safe.mono
    {view : View}
    {before after : Cache}
    (hGrown : before.Grown after)
    (hSafe : view.Safe before) :
    view.Safe after := by
  induction hSafe with
  | node hLabel _ ih => exact .node (hLabel.mono hGrown) ih

theorem View.Safe.label
    {view : View}
    {cache : Cache}
    (hSafe : view.Safe cache) :
    view.label.Safe cache := by
  cases hSafe with
  | node hLabel _ => exact hLabel

theorem View.Safe.child
    {label : Label}
    {children : List View}
    {child : View}
    {cache : Cache}
    (hSafe : View.Safe cache (.node label children))
    (hMem : child ∈ children) :
    child.Safe cache := by
  cases hSafe with
  | node _ hBelow => exact hBelow child hMem

/- It stays safe when a result is asked for retained. -/
theorem Label.Safe.retain
    {label : Label}
    {cache : Cache}
    (hSafe : label.Safe cache) :
    label.retain.Safe cache where
  live := hSafe.live
  named := by
    intro identifier hShape
    apply hSafe.named identifier
    have hTag : label.shape.tag = .simpleName := by
      rw [← NodeKind.tag_retain]
      exact congrArg NodeKind.tag hShape
    rcases label with ⟨shape, ty, element⟩
    cases shape <;>
      first
      | exact hShape
      | exact absurd hTag (by simp [NodeKind.tag])

theorem View.Safe.retain
    {view : View}
    {cache : Cache}
    (hSafe : view.Safe cache) :
    view.retain.Safe cache := by
  cases hSafe with
  | node hLabel hBelow => exact .node hLabel.retain hBelow

------------------------------------------------------------
-- Places Of The Walk
------------------------------------------------------------

/-
  A workspace in which the walk is at a subtree: the subtree
  stands, and the root of the pass is not below its top.
-/
structure Workspace.At
    (workspace : Workspace)
    (placed : Placed) : Prop where
  standing : workspace.tree.Standing placed
  ready : workspace.symbols.Ready
  bounded : workspace.root.raw < workspace.tree.size
  top : workspace.root ∈ placed.ids →
    workspace.root = placed.id

/- The walk can go down to a child. -/
theorem Workspace.At.child
    {workspace : Workspace}
    {id : NodeId}
    {label : Label}
    {children : List Placed}
    {child : Placed}
    (hAt : workspace.At (.node id label children))
    (hMem : child ∈ children) :
    workspace.At child := by
  refine ⟨hAt.standing.child hMem, hAt.ready, hAt.bounded, ?_⟩
  intro hIn
  have hEq := hAt.top (Placed.ids_child_subset hMem hIn)
  have hNodup := hAt.standing.nodup
  rw [Placed.ids_node, List.nodup_cons] at hNodup
  rw [hEq] at hIn
  exact absurd (Placed.ids_subset_idsAll hMem hIn) hNodup.1

/- Other symbols do not move the walk. -/
theorem Workspace.At.withSymbols
    {workspace : Workspace}
    {placed : Placed}
    {symbols : Symbols}
    (hAt : workspace.At placed)
    (hReady : symbols.Ready) :
    (workspace.withSymbols symbols).At placed :=
  ⟨hAt.standing, hReady, hAt.bounded, hAt.top⟩

namespace Arrays

------------------------------------------------------------
-- Lowered Subtrees
------------------------------------------------------------

/- What a step has done at the place of a subtree. -/
structure Lowered
    (before after : Workspace)
    (old new : Placed) : Prop where
  replaced : Tree.Replaced before.tree after.tree old new
  grown : before.symbols.Grown after.symbols
  ready : after.symbols.Ready
  root : after.root =
    if before.root = old.id then new.id else before.root
  /- What is put into a place has a type. -/
  untyped : new.label.ty = none →
    new.id = old.id ∧ new.label = old.label

namespace Lowered

variable {before middle after : Workspace}
variable {old new newer : Placed}

theorem refl (hAt : before.At old) :
    Lowered before before old old where
  replaced := Tree.Replaced.refl hAt.standing
  grown := Symbols.Grown.refl _
  ready := hAt.ready
  root := by
    split
    · next hEq => exact hEq
    · rfl
  untyped := fun _ => ⟨rfl, rfl⟩

/- The walk is still at the place. -/
theorem stays
    (hLowered : Lowered before after old new)
    (hAt : before.At old) :
    after.At new where
  standing := hLowered.replaced.standing hAt.standing
  ready := hLowered.ready
  bounded := by
    rw [hLowered.root]
    split
    · exact hLowered.replaced.holds.id_lt_size
    · exact Nat.lt_of_lt_of_le hAt.bounded
        hLowered.replaced.grown
  top := by
    intro hIn
    rw [hLowered.root] at hIn ⊢
    split at hIn
    · next hEq => rw [if_pos hEq]
    · next hNe =>
      rcases hLowered.replaced.origin _ hIn with hOld | hNew
      · exact absurd (hAt.top hOld) hNe
      · exact absurd hAt.bounded (Nat.not_lt.mpr hNew)

theorem trans
    (hAt : before.At old)
    (hFirst : Lowered before middle old new)
    (hSecond : Lowered middle after new newer) :
    Lowered before after old newer where
  replaced := Tree.Replaced.trans hAt.standing
    hFirst.replaced hSecond.replaced
  grown := hFirst.grown.trans hSecond.grown
  ready := hSecond.ready
  root := by
    rw [hSecond.root, hFirst.root]
    by_cases hEq : before.root = old.id
    · simp only [if_pos hEq, if_true]
    · simp only [if_neg hEq]
      rcases hFirst.replaced.place with hPlace | hFresh
      · rw [hPlace, if_neg hEq]
      · rw [if_neg]
        intro hNew
        have hBound := hAt.bounded
        rw [hNew] at hBound
        omega
  untyped := by
    intro hNone
    rcases hSecond.untyped hNone with ⟨hId, hLabel⟩
    rw [hLabel] at hNone
    rcases hFirst.untyped hNone with ⟨hId', hLabel'⟩
    exact ⟨hId.trans hId', hLabel.trans hLabel'⟩

/- What was done at a child, seen from its owner. -/
theorem ofChild
    {id : NodeId}
    {label : Label}
    {front back : List Placed}
    (hAt : before.At (.node id label (front ++ old :: back)))
    (hLowered : Lowered before after old new) :
    Lowered before after
      (.node id label (front ++ old :: back))
      (.node id label (front ++ new :: back)) where
  replaced :=
    Tree.Replaced.ofChild hAt.standing hLowered.replaced
  grown := hLowered.grown
  ready := hLowered.ready
  root := by
    have hNotChild : before.root ≠ old.id := by
      intro hEq
      have hIn : before.root ∈ old.ids := by
        rw [hEq]
        exact old.id_mem_ids
      have hTop := hAt.top
        (Placed.ids_child_subset (by simp) hIn)
      have hNodup := hAt.standing.nodup
      rw [Placed.ids_node, List.nodup_cons] at hNodup
      apply hNodup.1
      rw [Placed.id_node] at hTop
      rw [← hTop]
      exact Placed.ids_subset_idsAll (by simp) hIn
    rw [hLowered.root, if_neg hNotChild]
    split
    · next hEq => exact hEq
    · rfl
  untyped := fun _ => ⟨rfl, rfl⟩

/- What takes a place is assigned to as what was there. -/
theorem isAssigned
    (hLowered : Lowered before after old new)
    (hAt : before.At old) :
    after.tree.isAssigned new.id =
      before.tree.isAssigned old.id :=
  hLowered.replaced.isAssigned hAt.standing

/- A choice of symbols before the step changes nothing else. -/
theorem ofSymbols
    {symbols : Symbols}
    (hGrown : before.symbols.Grown symbols)
    (hLowered :
      Lowered (before.withSymbols symbols) after old new) :
    Lowered before after old new where
  replaced := hLowered.replaced
  grown := hGrown.trans hLowered.grown
  ready := hLowered.ready
  root := hLowered.root
  untyped := hLowered.untyped

end Lowered

------------------------------------------------------------
-- Steps
------------------------------------------------------------

/-
  In the end, a subtree with the view that is looked up stands
  in the place of the old one.
-/
abbrev Outcome
    (safe : Prop)
    (before after : Workspace)
    (old : Placed)
    (lookup : Symbols → Option View) : Prop :=
  ∃ new,
    Lowered before after old new ∧
      lookup after.symbols = some new.view ∧
      (safe → new.label.Safe after.cache)

/-
  A step walks at a place: if it succeeds, what then stands at
  the place has the view that is looked up.
-/
def Walks
    (safe : Prop)
    (step : LowerM Unit)
    (before : Workspace)
    (old : Placed)
    (lookup : Symbols → Option View) : Prop :=
  Completes safe (step before) fun _ after =>
    Outcome safe before after old lookup

section Completes

variable {α β : Type}
variable {safe : Prop}
variable {before : Workspace}
variable {post : β → Workspace → Prop}

/- A question about the tree on the way of a run. -/
theorem Completes.inTree
    {question : Tree → Except TreeFault α}
    {answer : α}
    {next : α → LowerM β}
    (hAnswer : question before.tree = .ok answer)
    (hNext : Completes safe (next answer before) post) :
    Completes safe
      ((Workspace.inTree question >>= next) before) post := by
  rw [run_bind_ok (run_inTree_ok hAnswer)]
  exact hNext

/- The type of a node on the way; without it all is refused. -/
theorem Completes.nodeType
    {id : NodeId}
    {node : Node}
    {next : TypeId → LowerM β}
    (hNode : before.tree.get? id = some node)
    (hNext : ∀ ty, node.ty = some ty →
      Completes safe (next ty before) post) :
    Completes safe
      ((Workspace.nodeType id >>= next) before) post := by
  cases hTy : node.ty with
  | none =>
      have hRun : Workspace.nodeType id before =
          .error (.violation (.missingType id node.kind.tag))
            before := by
        unfold Workspace.nodeType
        rw [run_bind_ok (run_inTree_ok
          (Tree.node_eq_ok hNode))]
        simp only [hTy]
        rfl
      rw [run_bind_error hRun]
      exact ⟨fun _ => ⟨_, rfl⟩, nofun⟩
  | some ty =>
      have hRun : Workspace.nodeType id before =
          .ok ty before := by
        unfold Workspace.nodeType
        rw [run_bind_ok (run_inTree_ok
          (Tree.node_eq_ok hNode))]
        simp only [hTy]
        rfl
      rw [run_bind_ok hRun]
      exact hNext ty hTy

/- A choice of symbols on the way of a run. -/
theorem Completes.choose
    {step : SymbolM α}
    {next : α → LowerM β}
    {lookup : Symbols → Option α}
    (hStep : Symbols.Chooses safe step before.symbols lookup)
    (hNext : ∀ answer symbols,
      before.symbols.Grown symbols → symbols.Ready →
        lookup symbols = some answer →
          Completes safe
            (next answer (before.withSymbols symbols)) post) :
    Completes safe ((liftM step >>= next) before) post := by
  unfold Symbols.Chooses at hStep
  cases hRun : step before.symbols with
  | ok answer symbols =>
      rw [hRun] at hStep
      rw [run_bind_ok (run_liftSymbols_ok hRun)]
      exact hNext answer symbols hStep.1 hStep.2.1 hStep.2.2
  | error error symbols =>
      rw [hRun] at hStep
      rw [run_bind_error (run_liftSymbols_error hRun)]
      exact hStep

/- What a replacement of a node does to a workspace. -/
theorem run_replace
    {old new : NodeId}
    {tree : Tree}
    (hRun :
      Tree.replaceWith old new before.tree = .ok () tree) :
    Workspace.replace old new before =
      .ok () { before with
        tree
        root :=
          if before.root = old then new else before.root } := by
  unfold Workspace.replace
  rw [run_bind_ok (run_liftTree_ok hRun)]
  show EStateM.Result.ok () _ = _
  simp only [eq_comm]

/- A change of the tree on the way of a run. -/
theorem Completes.onTree
    {operation : TreeM α}
    {next : α → LowerM β}
    {answer : α}
    {tree : Tree}
    (hRun : operation before.tree = .ok answer tree)
    (hNext : Completes safe
      (next answer { before with tree }) post) :
    Completes safe
      ((liftM operation >>= next) before) post := by
  rw [run_bind_ok (run_liftTree_ok hRun)]
  exact hNext

end Completes

namespace Walks

variable {safe : Prop}
variable {before : Workspace}
variable {old : Placed}

/- A step that does nothing, at a view that stays. -/
theorem idle
    {lookup : Symbols → Option View}
    (hAt : before.At old)
    (hLookup : lookup before.symbols = some old.view)
    (hSafe : safe → old.label.Safe before.cache) :
    Walks safe (pure ()) before old lookup :=
  ⟨old, Lowered.refl hAt, hLookup, hSafe⟩

theorem refuse
    (cause : LoweringViolation)
    (lookup : Symbols → Option View) :
    Walks safe (Workspace.refuse cause) before old lookup :=
  ⟨fun _ => ⟨cause, rfl⟩, nofun⟩

/- A choice of symbols before a step. -/
theorem choose
    {α : Type}
    {step : SymbolM α}
    {next : α → LowerM Unit}
    {lookup : Symbols → Option α}
    {lookup' : Symbols → Option View}
    (hStep : Symbols.Chooses safe step before.symbols lookup)
    (hNext : ∀ answer symbols,
      before.symbols.Grown symbols → symbols.Ready →
        lookup symbols = some answer →
          Walks safe (next answer)
            (before.withSymbols symbols) old lookup') :
    Walks safe (liftM step >>= next) before old lookup' := by
  apply Completes.choose hStep
  intro answer symbols hGrown hReady hFound
  apply (hNext answer symbols hGrown hReady hFound).mono
  intro _ after hPost
  rcases hPost with ⟨new, hLowered, hRest⟩
  exact ⟨new, hLowered.ofSymbols hGrown, hRest⟩

/- A question about the tree before a step. -/
theorem inTree
    {α : Type}
    {question : Tree → Except TreeFault α}
    {answer : α}
    {next : α → LowerM Unit}
    {lookup : Symbols → Option View}
    (hAnswer : question before.tree = .ok answer)
    (hNext : Walks safe (next answer) before old lookup) :
    Walks safe (Workspace.inTree question >>= next)
      before old lookup :=
  Completes.inTree hAnswer hNext

/- The type of a node before a step; without it all is refused. -/
theorem nodeType
    {id : NodeId}
    {node : Node}
    {next : TypeId → LowerM Unit}
    {lookup : Symbols → Option View}
    (hNode : before.tree.get? id = some node)
    (hNext : ∀ ty, node.ty = some ty →
      Walks safe (next ty) before old lookup) :
    Walks safe (Workspace.nodeType id >>= next)
      before old lookup :=
  Completes.nodeType hNode hNext

/- What a step looks up may be told otherwise. -/
theorem congr
    {step : LowerM Unit}
    {lookup lookup' : Symbols → Option View}
    (hStep : Walks safe step before old lookup)
    (hSame : ∀ symbols view,
      before.symbols.Grown symbols →
        lookup symbols = some view →
          lookup' symbols = some view) :
    Walks safe step before old lookup' := by
  apply Completes.mono hStep
  intro _ after hPost
  rcases hPost with ⟨new, hLowered, hLookup, hSafe⟩
  exact ⟨new, hLowered,
    hSame _ _ hLowered.grown hLookup, hSafe⟩

/- What is known already need not be chosen again. -/
theorem known
    {α : Type}
    {step : LowerM Unit}
    {lookup : Symbols → Option α}
    {lookup' : α → Symbols → Option View}
    {answer : α}
    (hStable : Symbols.Stable lookup)
    (hKnown : lookup before.symbols = some answer)
    (hStep : Walks safe step before old (lookup' answer)) :
    Walks safe step before old fun symbols =>
      lookup symbols >>= fun answer =>
        lookup' answer symbols := by
  apply hStep.congr
  intro symbols view hGrown hFound
  exact Option.bind_eq_some_iff.mpr
    ⟨answer, hStable _ _ _ hGrown hKnown, hFound⟩

/-
  A piece that is built from parts of a subtree is put into
  its place.
-/
theorem ofMakes
    {build : TreeM NodeId}
    {moved : List NodeId}
    {view : View}
    {lookup : Symbols → Option View}
    (hAt : before.At old)
    (hMakes : Makes build before.tree before.tree moved []
      view)
    (hMoved : ∀ n ∈ moved, n ∈ old.ids ∧ n ≠ old.id)
    (hLookup : lookup before.symbols = some view)
    (hTyped : view.ty.isSome)
    (hSafe : safe → view.label.Safe before.cache) :
    Walks safe
      (do
        let new ← build
        Workspace.replace old.id new)
      before old lookup := by
  rcases hMakes with
    ⟨built, new, hBuild, hView, hFresh, hBuilding⟩
  rw [List.nil_append] at hBuilding
  rcases hBuilding.replace hAt.standing hMoved hFresh with
    ⟨after, hReplace, hReplaced⟩
  have hRun : (do
      let new ← build
      Workspace.replace old.id new : LowerM Unit) before =
        .ok () { before with
          tree := after
          root :=
            if before.root = old.id then
              new.id
            else
              before.root } := by
    rw [run_bind_ok (run_liftTree_ok hBuild)]
    exact run_replace hReplace
  refine Completes.of_ok hRun ⟨new, ?_, ?_, ?_⟩
  · refine ⟨hReplaced, Symbols.Grown.refl _, hAt.ready, rfl, ?_⟩
    intro hNone
    rw [← Placed.ty_view, hView] at hNone
    rw [hNone] at hTyped
    exact absurd hTyped (by simp)
  · rw [hView]
    exact hLookup
  · intro hIsSafe
    rw [← Placed.label_view, hView]
    exact hSafe hIsSafe

end Walks

end Arrays

end Lowering
