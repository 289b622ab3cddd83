import Lowering.Tree.Enum
import Lowering.Proofs.Run
import Lowering.Proofs.Tree.Reached

/-
  This file proves what becomes of the syntax of an enum when
  its pieces are converted by code that is not known. The
  converter is called for each piece once, in the order in
  which a walk of the declaration would pass them. What it
  makes becomes the declaration, unless one of two checks ends
  the run, each at its own time: that of the constants, after
  the constants and before the body; and that of the owners,
  after all.

  A converter may remember things from call to call, and may do
  with the tree as it likes. It may give the same node twice,
  or one that has an owner, or one that is not there.

  Key definitions include:
    * `Workshop`
    * `Converter`
    * `Converter.each`
    * `EnumSource.MadeOf`

  Main results:
    * `Tree.run_alloc_iff`
    * `Converter.run_of_constants`
    * `Converter.enums_are_built_in_order_or_refused`
-/

namespace Lowering

variable {σ μ : Type}

------------------------------------------------------------
-- Converters
------------------------------------------------------------

/-
  Where a converter works: what it remembers, the tree that it
  builds in, and the pieces that it was called for so far.
-/
structure Workshop (σ μ : Type) where
  memory : μ
  tree : Tree
  calls : List σ := []

/- A step of a conversion. A failed step keeps the calls. -/
abbrev ConverterM (σ μ : Type) :=
  EStateM TreeFault (Workshop σ μ)

instance : MonadLift TreeM (ConverterM σ μ) where
  monadLift operation := fun state =>
    match operation state.tree with
    | .ok answer tree => .ok answer { state with tree }
    | .error fault tree => .error fault { state with tree }

/-
  Code that makes a node of each piece of syntax. It answers
  whenever it is called, and knows nothing of the record that
  is kept of its calls.
-/
structure Converter (σ μ : Type) where
  convert : σ → μ → Tree → NodeId × μ × Tree

namespace Converter

/- What a call for a piece gives and leaves behind. -/
def one
    (converter : Converter σ μ)
    (piece : σ)
    (state : Workshop σ μ) : NodeId × Workshop σ μ :=
  let made := converter.convert piece state.memory state.tree
  (made.1,
    { memory := made.2.1
      tree := made.2.2
      calls := state.calls ++ [piece] })

/- What calls for some pieces give and leave behind. -/
def each
    (converter : Converter σ μ) :
    List σ → Workshop σ μ → List NodeId × Workshop σ μ
  | [], state => ([], state)
  | piece :: rest, state =>
    let first := converter.one piece state
    let others := converter.each rest first.2
    (first.1 :: others.1, others.2)

/- A call as a step of a conversion. -/
def call
    (converter : Converter σ μ)
    (piece : σ) : ConverterM σ μ NodeId := fun state =>
  .ok (converter.one piece state).1
    (converter.one piece state).2

variable (converter : Converter σ μ)

@[simp] theorem each_nil (state : Workshop σ μ) :
    converter.each [] state = ([], state) := rfl

theorem each_append
    (front back : List σ)
    (state : Workshop σ μ) :
    converter.each (front ++ back) state =
      let first := converter.each front state
      let others := converter.each back first.2
      (first.1 ++ others.1, others.2) := by
  induction front generalizing state with
  | nil => rfl
  | cons piece front ih =>
      rw [List.cons_append, each, ih]
      rfl

/- Each piece is called for once, one after the other. -/
@[simp] theorem calls_each
    (pieces : List σ)
    (state : Workshop σ μ) :
    (converter.each pieces state).2.calls =
      state.calls ++ pieces := by
  induction pieces generalizing state with
  | nil => simp
  | cons piece pieces ih =>
      rw [each, ih]
      simp [one]

@[simp] theorem length_each
    (pieces : List σ)
    (state : Workshop σ μ) :
    (converter.each pieces state).1.length = pieces.length := by
  induction pieces generalizing state with
  | nil => rfl
  | cons piece pieces ih => simp [each, ih]

theorem run_mapM
    (pieces : List σ)
    (state : Workshop σ μ) :
    pieces.mapM converter.call state =
      .ok (converter.each pieces state).1
        (converter.each pieces state).2 := by
  induction pieces generalizing state with
  | nil =>
      rw [List.mapM_nil]
      rfl
  | cons piece pieces ih =>
      have hFirst : converter.call piece state =
          .ok (converter.one piece state).1
            (converter.one piece state).2 := rfl
      rw [List.mapM_cons, run_bind_ok hFirst,
        run_bind_ok (ih _)]
      rfl

end Converter

/- A step on the tree of a workshop. -/
theorem run_inWorkshop_ok
    {α : Type}
    {operation : TreeM α}
    {state : Workshop σ μ}
    {answer : α}
    {tree : Tree}
    (hRun : operation state.tree = .ok answer tree) :
    (liftM operation : ConverterM σ μ α) state =
      .ok answer { state with tree } := by
  show (match operation state.tree with
    | .ok answer tree => EStateM.Result.ok answer
      { state with tree }
    | .error fault tree => .error fault
      { state with tree }) = _
  rw [hRun]

theorem run_inWorkshop_error
    {α : Type}
    {operation : TreeM α}
    {state : Workshop σ μ}
    {fault : TreeFault}
    {tree : Tree}
    (hRun : operation state.tree = .error fault tree) :
    (liftM operation : ConverterM σ μ α) state =
      .error fault { state with tree } := by
  show (match operation state.tree with
    | .ok answer tree => EStateM.Result.ok answer
      { state with tree }
    | .error fault tree => .error fault
      { state with tree }) = _
  rw [hRun]

/- What succeeds in a workshop succeeds on the tree in it. -/
theorem run_inWorkshop_eq_ok
    {α : Type}
    {operation : TreeM α}
    {state after : Workshop σ μ}
    {answer : α}
    (hRun : (liftM operation : ConverterM σ μ α) state =
      .ok answer after) :
    ∃ tree,
      operation state.tree = .ok answer tree ∧
        after = { state with tree } := by
  cases hTree : operation state.tree with
  | ok answer' tree =>
      rw [run_inWorkshop_ok hTree] at hRun
      cases hRun
      exact ⟨tree, rfl, rfl⟩
  | error fault tree =>
      rw [run_inWorkshop_error hTree] at hRun
      cases hRun

/- A step on the tree succeeds as it does in a workshop. -/
theorem exists_run_inWorkshop_iff
    {α : Type}
    {operation : TreeM α}
    {state : Workshop σ μ} :
    (∃ answer after,
      (liftM operation : ConverterM σ μ α) state =
        .ok answer after) ↔
      ∃ answer tree, operation state.tree = .ok answer tree := by
  constructor
  · rintro ⟨answer, after, hRun⟩
    rcases run_inWorkshop_eq_ok hRun with ⟨tree, hTree, _⟩
    exact ⟨answer, tree, hTree⟩
  · rintro ⟨answer, tree, hTree⟩
    exact ⟨answer, _, run_inWorkshop_ok hTree⟩

/- A step on the tree leaves the rest of a workshop alone. -/
theorem exists_finalState_inWorkshop
    {α : Type}
    (operation : TreeM α)
    (state : Workshop σ μ) :
    ∃ tree,
      finalState
        ((liftM operation : ConverterM σ μ α) state) =
          { state with tree } := by
  cases hTree : operation state.tree with
  | ok answer tree =>
      rw [run_inWorkshop_ok hTree]
      exact ⟨tree, rfl⟩
  | error fault tree =>
      rw [run_inWorkshop_error hTree]
      exact ⟨tree, rfl⟩

------------------------------------------------------------
-- Pieces Of An Enum
------------------------------------------------------------

namespace EnumSource

/- The pieces up to the constants. -/
def front (source : EnumSource σ) : List σ :=
  source.javadoc.toList ++ source.annotations ++
    source.name :: source.constants

/- All pieces, in the order of the declaration. -/
def pieces (source : EnumSource σ) : List σ :=
  source.front ++ source.body

/- The declaration of nodes that are in the places of pieces. -/
def kind (made : EnumSource NodeId) : NodeKind NodeId :=
  .enumDeclaration made.javadoc made.annotations made.name
    made.constants made.body

theorem children_kind (made : EnumSource NodeId) :
    made.kind.children = made.pieces := by
  simp [kind, NodeKind.children, pieces, front]

/- Nodes in the places of the pieces of some syntax. -/
structure MadeOf
    (made : EnumSource NodeId)
    (source : EnumSource σ) : Prop where
  javadoc : made.javadoc.isSome = source.javadoc.isSome
  annotations : made.annotations.length =
    source.annotations.length
  constants : made.constants.length = source.constants.length
  body : made.body.length = source.body.length
  ty : made.ty = source.ty
  element : made.element = source.element

end EnumSource

------------------------------------------------------------
-- Two Checks
------------------------------------------------------------

namespace Tree

variable {tree : Tree}

/- All of some nodes declare constants. -/
def DeclareConstants
    (tree : Tree)
    (ids : List NodeId) : Prop :=
  ∀ id ∈ ids, tree.tag id = .ok .enumConstantDeclaration

/- The check of a node passes if it declares a constant. -/
theorem requireConstant_eq_ok_iff {id : NodeId} :
    requireConstant tree id = .ok () ↔
      tree.tag id = .ok .enumConstantDeclaration := by
  unfold requireConstant
  cases hTag : tree.tag id with
  | error fault => simp [bind, Except.bind]
  | ok tag =>
      by_cases hConstant : tag = .enumConstantDeclaration
      · simp [bind, Except.bind, pure, Except.pure, hConstant]
      · simp [bind, Except.bind, hConstant, throw, throwThe,
          MonadExceptOf.throw]

/- The check of some nodes passes if all declare constants. -/
theorem forM_requireConstant_eq_ok_iff {ids : List NodeId} :
    ids.forM (requireConstant tree) = .ok () ↔
      tree.DeclareConstants ids := by
  unfold DeclareConstants
  induction ids with
  | nil =>
      simp only [List.not_mem_nil, false_imp_iff, implies_true,
        iff_true]
      rfl
  | cons id ids ih =>
      rw [List.forall_mem_cons, ← ih, ← requireConstant_eq_ok_iff]
      cases hFirst : requireConstant tree id with
      | error fault => simp [List.forM, hFirst, bind, Except.bind]
      | ok _ => simp [List.forM, hFirst, bind, Except.bind]

/- A node can be made of what is there and free, used once. -/
theorem run_alloc_iff
    {kind : NodeKind NodeId}
    {ty : Option TypeId}
    {element : Option ElementId} :
    (∃ made after, alloc kind ty element tree = .ok made after) ↔
      (∀ id ∈ kind.children, id.raw < tree.size) ∧
        (∀ id ∈ kind.children, tree.owner? id = none) ∧
        kind.children.Nodup := by
  constructor
  · rintro ⟨made, after, hRun⟩
    exact free_of_run_alloc hRun
  · rintro ⟨hBounds, hFree, hNodup⟩
    rcases run_alloc kind ty element hBounds hFree hNodup with
      ⟨after, hRun, _⟩
    exact ⟨_, after, hRun⟩

end Tree

------------------------------------------------------------
-- Conversions
------------------------------------------------------------

namespace Converter

variable (converter : Converter σ μ)
variable (source : EnumSource σ)
variable (start : Workshop σ μ)

/- What is made before the constants are checked. -/
def beforeCheck : EnumSource NodeId × Workshop σ μ :=
  let javadoc := converter.each source.javadoc.toList start
  let annotations := converter.each source.annotations javadoc.2
  let name := converter.one source.name annotations.2
  let constants := converter.each source.constants name.2
  ({ javadoc := javadoc.1.head?
     annotations := annotations.1
     name := name.1
     constants := constants.1
     ty := source.ty
     element := source.element },
    constants.2)

/- What is made when the constants pass their check. -/
def afterCheck : EnumSource NodeId × Workshop σ μ :=
  let front := converter.beforeCheck source start
  let body := converter.each source.body front.2
  ({ front.1 with body := body.1 }, body.2)

/- The constants pass their check. -/
def ConstantsPass : Prop :=
  let front := converter.beforeCheck source start
  front.2.tree.DeclareConstants front.1.constants

/- A piece that may be missing is called for if it is there. -/
private theorem run_optionMapM
    (piece : Option σ)
    (state : Workshop σ μ) :
    piece.mapM converter.call state =
      .ok (converter.each piece.toList state).1.head?
        (converter.each piece.toList state).2 := by
  cases piece with
  | none => rfl
  | some piece => rfl

private theorem toList_head?_each
    (piece : Option σ)
    (state : Workshop σ μ) :
    (converter.each piece.toList state).1.head?.toList =
      (converter.each piece.toList state).1 := by
  cases piece with
  | none => rfl
  | some piece => rfl

theorem madeOf_afterCheck :
    (converter.afterCheck source start).1.MadeOf source where
  javadoc := by
    cases hJavadoc : source.javadoc <;>
      simp [afterCheck, beforeCheck, hJavadoc, each]
  annotations := converter.length_each _ _
  constants := converter.length_each _ _
  body := converter.length_each _ _
  ty := rfl
  element := rfl

/- The pieces up to the constants are called for in order. -/
theorem each_front :
    converter.each source.front start =
      ((converter.afterCheck source start).1.front,
        (converter.beforeCheck source start).2) := by
  rw [EnumSource.front, each_append, each_append,
    EnumSource.front]
  simp only [afterCheck, beforeCheck, toList_head?_each, each]

/- A conversion calls for all pieces up to the constants. -/
private theorem run_front :
    Tree.convertEnum converter.call source start =
      (do
        liftM (TreeM.inspect fun tree =>
          (converter.beforeCheck source start).1.constants.forM
            (Tree.requireConstant tree))
        let body ← source.body.mapM converter.call
        let made :=
          { (converter.beforeCheck source start).1 with body }
        liftM (Tree.alloc made.kind made.ty made.element) :
          ConverterM σ μ NodeId)
        (converter.beforeCheck source start).2 := by
  have hName (state : Workshop σ μ) :
      converter.call source.name state =
        .ok (converter.one source.name state).1
          (converter.one source.name state).2 := rfl
  unfold Tree.convertEnum
  rw [run_bind_ok (converter.run_optionMapM _ _),
    run_bind_ok (converter.run_mapM _ _),
    run_bind_ok (hName _),
    run_bind_ok (converter.run_mapM _ _)]
  rfl

/-
  If the constants pass their check, the conversion calls for
  the body, and makes a node of all that it got.
-/
theorem run_of_constants
    (hConstants : converter.ConstantsPass source start) :
    Tree.convertEnum converter.call source start =
      (liftM (Tree.alloc
        (converter.afterCheck source start).1.kind
        source.ty source.element) : ConverterM σ μ NodeId)
        (converter.afterCheck source start).2 := by
  have hCheck := Tree.forM_requireConstant_eq_ok_iff.mpr
    hConstants
  rw [run_front,
    run_bind_ok (run_inWorkshop_ok (run_inspect_ok hCheck)),
    run_bind_ok (converter.run_mapM _ _)]
  rfl

/- Otherwise it ends where they were checked. -/
theorem run_of_other
    (hOther : ¬ converter.ConstantsPass source start) :
    ∃ fault,
      Tree.convertEnum converter.call source start =
        .error fault (converter.beforeCheck source start).2 := by
  rw [ConstantsPass, ← Tree.forM_requireConstant_eq_ok_iff]
    at hOther
  rcases hCheck :
      (converter.beforeCheck source start).1.constants.forM
        (Tree.requireConstant
          (converter.beforeCheck source start).2.tree) with
    fault | _
  · refine ⟨fault, ?_⟩
    rw [run_front, run_bind_error
      (run_inWorkshop_error (run_inspect_error hCheck))]
  · exact absurd hCheck hOther

/-
  A conversion calls the converter for the documentation, the
  annotations, the name, the constants and the body, for each
  piece once and in this order, unless one of the constants
  became something else: then it ends before the body.

  It comes to a declaration exactly if the constants are
  constants when all of them are made, and all that was made
  is there, free, and given once, when the declaration is. The
  declaration is a new node without owner, and what was made
  are its children in order, each owned by it. The converter
  did all else that has changed.
-/
theorem enums_are_built_in_order_or_refused :
    ∃ (made : EnumSource NodeId) (front last : Workshop σ μ),
      made.MadeOf source ∧
        converter.each source.front start =
          (made.front, front) ∧
        converter.each source.body front = (made.body, last) ∧
        front.calls = start.calls ++ source.front ∧
        last.calls = start.calls ++ source.pieces ∧
        (¬ front.tree.DeclareConstants made.constants →
          ∃ fault,
            Tree.convertEnum converter.call source start =
              .error fault front) ∧
        (front.tree.DeclareConstants made.constants →
          ∃ tree,
            finalState
              (Tree.convertEnum converter.call source start) =
                { last with tree }) ∧
        ((∃ id after,
            Tree.convertEnum converter.call source start =
              .ok id after) ↔
          front.tree.DeclareConstants made.constants ∧
            (∀ child ∈ made.pieces,
              child.raw < last.tree.size) ∧
            (∀ child ∈ made.pieces,
              last.tree.owner? child = none) ∧
            made.pieces.Nodup) ∧
        ∀ id after,
          Tree.convertEnum converter.call source start =
              .ok id after →
            after = { last with tree := after.tree } ∧
              id = ⟨last.tree.size⟩ ∧
              after.tree.size = last.tree.size + 1 ∧
              after.tree.get? id = some
                { kind := made.kind
                  ty := source.ty
                  element := source.element
                  parent := none } ∧
              made.kind.children = made.pieces ∧
              (∀ child ∈ made.pieces,
                after.tree.owner? child = some id) ∧
              ∀ n : NodeId, n.raw < last.tree.size →
                after.tree.get? n =
                  (last.tree.get? n).map fun old =>
                    if n ∈ made.pieces then
                      { old with parent := some id }
                    else
                      old := by
  have hCalls := converter.calls_each source.front start
  rw [converter.each_front source start] at hCalls
  have hRefused := converter.run_of_other source start
  have hBuilt := converter.run_of_constants source start
  refine ⟨(converter.afterCheck source start).1,
    (converter.beforeCheck source start).2,
    (converter.afterCheck source start).2,
    converter.madeOf_afterCheck source start,
    converter.each_front source start, rfl, hCalls, ?_,
    hRefused, ?_, ?_, ?_⟩
  · rw [EnumSource.pieces, ← List.append_assoc, ← hCalls]
    exact converter.calls_each source.body _
  · intro hConstants
    rw [hBuilt hConstants]
    exact exists_finalState_inWorkshop _ _
  · by_cases hConstants : converter.ConstantsPass source start
    · rw [hBuilt hConstants, exists_run_inWorkshop_iff,
        Tree.run_alloc_iff, EnumSource.children_kind]
      exact (and_iff_right hConstants).symm
    · rcases hRefused hConstants with ⟨fault, hRun⟩
      rw [hRun]
      constructor
      · rintro ⟨id, after, hOk⟩
        cases hOk
      · intro hAll
        exact absurd hAll.1 hConstants
  · intro id after hRun
    have hConstants : converter.ConstantsPass source start := by
      by_contra hOther
      rcases hRefused hOther with ⟨fault, hFault⟩
      rw [hFault] at hRun
      cases hRun
    rw [hBuilt hConstants] at hRun
    rcases run_inWorkshop_eq_ok hRun with ⟨tree, hAlloc, rfl⟩
    rcases Tree.free_of_run_alloc hAlloc with
      ⟨hBounds, hFree, hNodup⟩
    rcases Tree.run_alloc _ source.ty source.element hBounds
        hFree hNodup with ⟨built, hRun, hExtended⟩
    rw [hAlloc] at hRun
    cases hRun
    have hOlder := hExtended.older
    rw [EnumSource.children_kind] at hOlder hBounds
    refine ⟨rfl, rfl, hExtended.size, hExtended.made,
      EnumSource.children_kind _, ?_, hOlder⟩
    intro child hMem
    have hBound := hBounds child hMem
    rcases Tree.exists_get? hBound with ⟨old, hOld⟩
    have hChild := hOlder child hBound
    rw [hOld, Option.map_some, if_pos hMem] at hChild
    exact Tree.owner?_of_get? hChild

/- A converter that gives the first node of the tree always. -/
def repeating : Converter Unit Unit where
  convert _ _ tree := (⟨0⟩, (), tree)

/- A node that is given twice is refused when it is claimed. -/
example :
    error? (Tree.convertEnum repeating.call
      { name := (), body := [()] }
      { memory := (), tree := ⟨#[{ kind := .nullLiteral }]⟩ }) =
      some (.alreadyOwned ⟨0⟩ ⟨1⟩) := rfl

end Converter

end Lowering
