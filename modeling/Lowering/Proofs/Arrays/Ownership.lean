import Lowering.Proofs.Tree.Validation
import Lowering.Proofs.Arrays.Start

/-
  This file proves that a run of the pass keeps owners and
  slots in agreement, and that no check within it fails.

  A run asks about the components of arrays. It must be safe to
  ask about them: an array can outlive the generation that its
  component belongs to, and a run that meets one is ended.

  Key definitions include:
    * `Arrays.Owned`

  Main results:
    * `Arrays.lower_keeps_ownership`
    * `Arrays.lower_faults_over_dropped_component`
-/

namespace Lowering

namespace Arrays

------------------------------------------------------------
-- Owners After A Run
------------------------------------------------------------

/-
  The owners after a run. The result is a tree of its own and
  stands in the first slot in which the root stood; it is the
  root itself or a node that was made to replace it.
-/
structure Owned
    (root result : NodeId)
    (before after : Tree) : Prop where
  formed : after.WellFormed result
  validated : after.validate result = .ok ()
  place : result = root ∨ before.size ≤ result.raw
  owner : after.owner? result = before.owner? root
  relisted : ∀ owner,
    before.owner? root = some owner →
      ∃ stored stored',
        before.get? owner = some stored ∧
          after.get? owner = some stored' ∧
          stored'.label = stored.label ∧
          stored'.parent = stored.parent ∧
          stored'.kind.children =
            stored.kind.children.replace root result

/-
  A run from where it is safe to ask keeps owners and slots in
  agreement, or is refused with a violation. It does not fail
  in any other way.
-/
theorem lower_keeps_ownership
    {table : BindingTable}
    {root : NodeId}
    {before : Workspace}
    (hStart : Start table root before)
    (hSafe : SafeBelow root before)
    (options : Options) :
    (∃ result after,
      lower table options root before = .ok result after ∧
        Owned root result before.tree after.tree) ∨
      ∃ cause after,
        lower table options root before =
          .error (.violation cause) after := by
  have hCompletes : Completes True
      (lower table options root before) _ :=
    hStart.completes options fun _ => hSafe
  cases hRun : lower table options root before with
  | error error after =>
      rw [hRun] at hCompletes
      rcases hCompletes.1 trivial with ⟨cause, rfl⟩
      exact Or.inr ⟨cause, after, rfl⟩
  | ok result after =>
      rw [hRun] at hCompletes
      rcases hCompletes with ⟨old, new, rfl, hFinish⟩
      refine Or.inl ⟨result, after, rfl, ?_⟩
      have hStands := hFinish.stands
      have hReplaced := hFinish.replaced
      have hFormed :=
        hStands.holds.wellFormed hStands.nodup
      rw [hFinish.answer]
      exact {
        formed := hFormed
        validated := hFormed.validate
        place := hReplaced.place
        owner := hReplaced.owner
        relisted := by
          intro owner hOwner
          rcases hFinish.standing.listed owner hOwner with
            ⟨stored, hAt, _⟩
          rcases hReplaced.relisted owner stored hOwner hAt
            with ⟨stored', hAfter⟩
          exact ⟨stored, stored', hAt, hAfter⟩ }

/- The type of the objects is live. -/
theorem live_items : itemsSymbols.cache.Live ⟨12⟩ := by
  have hType : itemsSymbols.cache.type? ⟨12⟩ =
      some ⟨.native ⟨12⟩, .synthetic⟩ := by
    decide +kernel
  refine .intro hType (.intro hType ?_ ?_) ?_
  · simp only [TypeKind.names, List.mem_singleton, forall_eq]
    decide +kernel
  · simp [TypeKind.parts]
  · simp [TypeKind.component?]

/- Everything that an element is read by is safe to ask about. -/
private theorem safe_readItem : SafeBelow ⟨2⟩ readItem := by
  intro n node hBelow hNode
  have hMem := holds_readItem.below_iff.mp hBelow
  simp only [Placed.ids_node, Placed.idsAll_cons,
    Placed.idsAll_nil, List.append_nil, List.cons_append,
    List.nil_append, List.mem_cons, List.not_mem_nil, or_false]
    at hMem
  rcases hMem with rfl | rfl | rfl
  · cases hNode
    constructor
    · intro ty hTy
      cases hTy
      exact live_items
    · intro identifier hShape
      cases hShape
  · cases hNode
    constructor
    · intro ty hTy
      cases hTy
    · intro identifier hShape
      cases hShape
      decide +kernel
  · cases hNode
    constructor
    · intro ty hTy
      cases hTy
    · intro identifier hShape
      cases hShape

/- The call that reads an element takes its place. -/
theorem lower_keeps_ownership_readItem :
    ∃ after,
      lower ⟨#[]⟩ {} ⟨2⟩ readItem = .ok ⟨6⟩ after ∧
        Owned ⟨2⟩ ⟨6⟩ readItem.tree after.tree := by
  rcases lower_keeps_ownership start_readItem safe_readItem {}
    with ⟨result, after, hRun, hOwned⟩ | ⟨cause, after, hRun⟩
  · rw [run_lower_readItem] at hRun
    cases hRun
    exact ⟨_, run_lower_readItem, hOwned⟩
  · rw [run_lower_readItem] at hRun
    cases hRun

------------------------------------------------------------
-- Components From Before A Reset
------------------------------------------------------------

/- A cache that was reset after a target scalar was made. -/
def resetCache : Cache :=
  (finalState ((Cache.Operation.nativeType "length").perform
    ⟨#[]⟩ {})).reset

/- The symbols of a new environment over it. -/
def resetSymbols : Symbols :=
  (Symbols.create? resetCache).get (by decide +kernel)

/-
  The length of an array over the scalar that was dropped. The
  array is made after the reset, and so is live.
-/
def droppedLength : Workspace where
  tree := ⟨#[
    { kind := .nullLiteral
      ty := some ⟨14⟩
      parent := some ⟨2⟩ },
    { kind := .simpleName ⟨1⟩
      parent := some ⟨2⟩ },
    { kind := .fieldAccess ⟨0⟩ ⟨1⟩ }]⟩
  cache := finalState
    ((Cache.Operation.syntheticArrayType ⟨2⟩).perform
      ⟨#[]⟩ resetSymbols.cache)
  env := resetSymbols.env

theorem reached_droppedLength :
    droppedLength.tree.Reached := by
  have hArray := Tree.Reached.empty.edit
    (.alloc .nullLiteral (some ⟨14⟩) none) rfl
  have hName := hArray.edit
    (.alloc (.simpleName ⟨1⟩) none none) rfl
  exact hName.edit
    (.alloc (.fieldAccess ⟨0⟩ ⟨1⟩) none none) rfl

theorem holds_droppedLength :
    droppedLength.tree.Holds (.node ⟨2⟩
      ⟨.fieldAccess () (), none, none⟩
      [.node ⟨0⟩ ⟨.nullLiteral, some ⟨14⟩, none⟩ [],
        .node ⟨1⟩ ⟨.simpleName ⟨1⟩, none, none⟩ []]) := by
  have hArray : droppedLength.tree.Holds
      (.node ⟨0⟩ ⟨.nullLiteral, some ⟨14⟩, none⟩ []) :=
    .node rfl rfl rfl (by simp) (by simp)
  have hName : droppedLength.tree.Holds
      (.node ⟨1⟩ ⟨.simpleName ⟨1⟩, none, none⟩ []) :=
    .node rfl rfl rfl (by simp) (by simp)
  refine .node rfl rfl rfl ?_ ?_
  · simp only [List.mem_cons, List.not_mem_nil, or_false,
      forall_eq_or_imp, forall_eq]
    exact ⟨rfl, rfl⟩
  · simp only [List.mem_cons, List.not_mem_nil, or_false,
      forall_eq_or_imp, forall_eq]
    exact ⟨hArray, hName⟩

theorem start_droppedLength :
    Start ⟨#[]⟩ ⟨2⟩ droppedLength where
  reached := reached_droppedLength
  formed := holds_droppedLength.wellFormed (by simp)
  session := by
    have hBefore := (Cache.Reached.new ⟨#[]⟩).later
      (.perform (.nativeType "length") (.same _ _))
    have hCreated : Symbols.Session ⟨#[]⟩ resetSymbols :=
      Symbols.Session.of_create? hBefore.reset
        (Option.some_get _).symm
    exact hCreated.later
      (.perform (.syntheticArrayType ⟨2⟩) (.same _ _))

/-
  It is not enough that the type of each node is live. At an
  array over a type from before a reset, a run is ended.
-/
theorem lower_faults_over_dropped_component :
    Start ⟨#[]⟩ ⟨2⟩ droppedLength ∧
      (∀ n node,
        droppedLength.tree.Below ⟨2⟩ n →
          droppedLength.tree.get? n = some node →
            (∀ ty, node.ty = some ty →
              (droppedLength.cache.type? ty).isSome) ∧
              ∀ identifier,
                node.kind = .simpleName identifier →
                  (droppedLength.cache.names.text?
                    identifier).isSome) ∧
      ∃ after,
        lower ⟨#[]⟩ {} ⟨2⟩ droppedLength =
          .error (.cacheFault (.contract
            (.staleHandle "TypeId(2)"))) after := by
  refine ⟨start_droppedLength, ?_, ?_⟩
  · intro n node hBelow hNode
    have hMem := holds_droppedLength.below_iff.mp hBelow
    simp only [Placed.ids_node, Placed.idsAll_cons,
      Placed.idsAll_nil, List.append_nil, List.cons_append,
      List.nil_append, List.mem_cons, List.not_mem_nil,
      or_false] at hMem
    rcases hMem with rfl | rfl | rfl
    · cases hNode
      constructor
      · intro ty hTy
        cases hTy
      · intro identifier hKind
        cases hKind
    · cases hNode
      constructor
      · intro ty hTy
        cases hTy
        decide +kernel
      · intro identifier hKind
        cases hKind
    · cases hNode
      constructor
      · intro ty hTy
        cases hTy
      · intro identifier hKind
        cases hKind
        decide +kernel
  · refine ⟨_, eq_error_of_error? ?_⟩
    decide +kernel

end Arrays

end Lowering
