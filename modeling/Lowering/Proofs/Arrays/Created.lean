import Lowering.Proofs.Arrays.Becomes

/-
  This file proves what a run makes of array creations.

  A creation persists, and it ends as the call of a factory
  that is made for it. The call depends on the creation alone:
  on its type and operands, and on whether it was marked, was
  handed over to the store of an element, or is lowered under
  ARC.

  Main results:
    * `Arrays.Yields.creates`
    * `Arrays.creations_become_calls`
-/

namespace Lowering

namespace Arrays

open Symbols

section Created

variable {table : BindingTable}
variable {options : Options}
variable {root result n m : NodeId}
variable {before after : Workspace}
variable {node : Node}
variable {dimensions : List NodeId}
variable {initializer : Option NodeId}
variable {marked : Bool}

/- What is yielded of a creation is what creates the array. -/
theorem Yields.creates
    {part : Passage}
    (hTitled : after.symbols.Titled)
    (hYields : Yields table options root before after n m part)
    (hNode : before.tree.get? n = some node)
    (hKind : node.kind =
      .arrayCreation dimensions initializer marked) :
    ∃ array,
      node.ty = some array ∧
        Creates after.symbols table options before.tree array
          (marked || part.handed || options.useArc)
          dimensions initializer part.new.view := by
  have hStanding := hYields.standing
  rw [← hYields.old_id] at hNode
  exact creates_of_lower? hTitled hStanding.holds
    hStanding.nodup hNode hKind hYields.valid

/- What creates an array is the call of a method. -/
theorem Creates.tag
    {symbols : Symbols}
    {tree : Tree}
    {array : TypeId}
    {retained : Bool}
    {call : View}
    (hCreates : Creates symbols table options tree array
      retained dimensions initializer call) :
    call.label.shape.tag = .methodInvocation := by
  cases hCreates with
  | elements => exact (factory_view _ _).1
  | length => exact (factory_view _ _).1
  | lengths => exact (factory_view _ _).1

/-
  Each array creation below the root persists, and is seated as
  a new node. There, and below the result, it is a call of a
  factory. The array is retained where the creation is marked
  so, where it is handed over to the store of an element, and
  under ARC.
-/
theorem creations_become_calls
    (hStart : Start table root before)
    (hRun : lower table options root before =
      .ok result after)
    (hBelow : before.tree.Below root n)
    (hNode : before.tree.get? n = some node)
    (hKind : node.kind =
      .arrayCreation dimensions initializer marked) :
    Persists table options root result before after n ∧
      (∀ m,
        Seat after.symbols before.tree after.tree root result
            n m →
          before.tree.size ≤ m.raw) ∧
      ∀ m,
        Ends table options root result before after n m →
          ∃ array handed view,
            node.ty = some array ∧
              Leaves table options root result before after n m
                handed view ∧
              Creates after.symbols table options before.tree
                array (marked || handed || options.useArc)
                dimensions initializer view := by
  have hTitled := hStart.titled hRun
  refine ⟨?_, ?_, ?_⟩
  · apply hStart.persists hRun hBelow
    apply not_stores_of_tag hNode
    rw [hKind]
    simp [NodeKind.tag]
  · intro m hSeat
    rcases hStart.yields_of_seat hRun hSeat with
      ⟨part, hYields⟩
    rcases hYields.creates hTitled hNode hKind with
      ⟨_, _, hCreates⟩
    apply hStart.fresh_of_seat hRun hSeat hYields hNode
    rw [hCreates.tag, hKind]
    simp [NodeKind.tag]
  · intro m hEnds
    rcases hStart.yields hRun hEnds with ⟨part, hYields⟩
    rcases hYields.creates hTitled hNode hKind with
      ⟨array, hTy, hCreates⟩
    exact ⟨array, part.handed, part.new.view, hTy,
      hYields.leaves hEnds, hCreates⟩

end Created

------------------------------------------------------------
-- Two Arrays To Create
------------------------------------------------------------

/- A new cache that knows arrays of `int` of three depths. -/
def nestedCache : Cache :=
  Cache.performAll ⟨#[]⟩
    [.primitiveType .int, .syntheticArrayType ⟨2⟩,
      .syntheticArrayType ⟨3⟩, .syntheticArrayType ⟨4⟩] {}

/- The symbols of a new environment over it. -/
def nestedSymbols : Symbols :=
  (Symbols.create? nestedCache).get (by decide +kernel)

theorem create?_nestedCache :
    Symbols.create? nestedCache = some nestedSymbols :=
  (Option.some_get _).symm

/-
  The call that is given two empty arrays: one of arrays of
  `int`, and one of arrays of these.
-/
def twoArrays : Workspace where
  tree := ⟨#[
    { kind := .arrayInitializer []
      ty := some ⟨4⟩
      parent := some ⟨1⟩ },
    { kind := .arrayCreation [] (some ⟨0⟩) false
      ty := some ⟨4⟩
      parent := some ⟨4⟩ },
    { kind := .arrayInitializer []
      ty := some ⟨5⟩
      parent := some ⟨3⟩ },
    { kind := .arrayCreation [] (some ⟨2⟩) false
      ty := some ⟨5⟩
      parent := some ⟨4⟩ },
    { kind := .methodInvocation none [⟨1⟩, ⟨3⟩] }]⟩
  cache := nestedSymbols.cache
  env := nestedSymbols.env

theorem reached_twoArrays : twoArrays.tree.Reached := by
  have hFirst := Tree.Reached.empty.edit
    (.alloc (.arrayInitializer []) (some ⟨4⟩) none) rfl
  have hSecond := hFirst.edit
    (.alloc (.arrayCreation [] (some ⟨0⟩) false) (some ⟨4⟩)
      none) rfl
  have hThird := hSecond.edit
    (.alloc (.arrayInitializer []) (some ⟨5⟩) none) rfl
  have hFourth := hThird.edit
    (.alloc (.arrayCreation [] (some ⟨2⟩) false) (some ⟨5⟩)
      none) rfl
  exact hFourth.edit
    (.alloc (.methodInvocation none [⟨1⟩, ⟨3⟩]) none none) rfl

theorem holds_twoArrays :
    twoArrays.tree.Holds (.node ⟨4⟩
      ⟨.methodInvocation none [(), ()], none, none⟩
      [.node ⟨1⟩
        ⟨.arrayCreation [] (some ()) false, some ⟨4⟩, none⟩
        [.node ⟨0⟩ ⟨.arrayInitializer [], some ⟨4⟩, none⟩ []],
      .node ⟨3⟩
        ⟨.arrayCreation [] (some ()) false, some ⟨5⟩, none⟩
        [.node ⟨2⟩ ⟨.arrayInitializer [], some ⟨5⟩, none⟩
          []]]) := by
  have hFirst : twoArrays.tree.Holds
      (.node ⟨0⟩ ⟨.arrayInitializer [], some ⟨4⟩, none⟩ []) :=
    .node rfl rfl rfl (by simp) (by simp)
  have hSecond : twoArrays.tree.Holds
      (.node ⟨2⟩ ⟨.arrayInitializer [], some ⟨5⟩, none⟩ []) :=
    .node rfl rfl rfl (by simp) (by simp)
  refine .node rfl rfl rfl ?_ ?_
  · simp only [List.mem_cons, List.not_mem_nil, or_false,
      forall_eq_or_imp, forall_eq]
    exact ⟨rfl, rfl⟩
  · simp only [List.mem_cons, List.not_mem_nil, or_false,
      forall_eq_or_imp, forall_eq]
    refine ⟨.node rfl rfl rfl ?_ ?_, .node rfl rfl rfl ?_ ?_⟩
    · simp only [List.mem_singleton, forall_eq]
      rfl
    · simpa using hFirst
    · simp only [List.mem_singleton, forall_eq]
      rfl
    · simpa using hSecond

theorem formed_twoArrays : twoArrays.tree.WellFormed ⟨4⟩ :=
  holds_twoArrays.wellFormed (by simp)

theorem reached_nestedCache :
    Cache.Reached (⟨#[]⟩, nestedCache) :=
  (Cache.Reached.new ⟨#[]⟩).later
    (.performAll _ (.same _ _))

/- Lowering can start at the call. -/
theorem start_twoArrays : Start ⟨#[]⟩ ⟨4⟩ twoArrays where
  reached := reached_twoArrays
  formed := formed_twoArrays
  session := Symbols.Session.of_create? reached_nestedCache
    create?_nestedCache

/- It stays, and is given the calls of factories. -/
theorem run_lower_twoArrays :
    lower ⟨#[]⟩ {} ⟨4⟩ twoArrays =
      .ok ⟨4⟩ (finalState
        (lower ⟨#[]⟩ {} ⟨4⟩ twoArrays)) := by
  apply eq_ok_of_answer?
  decide +kernel

/- The first of two arrays becomes the call of a factory. -/
theorem creations_become_calls_twoArrays :
    ∃ after,
      lower ⟨#[]⟩ {} ⟨4⟩ twoArrays = .ok ⟨4⟩ after ∧
        Persists ⟨#[]⟩ {} ⟨4⟩ ⟨4⟩ twoArrays after ⟨1⟩ ∧
        ∀ m,
          Ends ⟨#[]⟩ {} ⟨4⟩ ⟨4⟩ twoArrays after ⟨1⟩ m →
            ∃ handed view,
              Leaves ⟨#[]⟩ {} ⟨4⟩ ⟨4⟩ twoArrays after ⟨1⟩ m
                handed view ∧
              Creates after.symbols ⟨#[]⟩ {} twoArrays.tree ⟨4⟩
                (false || handed || ({} : Options).useArc) []
                (some ⟨0⟩) view := by
  have hBelow : twoArrays.tree.Below ⟨4⟩ ⟨1⟩ :=
    Relation.ReflTransGen.single ⟨0, _, rfl, rfl⟩
  rcases creations_become_calls start_twoArrays
    run_lower_twoArrays hBelow rfl rfl with
    ⟨hPersists, _, hEach⟩
  refine ⟨_, run_lower_twoArrays, hPersists, fun m hEnds => ?_⟩
  rcases hEach m hEnds with
    ⟨array, handed, view, hTy, hLeaves, hCreates⟩
  cases hTy
  exact ⟨handed, view, hLeaves, hCreates⟩

end Arrays

end Lowering
