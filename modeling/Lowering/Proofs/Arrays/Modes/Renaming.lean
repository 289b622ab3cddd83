import Mathlib.Logic.Relator
import Lowering.Proofs.Arrays.Start
import Lowering.Proofs.Arrays.Modes.Lockstep

/-
  This file proves that how memory is managed changes nothing
  of lowered code but the calls that create arrays. From one
  workspace, the runs with reference counting and with
  automatic reference counting fail with the same error, or
  answer the same node and leave trees that are equal up to
  the handles of names and elements.

  The caches drift apart as soon as one creation has another
  selector, for methods, parameters and names are made when
  they are first asked for. Which handles correspond is told
  by a renaming, which relates texts with equal texts and
  elements with equal titles, one to one.

  What is lowered must have been issued by the cache: a handle
  that was not may come to be issued in one run only.

  Key definitions include:
    * `Renaming`
    * `Renaming.likeness`
    * `Arrays.Issued`

  Main results:
    * `Arrays.both_modes_lower_alike`
    * `Arrays.modes_differ_at_foreign_name`
-/

namespace Lowering

------------------------------------------------------------
-- Renamings
------------------------------------------------------------

/-
  Which names and which elements of two caches correspond.
  Names have the same text, and elements the same title, that
  is, the same name, declaring class and selector. A handle
  from before the last reset, which has no title, corresponds
  to itself.
-/
structure Renaming (cache cache' : Cache) where
  name : Name → Name → Prop
  element : ElementId → ElementId → Prop
  names_unique : Relator.BiUnique name
  elements_unique : Relator.BiUnique element
  text : ∀ n n', name n n' →
    ∃ text,
      cache.names.text? n = some text ∧
        cache'.names.text? n' = some text
  title : ∀ id id', element id id' →
    cache.title? id = cache'.title? id'
  dropped : ∀ id id', element id id' →
    cache.title? id = none → id = id'

/-
  Methods that differ only in that the name and the selector
  begin with `newArray` in place of `array`.
-/
def Cache.Prefixed
    (cache cache' : Cache)
    (id id' : ElementId) : Prop :=
  ∃ declaring head rest,
    cache.title? id =
        some ⟨"array" ++ head, declaring,
          some ("array" ++ rest)⟩ ∧
      cache'.title? id' =
        some ⟨"newArray" ++ head, declaring,
          some ("newArray" ++ rest)⟩

/-
  Nodes that are equal up to a renaming, but for creations. A
  method whose selector begins with `array` corresponds to
  itself only if it was in the tree from the start.
-/
def Renaming.likeness
    {cache cache' : Cache}
    (renames : Renaming cache cache')
    (tree : Tree) : Likeness where
  name := renames.name
  element tag id id' :=
    renames.element id id' ∧
        (∀ title, cache.title? id = some title →
          title.IsCreation → tree.Mentions id) ∨
      tag = .methodInvocation ∧ cache.Prefixed cache' id id'
  typed _ _ := True

namespace Cache

/- A head without a colon is kept. -/
private theorem selectorHead_append
    {text : String}
    (hPlain : ∀ c ∈ text.toList, c ≠ ':')
    (rest : String) :
    selectorHead (text ++ rest) = text ++ selectorHead rest := by
  unfold selectorHead
  rw [String.toList_append, List.takeWhile_append_of_pos,
    String.ofList_append, String.ofList_toList]
  intro c hMem
  exact decide_eq_true (hPlain c hMem)

end Cache

namespace Arrays

open Symbols

------------------------------------------------------------
-- What Was Issued
------------------------------------------------------------

/-
  All names and elements of a tree were issued by the cache,
  and its types can be written out.
-/
structure Issued (workspace : Workspace) : Prop where
  names : ∀ n node, workspace.tree.get? n = some node →
    ∀ name ∈ node.kind.names, workspace.cache.Knows name
  elements : ∀ n node, workspace.tree.get? n = some node →
    ∀ id ∈ node.elements, workspace.cache.Told id
  types : ∀ n node, workspace.tree.get? n = some node →
    ∀ ty, node.ty = some ty → workspace.cache.Written ty

variable {table : BindingTable}
variable {before : Workspace}

/- What was issued is in step with itself. -/
theorem Issued.lockstep
    (hIssued : Issued before)
    (hSession : Session table before.symbols) :
    Lockstep before before before where
  abreast := hSession.abreast
  trees := by
    refine ⟨rfl, ?_⟩
    intro n node node' hNode hNode'
    cases hNode.symm.trans hNode'
    apply Node.Alike.refl
    · intro name hName
      rcases Option.isSome_iff_exists.mp
        (hIssued.names n node hNode name hName) with
        ⟨text, hText⟩
      exact ⟨text, hText, hText⟩
    · intro tag id hElement
      refine .same (.kept ?_ ?_)
      · exact hIssued.elements n node hNode id hElement
      · exact fun _ _ _ => ⟨n, node, hNode, hElement⟩
    · intro _ array hTy
      exact hIssued.types n node hNode array hTy
  root := rfl

------------------------------------------------------------
-- The Renaming Of Two Runs
------------------------------------------------------------

section Final

variable {after after' : Workspace}
variable (hLock : Lockstep before after after')
variable (hEntitled : before.symbols.Entitled)

include hLock hEntitled

/- Two factories of one class differ in how they begin. -/
private theorem prefixed_of_created
    {cls id id' : ElementId}
    {rest : String}
    (hFound : after.symbols.method? cls ("array" ++ rest) =
      some id)
    (hFound' : after'.symbols.method? cls
      ("newArray" ++ rest) = some id') :
    after.cache.Prefixed after'.cache id id' := by
  have hTitle := (hEntitled.mono
    hLock.abreast.adds).title_of_method? hFound
  have hTitle' := (hEntitled.mono
    hLock.abreast.adds').title_of_method? hFound'
  refine ⟨some cls, Cache.selectorHead rest, rest, ?_, ?_⟩
  · rw [← Cache.selectorHead_append (by simp)]
    exact hTitle
  · rw [← Cache.selectorHead_append (by simp)]
    exact hTitle'

/- What corresponds after two runs in step. -/
def Lockstep.renames : Renaming after.cache after'.cache where
  name := SameName after.symbols after'.symbols
  element := SameElement before after.symbols after'.symbols
  names_unique := by
    constructor
    · intro first name second hFirst hSecond
      exact SameName.unique hLock.abreast.symm hFirst.symm
        hSecond.symm
    · intro name first second hFirst hSecond
      exact SameName.unique hLock.abreast hFirst hSecond
  elements_unique := by
    constructor
    · intro first id second hFirst hSecond
      exact SameElement.unique hLock.abreast.symm hEntitled
        hFirst.symm hSecond.symm
    · intro id first second hFirst hSecond
      exact SameElement.unique hLock.abreast hEntitled hFirst
        hSecond
  text := fun _ _ hSame => hSame
  title := fun _ _ hSame => hSame.title hLock.abreast hEntitled
  dropped := by
    intro id id' hSame hNone
    have hNow := hEntitled.mono hLock.abreast.adds
    cases hSame with
    | kept => rfl
    | method _ hFound =>
        have hTitle := hNow.title_of_method? hFound
        exact absurd (hTitle.symm.trans hNone) (by simp)
    | sizeField hFound =>
        have hTitle := hNow.sizeFields _ _ hFound
        exact absurd (hTitle.symm.trans hNone) (by simp)

/- The trees are equal up to it, but for creations. -/
private theorem Lockstep.alike :
    after.tree.Alike
      ((hLock.renames hEntitled).likeness before.tree)
      after'.tree := by
  apply hLock.trees.mono
  refine ⟨fun _ _ hSame => hSame, ?_, fun _ _ _ => trivial⟩
  intro tag id id' hElement
  cases hElement with
  | same hSame =>
      refine Or.inl ⟨hSame, ?_⟩
      intro title hTitle hCreation
      exact hSame.mentions hLock.abreast hEntitled hTitle hCreation
  | created hFound hFound' =>
      exact Or.inr ⟨rfl,
        prefixed_of_created hLock hEntitled hFound hFound'⟩

end Final

/-
  How memory is managed decides only on the beginnings of the
  factories that create arrays.
-/
theorem both_modes_lower_alike
    (hSession : Session table before.symbols)
    (hIssued : Issued before)
    (root : NodeId) :
    Coupled
      (fun result after result' after' =>
        result = result' ∧
          ∃ renames : Renaming after.cache after'.cache,
            after.tree.Alike
              (renames.likeness before.tree) after'.tree)
      (lower table { memoryManagement := .referenceCounting }
        root before)
      (lower table { memoryManagement := .arc } root before) := by
  have hEntitled := hSession.entitled
  apply Coupled.mono (inStep_lower hEntitled table
    (hIssued.lockstep hSession) root)
  rintro result after _ after' ⟨rfl, hLock⟩
  exact ⟨rfl, hLock.renames hEntitled, hLock.alike hEntitled⟩

------------------------------------------------------------
-- The Length Of A New Array
------------------------------------------------------------

/-
  A new cache that knows arrays of `int`, and the texts that
  are needed to create one with reference counting.
-/
def createdCache : Cache :=
  Cache.performAll ⟨#[]⟩
    [.intern (some "length"),
      .intern (some "arrayWithLength:"),
      .intern (some "arrayWithLength"),
      .primitiveType .int, .syntheticArrayType ⟨2⟩] {}

/- The symbols of a new environment over it. -/
def createdSymbols : Symbols :=
  (Symbols.create? createdCache).get (by decide +kernel)

/- A member of a new array, under some name. -/
def createdMember (name : Name) : Workspace where
  tree := ⟨#[
    { kind := .numberLiteral 1
      parent := some ⟨1⟩ },
    { kind := .arrayCreation [⟨0⟩] none false
      ty := some ⟨3⟩
      parent := some ⟨3⟩ },
    { kind := .simpleName name
      parent := some ⟨3⟩ },
    { kind := .fieldAccess ⟨1⟩ ⟨2⟩ }]⟩
  cache := createdSymbols.cache
  env := createdSymbols.env

theorem reached_createdMember
    (name : Name) :
    (createdMember name).tree.Reached := by
  have hLength := Tree.Reached.empty.edit
    (.alloc (.numberLiteral 1) none none) rfl
  have hArray := hLength.edit
    (.alloc (.arrayCreation [⟨0⟩] none false) (some ⟨3⟩) none)
    rfl
  have hName := hArray.edit
    (.alloc (.simpleName name) none none) rfl
  exact hName.edit
    (.alloc (.fieldAccess ⟨1⟩ ⟨2⟩) none none) rfl

theorem formed_createdMember
    (name : Name) :
    (createdMember name).tree.WellFormed ⟨3⟩ := by
  have hLength : (createdMember name).tree.Holds
      (.node ⟨0⟩ ⟨.numberLiteral 1, none, none⟩ []) :=
    .node rfl rfl rfl (by simp) (by simp)
  have hArray : (createdMember name).tree.Holds
      (.node ⟨1⟩
        ⟨.arrayCreation [()] none false, some ⟨3⟩, none⟩
        [.node ⟨0⟩ ⟨.numberLiteral 1, none, none⟩ []]) := by
    refine .node rfl rfl rfl ?_ ?_
    · simp only [List.mem_singleton, forall_eq]
      rfl
    · simpa using hLength
  have hName : (createdMember name).tree.Holds
      (.node ⟨2⟩ ⟨.simpleName name, none, none⟩ []) :=
    .node rfl rfl rfl (by simp) (by simp)
  have hMember : (createdMember name).tree.Holds
      (.node ⟨3⟩ ⟨.fieldAccess () (), none, none⟩
        [.node ⟨1⟩
          ⟨.arrayCreation [()] none false, some ⟨3⟩, none⟩
          [.node ⟨0⟩ ⟨.numberLiteral 1, none, none⟩ []],
        .node ⟨2⟩ ⟨.simpleName name, none, none⟩ []]) := by
    refine .node rfl rfl rfl ?_ ?_
    · simp only [List.mem_cons, List.not_mem_nil, or_false,
        forall_eq_or_imp, forall_eq]
      exact ⟨rfl, rfl⟩
    · simp only [List.mem_cons, List.not_mem_nil, or_false,
        forall_eq_or_imp, forall_eq]
      exact ⟨hArray, hName⟩
  exact hMember.wellFormed (by simp)

/- Lowering can start at the member. -/
theorem start_createdMember
    (name : Name) :
    Start ⟨#[]⟩ ⟨3⟩ (createdMember name) where
  reached := reached_createdMember name
  formed := formed_createdMember name
  session := by
    have hCache : Cache.Reached (⟨#[]⟩, createdCache) :=
      (Cache.Reached.new ⟨#[]⟩).later
        (.performAll _ (.same _ _))
    have hCreate : Symbols.create? createdCache =
        some createdSymbols :=
      (Option.some_get _).symm
    exact Symbols.Session.of_create? hCache hCreate

/- The only type is that of the array, which is live. -/
private theorem live_createdMember
    {name : Name}
    {n : NodeId}
    {node : Node}
    (hNode : (createdMember name).tree.get? n = some node)
    {ty : TypeId}
    (hTy : node.ty = some ty) :
    (createdMember name).cache.Live ty := by
  have hInt : createdSymbols.cache.type? ⟨2⟩ =
      some ⟨.primitive .int,
        .host (BindingTable.primitive .int)⟩ := by
    decide +kernel
  have hArray : createdSymbols.cache.type? ⟨3⟩ =
      some ⟨.array ⟨2⟩, .synthetic⟩ := by
    decide +kernel
  have hLiveInt : createdSymbols.cache.Live ⟨2⟩ :=
    .of_atom hInt rfl rfl rfl
  have hLive : createdSymbols.cache.Live ⟨3⟩ := by
    refine .intro hArray (.intro hArray ?_ ?_) ?_
    · simp [TypeKind.names]
    · simp only [TypeKind.parts, List.mem_singleton, forall_eq]
      exact hLiveInt.written
    · simp only [TypeKind.component?, Option.some.injEq,
        forall_eq']
      exact hLiveInt
  have hMem := Array.mem_of_getElem? hNode
  simp only [createdMember, List.mem_toArray, List.mem_cons,
    List.not_mem_nil, or_false] at hMem
  rcases hMem with rfl | rfl | rfl | rfl
  · cases hTy
  · cases hTy
    exact hLive
  · cases hTy
  · cases hTy

/- Its length was issued altogether. -/
private theorem issued_createdLength :
    Issued (createdMember ⟨1⟩) where
  names := by
    intro n node hNode name hName
    have hMem := Array.mem_of_getElem? hNode
    simp only [createdMember, List.mem_toArray, List.mem_cons,
      List.not_mem_nil, or_false] at hMem
    rcases hMem with rfl | rfl | rfl | rfl
    · cases hName
    · cases hName
    · rw [List.mem_singleton.mp hName]
      unfold Cache.Knows
      decide +kernel
    · cases hName
  elements := by
    intro n node hNode id hId
    have hMem := Array.mem_of_getElem? hNode
    simp only [createdMember, List.mem_toArray, List.mem_cons,
      List.not_mem_nil, or_false] at hMem
    rcases hMem with rfl | rfl | rfl | rfl <;> cases hId
  types := fun n node hNode ty hTy =>
    (live_createdMember hNode hTy).written

/-
  The array is created by two factories, and its length is
  read through like fields, whose names have other handles.
-/
theorem both_modes_lower_alike_createdLength :
    ∃ after after',
      lower ⟨#[]⟩ { memoryManagement := .referenceCounting }
          ⟨3⟩ (createdMember ⟨1⟩) = .ok ⟨8⟩ after ∧
        lower ⟨#[]⟩ { memoryManagement := .arc } ⟨3⟩
          (createdMember ⟨1⟩) = .ok ⟨8⟩ after' ∧
        ∃ renames : Renaming after.cache after'.cache,
          after.tree.Alike
            (renames.likeness (createdMember ⟨1⟩).tree)
            after'.tree := by
  have hBoth := both_modes_lower_alike
    (start_createdMember ⟨1⟩).session issued_createdLength ⟨3⟩
  have hRun := eq_ok_of_answer? (show answer? (lower ⟨#[]⟩
    { memoryManagement := .referenceCounting } ⟨3⟩
    (createdMember ⟨1⟩)) = some ⟨8⟩ by decide +kernel)
  have hRun' := eq_ok_of_answer? (show answer? (lower ⟨#[]⟩
    { memoryManagement := .arc } ⟨3⟩
    (createdMember ⟨1⟩)) = some ⟨8⟩ by decide +kernel)
  refine ⟨_, _, hRun, hRun', ?_⟩
  rw [hRun, hRun'] at hBoth
  cases hBoth with
  | ok hPost => exact hPost.2

/-
  It is not enough that the types of the tree are live. A name
  that the cache has not issued is a fault with reference
  counting, while the other run, which makes another factory,
  comes to issue it.
-/
theorem modes_differ_at_foreign_name :
    Start ⟨#[]⟩ ⟨3⟩ (createdMember ⟨15⟩) ∧
      (∀ n node,
        (createdMember ⟨15⟩).tree.get? n = some node →
          ∀ ty, node.ty = some ty →
            (createdMember ⟨15⟩).cache.Live ty) ∧
      (∃ after,
        lower ⟨#[]⟩ { memoryManagement := .referenceCounting }
            ⟨3⟩ (createdMember ⟨15⟩) =
          .error (.cacheFault (.foreignName ⟨⟨15⟩⟩)) after) ∧
      ∃ after,
        lower ⟨#[]⟩ { memoryManagement := .arc } ⟨3⟩
            (createdMember ⟨15⟩) =
          .ok ⟨3⟩ after := by
  refine ⟨start_createdMember ⟨15⟩, ?_, ?_, ?_⟩
  · intro n node hNode ty hTy
    exact live_createdMember hNode hTy
  · refine ⟨_, eq_error_of_error? ?_⟩
    decide +kernel
  · refine ⟨_, eq_ok_of_answer? ?_⟩
    decide +kernel

end Arrays

end Lowering
