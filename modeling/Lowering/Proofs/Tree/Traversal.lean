import Lowering.Proofs.Tree.Validation

/-
  This file proves what a visitor can rely on that leaves the
  tree as it is. Below a root under which a tree is well
  formed, its hooks are called once each at the nodes above
  which all nodes let it in, and nowhere else. The calls nest
  as the nodes do, and siblings follow one another in the order
  of the children.

  What lets a visitor in may depend on all that it was called
  for before, so the calls are described by what they answered.

  Key definitions include:
    * `Call`
    * `Watcher.logged`
    * `Walked`
    * `Tree.CalledInOrder`
    * `NodeKind.declaration?`

  Main results:
    * `Watcher.exists_calls`
    * `Walked.encloses`
    * `Walked.enters_iff`
    * `Tree.hooks_are_called_once_in_order`
-/

namespace Lowering

------------------------------------------------------------
-- Calls Of Hooks
------------------------------------------------------------

/- A call of one of the hooks, and what the first answered. -/
inductive Call
  | enter (id : NodeId) (tag : NodeTag) (descends : Bool)
  | leave (id : NodeId) (tag : NodeTag)
  deriving DecidableEq, Repr

namespace Call

/- The node that a hook was called for. -/
def id : Call → NodeId
  | enter id _ _ => id
  | leave id _ => id

/- The tag that a hook was called with. -/
def tag : Call → NodeTag
  | enter _ tag _ => tag
  | leave _ tag => tag

/- Which hook was called for which node. -/
def visit : Call → Visit
  | enter id _ _ => .enter id
  | leave id _ => .leave id

end Call

/- The visits that were made, one after the other. -/
def visited (calls : List Call) : List Visit :=
  calls.map (·.visit)

@[simp] theorem visited_nil : visited [] = [] := rfl

@[simp] theorem visited_cons
    (call : Call) (calls : List Call) :
    visited (call :: calls) = call.visit :: visited calls := rfl

@[simp] theorem visited_append (calls calls' : List Call) :
    visited (calls ++ calls') =
      visited calls ++ visited calls' :=
  List.map_append

/- The two visits of each of some nodes, node after node. -/
def visitsOfEach (ids : List NodeId) : List Visit :=
  ids.flatMap fun id => [.enter id, .leave id]

/- What was entered was entered with some tag and answer. -/
theorem enter_mem_visited
    {calls : List Call}
    {n : NodeId} :
    .enter n ∈ visited calls ↔
      ∃ tag descends, Call.enter n tag descends ∈ calls := by
  constructor
  · intro hMem
    rcases List.mem_map.mp hMem with ⟨call, hCall, hVisit⟩
    cases call with
    | enter id tag descends =>
        cases hVisit
        exact ⟨tag, descends, hCall⟩
    | leave id tag => cases hVisit
  · rintro ⟨tag, descends, hCall⟩
    exact List.mem_map.mpr ⟨_, hCall, rfl⟩

/- A node was entered and let the visitor in. -/
def LetIn (calls : List Call) (id : NodeId) : Prop :=
  ∃ tag, Call.enter id tag true ∈ calls

theorem LetIn.entered
    {calls : List Call}
    {id : NodeId}
    (hLetIn : LetIn calls id) :
    .enter id ∈ visited calls := by
  rcases hLetIn with ⟨tag, hCall⟩
  exact enter_mem_visited.mpr ⟨tag, true, hCall⟩

theorem LetIn.mono
    {calls calls' : List Call}
    {id : NodeId}
    (hLetIn : LetIn calls id)
    (hSubset : calls ⊆ calls') :
    LetIn calls' id := by
  rcases hLetIn with ⟨tag, hCall⟩
  exact ⟨tag, hSubset hCall⟩

------------------------------------------------------------
-- Calls Of A Walk
------------------------------------------------------------

/-
  Calls of a visitor that is walked over some places: around
  what is called below a place that lets it in, and next to
  each other at a place that does not.
-/
inductive Walked : List Placed → List Call → Prop
  | done : Walked [] []
  | through
      {id : NodeId}
      {label : Label}
      {children rest : List Placed}
      {inner outer : List Call}
      (below : Walked children inner)
      (beside : Walked rest outer) :
      Walked (.node id label children :: rest)
        (.enter id label.shape.tag true ::
          (inner ++ .leave id label.shape.tag :: outer))
  | past
      {id : NodeId}
      {label : Label}
      {children rest : List Placed}
      {outer : List Call}
      (beside : Walked rest outer) :
      Walked (.node id label children :: rest)
        (.enter id label.shape.tag false ::
          .leave id label.shape.tag :: outer)

namespace Walked

/- Walks one after the other are a walk. -/
theorem beside
    {placed : Placed}
    {rest : List Placed}
    {calls calls' : List Call}
    (hWalked : Walked [placed] calls)
    (hRest : Walked rest calls') :
    Walked (placed :: rest) (calls ++ calls') := by
  cases hWalked with
  | through hBelow hBeside =>
      cases hBeside
      simpa using Walked.through hBelow hRest
  | past hBeside =>
      cases hBeside
      exact .past hRest

end Walked

namespace Watcher

variable {μ : Type}

/- A watcher that also keeps a log of the calls of its hooks. -/
def logged (watcher : Watcher μ) : Watcher (μ × List Call) where
  enter tree id tag memory :=
    let answer := watcher.enter tree id tag memory.1
    (answer.1, answer.2, memory.2 ++ [.enter id tag answer.1])
  leave tree id tag memory :=
    (watcher.leave tree id tag memory.1,
      memory.2 ++ [.leave id tag])

variable (watcher : Watcher μ)
variable (tree : Tree)

/- The calls of tours, one tour after the other. -/
private theorem exists_calls_all
    (trees : List Placed)
    (hEach : ∀ placed ∈ trees, ∀ memory log, ∃ calls,
      Walked [placed] calls ∧
        watcher.logged.tour tree placed (memory, log) =
          (watcher.tour tree placed memory, log ++ calls))
    (memory : μ)
    (log : List Call) :
    ∃ calls,
      Walked trees calls ∧
        watcher.logged.tourAll tree trees (memory, log) =
          (watcher.tourAll tree trees memory, log ++ calls) := by
  induction trees generalizing memory log with
  | nil => exact ⟨[], .done, by simp⟩
  | cons placed trees ih =>
      rcases hEach placed List.mem_cons_self memory log with
        ⟨calls, hWalked, hTour⟩
      rcases ih (fun other hMem =>
          hEach other (List.mem_cons_of_mem _ hMem))
          (watcher.tour tree placed memory) (log ++ calls) with
        ⟨calls', hWalked', hTours⟩
      refine ⟨calls ++ calls', hWalked.beside hWalked', ?_⟩
      rw [tourAll_cons, tourAll_cons, hTour, hTours,
        List.append_assoc]

/-
  What is logged in a tour are the calls of a walk; the log
  makes no difference to what is remembered.
-/
theorem exists_calls
    (placed : Placed)
    (memory : μ)
    (log : List Call) :
    ∃ calls,
      Walked [placed] calls ∧
        watcher.logged.tour tree placed (memory, log) =
          (watcher.tour tree placed memory, log ++ calls) := by
  induction placed generalizing memory log with
  | node id label children ih =>
      rw [tour_node, tour_node]
      rcases hAnswer :
          watcher.enter tree id label.shape.tag memory with
        ⟨descends, known⟩
      by_cases hDescends : descends = true
      · subst hDescends
        rcases watcher.exists_calls_all tree children ih known
            (log ++ [.enter id label.shape.tag true]) with
          ⟨calls, hWalked, hTours⟩
        refine ⟨_, .through hWalked .done, ?_⟩
        simp only [logged, hAnswer, if_true] at hTours ⊢
        rw [hTours]
        simp
      · rw [Bool.not_eq_true] at hDescends
        subst hDescends
        refine ⟨_, .past .done, ?_⟩
        simp [logged, hAnswer]

end Watcher

------------------------------------------------------------
-- What Is Called
------------------------------------------------------------

namespace Walked

variable {tree : Tree}
variable {trees : List Placed}
variable {calls : List Call}
variable {n : NodeId}

/- A place is left as often as it is entered. -/
theorem count_leave
    (hWalked : Walked trees calls)
    (n : NodeId) :
    (visited calls).count (.leave n) =
      (visited calls).count (.enter n) := by
  induction hWalked with
  | done => rfl
  | through _ _ ihBelow ihBeside =>
      simp only [visited_cons, visited_append, Call.visit,
        List.count_cons, List.count_append, ihBelow, ihBeside,
        beq_iff_eq, Visit.enter.injEq, Visit.leave.injEq,
        reduceCtorEq, if_false]
      omega
  | past _ ihBeside =>
      simp only [visited_cons, Call.visit, List.count_cons,
        ihBeside, beq_iff_eq, Visit.enter.injEq,
        Visit.leave.injEq, reduceCtorEq, if_false]
      omega

/- A place is entered no more often than it is there. -/
theorem count_enter_le
    (hWalked : Walked trees calls)
    (n : NodeId) :
    (visited calls).count (.enter n) ≤
      (Placed.idsAll trees).count n := by
  induction hWalked with
  | done => exact Nat.le_refl _
  | through _ _ ihBelow ihBeside =>
      simp only [visited_cons, visited_append, Call.visit,
        List.count_cons, List.count_append, beq_iff_eq,
        Visit.enter.injEq, reduceCtorEq, if_false,
        Placed.idsAll_cons, Placed.ids_node]
      omega
  | past _ ihBeside =>
      simp only [visited_cons, Call.visit, List.count_cons,
        List.count_append, beq_iff_eq, Visit.enter.injEq,
        reduceCtorEq, if_false, Placed.idsAll_cons,
        Placed.ids_node]
      omega

/- Where no place occurs twice, no hook is called twice. -/
theorem nodup_visited
    (hWalked : Walked trees calls)
    (hNodup : (Placed.idsAll trees).Nodup) :
    (visited calls).Nodup := by
  have hEntered : ∀ n,
      (visited calls).count (.enter n) ≤ 1 := by
    intro n
    exact Nat.le_trans (hWalked.count_enter_le n)
      (List.nodup_iff_count_le_one.mp hNodup n)
  rw [List.nodup_iff_count_le_one]
  intro visit
  cases visit with
  | enter n => exact hEntered n
  | leave n =>
      rw [hWalked.count_leave n]
      exact hEntered n

/- The places that are left are those that are entered. -/
theorem leave_mem_iff (hWalked : Walked trees calls) :
    .leave n ∈ visited calls ↔ .enter n ∈ visited calls := by
  rw [← List.count_pos_iff, hWalked.count_leave n,
    List.count_pos_iff]

/- The roots of what is walked are entered. -/
theorem enters_roots
    {placed : Placed}
    (hWalked : Walked trees calls)
    (hMem : placed ∈ trees) :
    .enter placed.id ∈ visited calls := by
  induction hWalked with
  | done => cases hMem
  | through _ _ _ ihBeside =>
      rcases List.mem_cons.mp hMem with rfl | hMem
      · simp [Call.visit]
      · simp [ihBeside hMem]
  | past _ ihBeside =>
      rcases List.mem_cons.mp hMem with rfl | hMem
      · simp [Call.visit]
      · simp [ihBeside hMem]

/- Hooks are called with the tags of the places. -/
theorem tags
    (hWalked : Walked trees calls)
    (hHolds : ∀ placed ∈ trees, tree.Holds placed) :
    ∀ call ∈ calls, tree.tag call.id = .ok call.tag := by
  induction hWalked with
  | done => simp
  | through _ _ ihBelow ihBeside =>
      rw [List.forall_mem_cons] at hHolds
      have hInner := ihBelow fun _ hMem => hHolds.1.child hMem
      have hOuter := ihBeside hHolds.2
      rw [List.forall_mem_cons, List.forall_mem_append,
        List.forall_mem_cons]
      exact ⟨hHolds.1.tag, hInner, hHolds.1.tag, hOuter⟩
  | past _ ihBeside =>
      rw [List.forall_mem_cons] at hHolds
      rw [List.forall_mem_cons, List.forall_mem_cons]
      exact ⟨hHolds.1.tag, hHolds.1.tag, ihBeside hHolds.2⟩

end Walked

/-
  Around a place that was entered: it is left after the calls
  of a walk over its children, or at once.
-/
def Encloses
    (tree : Tree)
    (n : NodeId)
    (tag : NodeTag)
    (descends : Bool)
    (calls : List Call) : Prop :=
  ∃ label children front block back,
    calls = front ++ .enter n tag descends ::
      (block ++ .leave n tag :: back) ∧
    tree.Holds (.node n label children) ∧
    (descends = true → Walked children block) ∧
    (descends = false → block = [])

namespace Walked

variable {tree : Tree}
variable {trees : List Placed}
variable {calls : List Call}
variable {n : NodeId}
variable {tag : NodeTag}
variable {descends : Bool}

private theorem encloses_of_infix
    {inner : List Call}
    (hEncloses : Encloses tree n tag descends inner)
    (hInfix : inner <:+: calls) :
    Encloses tree n tag descends calls := by
  rcases hEncloses with
    ⟨label, children, front, block, back, rfl, hRest⟩
  rcases hInfix with ⟨before, after, rfl⟩
  exact ⟨label, children, before ++ front, block,
    back ++ after, by simp, hRest⟩

theorem encloses
    (hWalked : Walked trees calls)
    (hHolds : ∀ placed ∈ trees, tree.Holds placed)
    (hMem : .enter n tag descends ∈ calls) :
    Encloses tree n tag descends calls := by
  induction hWalked with
  | done => cases hMem
  | @through id label children rest inner outer hBelow _
      ihBelow ihBeside =>
      rw [List.forall_mem_cons] at hHolds
      rw [List.mem_cons, List.mem_append, List.mem_cons] at hMem
      rcases hMem with hEq | hInner | hEq | hOuter
      · cases hEq
        exact ⟨label, children, [], inner, outer, rfl, hHolds.1,
          fun _ => hBelow, nofun⟩
      · apply encloses_of_infix
          (ihBelow (fun _ hMem => hHolds.1.child hMem) hInner)
        exact List.infix_cons
          (List.prefix_append inner _).isInfix
      · cases hEq
      · apply encloses_of_infix (ihBeside hHolds.2 hOuter)
        exact List.infix_cons ((List.suffix_cons _ outer).trans
          (List.suffix_append inner _)).isInfix
  | @past id label children rest outer _ ihBeside =>
      rw [List.forall_mem_cons] at hHolds
      rw [List.mem_cons, List.mem_cons] at hMem
      rcases hMem with hEq | hEq | hOuter
      · cases hEq
        exact ⟨label, children, [], [], outer, rfl, hHolds.1,
          nofun, fun _ => rfl⟩
      · cases hEq
      · apply encloses_of_infix (ihBeside hHolds.2 hOuter)
        exact List.infix_cons
          (List.suffix_cons _ outer).isInfix

end Walked

------------------------------------------------------------
-- The Way Down
------------------------------------------------------------

/- A node that let the visitor in, and a node that it lists. -/
def Tree.Admits
    (tree : Tree)
    (calls : List Call)
    (owner child : NodeId) : Prop :=
  LetIn calls owner ∧ tree.Lists owner child

/- More calls let the visitor in at no fewer nodes. -/
private theorem Tree.admitted_mono
    {tree : Tree}
    {calls calls' : List Call}
    {first last : NodeId}
    (hSubset : calls ⊆ calls')
    (hPath : Relation.ReflTransGen (tree.Admits calls)
      first last) :
    Relation.ReflTransGen (tree.Admits calls') first last :=
  Relation.ReflTransGen.mono
    (fun _ _ hStep => ⟨hStep.1.mono hSubset, hStep.2⟩) _ _ hPath

namespace Walked

variable {tree : Tree}
variable {calls : List Call}
variable {n : NodeId}

/- What is entered is reached by nodes that let one in. -/
private theorem admitted_of_entered
    {trees : List Placed}
    (hWalked : Walked trees calls)
    (hHolds : ∀ placed ∈ trees, tree.Holds placed)
    (hEntered : .enter n ∈ visited calls) :
    ∃ placed ∈ trees,
      Relation.ReflTransGen (tree.Admits calls) placed.id n := by
  induction hWalked with
  | done => cases hEntered
  | @through id label children rest inner outer _ _
      ihBelow ihBeside =>
      rw [List.forall_mem_cons] at hHolds
      simp only [visited_cons, visited_append, Call.visit,
        List.mem_cons, List.mem_append, Visit.enter.injEq,
        reduceCtorEq, false_or] at hEntered
      rcases hEntered with rfl | hInner | hOuter
      · exact ⟨_, List.mem_cons_self, .refl⟩
      · rcases ihBelow (fun _ hMem => hHolds.1.child hMem)
            hInner with ⟨child, hChild, hPath⟩
        have hLists : tree.Lists id child.id :=
          hHolds.1.lists_iff.mpr ⟨child, hChild, rfl⟩
        have hStep {calls : List Call} : tree.Admits
            (.enter id label.shape.tag true :: calls)
            id child.id :=
          ⟨⟨_, List.mem_cons_self⟩, hLists⟩
        refine ⟨_, List.mem_cons_self,
          .head hStep (Tree.admitted_mono ?_ hPath)⟩
        exact fun call hCall => by simp [hCall]
      · rcases ihBeside hHolds.2 hOuter with
          ⟨placed, hMem, hPath⟩
        refine ⟨placed, List.mem_cons_of_mem _ hMem,
          Tree.admitted_mono ?_ hPath⟩
        exact fun call hCall => by simp [hCall]
  | past _ ihBeside =>
      rw [List.forall_mem_cons] at hHolds
      simp only [visited_cons, Call.visit, List.mem_cons,
        Visit.enter.injEq, reduceCtorEq, false_or] at hEntered
      rcases hEntered with rfl | hOuter
      · exact ⟨_, List.mem_cons_self, .refl⟩
      · rcases ihBeside hHolds.2 hOuter with
          ⟨placed, hMem, hPath⟩
        refine ⟨placed, List.mem_cons_of_mem _ hMem,
          Tree.admitted_mono ?_ hPath⟩
        exact fun call hCall => by simp [hCall]

/- Where a node let the visitor in, its children are entered. -/
theorem enters_listed
    {owner : NodeId}
    {trees : List Placed}
    (hWalked : Walked trees calls)
    (hHolds : ∀ placed ∈ trees, tree.Holds placed)
    (hStep : tree.Admits calls owner n) :
    .enter n ∈ visited calls := by
  rcases hStep with ⟨⟨tag, hCall⟩, hLists⟩
  rcases hWalked.encloses hHolds hCall with
    ⟨label, children, front, block, back, rfl, hRoot, hBlock,
      _⟩
  rcases hRoot.lists_iff.mp hLists with ⟨child, hMem, rfl⟩
  have hEntered := (hBlock rfl).enters_roots hMem
  simp [hEntered]

/- The nodes that are entered, from the root downwards. -/
theorem enters_iff
    {placed : Placed}
    (hWalked : Walked [placed] calls)
    (hHolds : tree.Holds placed) :
    .enter n ∈ visited calls ↔
      Relation.ReflTransGen (tree.Admits calls)
        placed.id n := by
  have hAll : ∀ other ∈ [placed], tree.Holds other := by
    simpa using hHolds
  constructor
  · intro hEntered
    rcases hWalked.admitted_of_entered hAll hEntered with
      ⟨other, hMem, hPath⟩
    rw [List.mem_singleton] at hMem
    rw [hMem] at hPath
    exact hPath
  · intro hPath
    induction hPath with
    | refl => exact hWalked.enters_roots List.mem_cons_self
    | tail _ hStep _ => exact hWalked.enters_listed hAll hStep

end Walked

/-
  In a well-formed tree there is one way down to a node, so all
  nodes on it let one in if all the nodes above do.
-/
theorem Tree.WellFormed.admitted_iff
    {tree : Tree}
    {root n : NodeId}
    {calls : List Call}
    (hFormed : tree.WellFormed root) :
    Relation.ReflTransGen (tree.Admits calls) root n ↔
      tree.Below root n ∧
        ∀ above, tree.Below root above →
          Relation.TransGen tree.Lists above n →
            LetIn calls above := by
  constructor
  · intro hPath
    induction hPath with
    | refl =>
        refine ⟨.refl, ?_⟩
        intro above hBelow hUnder
        exact absurd (Relation.TransGen.trans_right hBelow
          hUnder) (hFormed.acyclic root .refl)
    | @tail owner n _ hStep ih =>
        rcases ih with ⟨hOwner, hAbove⟩
        refine ⟨hOwner.tail hStep.2, ?_⟩
        intro above hBelow hUnder
        rcases Relation.TransGen.tail'_iff.mp hUnder with
          ⟨owner', hReach, hLists⟩
        cases hFormed.owner_unique (hBelow.trans hReach) hOwner
          hLists hStep.2
        rcases Relation.reflTransGen_iff_eq_or_transGen.mp
          hReach with rfl | hUnder'
        · exact hStep.1
        · exact hAbove above hBelow hUnder'
  · rintro ⟨hBelow, hAbove⟩
    induction hBelow with
    | refl => exact .refl
    | @tail owner n hOwner hLists ih =>
        refine (ih ?_).tail ⟨?_, hLists⟩
        · intro above hBelow hUnder
          exact hAbove above hBelow (hUnder.tail hLists)
        · exact hAbove owner hOwner (.single hLists)

------------------------------------------------------------
-- Declarations
------------------------------------------------------------

/- The parts of a declaration in the order of traversal. -/
structure DeclarationParts (α : Type) where
  documentation : Option α := none
  annotations : List α := []
  name : α
  /- What is particular to the kind of declaration. -/
  own : List α := []
  body : List α := []

namespace NodeKind

variable {α : Type}

/- The parts of a kind that declares something. -/
def declaration? : NodeKind α → Option (DeclarationParts α)
  | packageDeclaration documentation annotations name =>
    some { documentation, annotations, name }
  | enumDeclaration documentation annotations name constants
      body =>
    some
      { documentation, annotations, name, own := constants
        body }
  | enumConstantDeclaration annotations name arguments =>
    some { annotations, name, own := arguments }
  | methodDeclaration documentation annotations name parameters
      body =>
    some
      { documentation, annotations, name, own := parameters
        body := body.toList }
  | variableDeclaration name initializer =>
    some { name, own := initializer.toList }
  | _ => none

/- The children of a declaration, part by part. -/
theorem children_of_declaration
    {kind : NodeKind α}
    {parts : DeclarationParts α}
    (hParts : kind.declaration? = some parts) :
    kind.children =
      parts.documentation.toList ++ parts.annotations ++
        parts.name :: (parts.own ++ parts.body) := by
  cases kind <;> simp only [declaration?, reduceCtorEq,
    Option.some.injEq] at hParts
  all_goals
    subst hParts
    simp [children]

end NodeKind

------------------------------------------------------------
-- The Order Of Calls
------------------------------------------------------------

/-
  The calls that the visitors of a tree may rely on.
-/
structure Tree.CalledInOrder
    (tree : Tree)
    (root : NodeId)
    (calls : List Call) : Prop where
  /- No hook is called twice for a node. -/
  once : (visited calls).Nodup
  tags : ∀ call ∈ calls, tree.tag call.id = .ok call.tag
  /- The first hook is called where all above let it in. -/
  entered : ∀ n,
    .enter n ∈ visited calls ↔
      tree.Below root n ∧
        ∀ above, tree.Below root above →
          Relation.TransGen tree.Lists above n →
            LetIn calls above
  /- The second hook is called where the first is. -/
  left : ∀ n,
    .leave n ∈ visited calls ↔ .enter n ∈ visited calls
  /- The calls for a node are around those for what is below. -/
  nested : ∀ above n,
    .enter above ∈ visited calls →
      .enter n ∈ visited calls →
        Relation.TransGen tree.Lists above n →
          [.enter above, .enter n, .leave n,
            .leave above].Sublist (visited calls)
  /- Nothing is called in between if there is nothing to. -/
  at_once : ∀ n tag descends,
    .enter n tag descends ∈ calls →
      descends = false ∨ tree.children n = .ok [] →
        [.enter n tag descends, .leave n tag] <:+: calls
  /- Siblings are walked one after the other. -/
  in_turn : ∀ owner children,
    LetIn calls owner →
      tree.children owner = .ok children →
        (visitsOfEach children).Sublist (visited calls)
  /- In a declaration, its name comes after what is said of it. -/
  declared : ∀ owner stored parts,
    LetIn calls owner →
      tree.get? owner = some stored →
        stored.kind.declaration? = some parts →
          (visitsOfEach (parts.documentation.toList ++
            parts.annotations ++ parts.name ::
              (parts.own ++ parts.body))).Sublist
            (visited calls)

namespace Walked

variable {tree : Tree}
variable {trees : List Placed}
variable {calls : List Call}
variable {n : NodeId}

/- The calls for a node are around what is in its block. -/
private theorem sublist_around
    {block : List Call}
    {visits : List Visit}
    (front back : List Call)
    (tag : NodeTag)
    (descends : Bool)
    (hVisits : visits.Sublist (visited block)) :
    (.enter n :: (visits ++ [.leave n])).Sublist
      (visited (front ++ .enter n tag descends ::
        (block ++ .leave n tag :: back))) := by
  simp only [visited_append, visited_cons, Call.visit]
  apply List.Sublist.trans _ (List.sublist_append_right _ _)
  apply List.Sublist.cons_cons
  apply hVisits.append
  exact List.singleton_sublist.mpr List.mem_cons_self

/- What is entered is left later. -/
theorem leaves_later
    (hWalked : Walked trees calls)
    (hHolds : ∀ placed ∈ trees, tree.Holds placed)
    (hEntered : .enter n ∈ visited calls) :
    [.enter n, .leave n].Sublist (visited calls) := by
  rcases enter_mem_visited.mp hEntered with
    ⟨tag, descends, hCall⟩
  rcases hWalked.encloses hHolds hCall with
    ⟨label, children, front, block, back, rfl, _⟩
  exact sublist_around front back tag descends
    (List.nil_sublist _)

/- Where nothing is to be walked, nothing is. -/
theorem at_once
    {tag : NodeTag}
    {descends : Bool}
    (hWalked : Walked trees calls)
    (hHolds : ∀ placed ∈ trees, tree.Holds placed)
    (hCall : .enter n tag descends ∈ calls)
    (hNone : descends = false ∨ tree.children n = .ok []) :
    [.enter n tag descends, .leave n tag] <:+: calls := by
  rcases hWalked.encloses hHolds hCall with
    ⟨label, children, front, block, back, rfl, hRoot, hWalks,
      hSkips⟩
  have hBlock : block = [] := by
    by_cases hDescends : descends = true
    · rcases hNone with hSkipped | hChildren
      · exact hSkips hSkipped
      · have hRoots := hRoot.children
        rw [Placed.id_node, hChildren, Except.ok.injEq,
          eq_comm, List.map_eq_nil_iff] at hRoots
        have hNothing := hWalks hDescends
        rw [Placed.children_node] at hRoots
        rw [hRoots] at hNothing
        cases hNothing
        rfl
    · rw [Bool.not_eq_true] at hDescends
      exact hSkips hDescends
  rw [hBlock]
  exact ⟨front, back, by simp⟩

/- The roots of what is walked come one after the other. -/
theorem roots_in_turn (hWalked : Walked trees calls) :
    (visitsOfEach (trees.map (·.id))).Sublist
      (visited calls) := by
  induction hWalked with
  | done => exact List.Sublist.refl _
  | through _ _ _ ihBeside =>
      simp only [visited_cons, visited_append, Call.visit]
      apply List.Sublist.cons_cons
      exact (ihBeside.cons_cons _).trans
        (List.sublist_append_right _ _)
  | past _ ihBeside =>
      exact (ihBeside.cons_cons _).cons_cons _

/- Siblings are walked one after the other. -/
theorem in_turn
    {owner : NodeId}
    {children : List NodeId}
    (hWalked : Walked trees calls)
    (hHolds : ∀ placed ∈ trees, tree.Holds placed)
    (hLetIn : LetIn calls owner)
    (hChildren : tree.children owner = .ok children) :
    (visitsOfEach children).Sublist (visited calls) := by
  rcases hLetIn with ⟨tag, hCall⟩
  rcases hWalked.encloses hHolds hCall with
    ⟨label, below, front, block, back, rfl, hRoot, hWalks, _⟩
  have hRoots := hRoot.children
  rw [Placed.id_node, hChildren, Except.ok.injEq,
    Placed.children_node] at hRoots
  rw [hRoots]
  have hBlock := (hWalks rfl).roots_in_turn
  apply hBlock.trans
  simp only [visited_append, visited_cons]
  apply List.Sublist.trans _ (List.sublist_append_right _ _)
  exact (List.sublist_append_left _ _).cons _

/-
  What is entered below a node is entered between the calls for
  that node: its owner is entered once, and there.
-/
theorem nested
    {placed : Placed}
    {above : NodeId}
    (hWalked : Walked [placed] calls)
    (hHolds : tree.Holds placed)
    (hNodup : placed.ids.Nodup)
    (hAbove : .enter above ∈ visited calls)
    (hEntered : .enter n ∈ visited calls)
    (hUnder : Relation.TransGen tree.Lists above n) :
    [.enter above, .enter n, .leave n, .leave above].Sublist
      (visited calls) := by
  have hAll : ∀ other ∈ [placed], tree.Holds other := by
    simpa using hHolds
  have hFormed := hHolds.wellFormed hNodup
  have hOnce : (visited calls).Nodup :=
    hWalked.nodup_visited (by simpa using hNodup)
  have hAdmits {m : NodeId}
      (hMem : .enter m ∈ visited calls) :=
    hFormed.admitted_iff.mp ((hWalked.enters_iff hHolds).mp hMem)
  have hBelow := (hAdmits hAbove).1
  rcases (hAdmits hEntered).2 above hBelow hUnder with
    ⟨tag, hCall⟩
  rcases hWalked.encloses hAll hCall with
    ⟨label, children, front, block, back, hCalls, hRoot, hWalks,
      _⟩
  have hBlock := hWalks rfl
  have hChildren : ∀ child ∈ children, tree.Holds child :=
    fun _ hMem => hRoot.child hMem
  have hSubset : block ⊆ calls := by
    rw [hCalls]
    exact fun call hMem => by simp [hMem]
  have hInner : .enter n ∈ visited block := by
    induction hUnder with
    | single hLists =>
        rcases hRoot.lists_iff.mp hLists with ⟨child, hMem, rfl⟩
        exact hBlock.enters_roots hMem
    | @tail owner n hReach hLists ih =>
        have hOwnerBelow := hBelow.trans hReach.to_reflTransGen
        have hLetIn := (hAdmits hEntered).2 owner hOwnerBelow
          (.single hLists)
        rcases enter_mem_visited.mp (ih hLetIn.entered) with
          ⟨tag', descends, hOwner⟩
        rcases hLetIn with ⟨tag'', hOwner'⟩
        have hSame := List.inj_on_of_nodup_map hOnce
          (hSubset hOwner) hOwner' rfl
        rw [hSame] at hOwner
        exact hBlock.enters_listed hChildren
          ⟨⟨_, hOwner⟩, hLists⟩
  rw [hCalls]
  exact sublist_around front back tag true
    (hBlock.leaves_later hChildren hInner)

/- The calls of a walk of a well-formed tree. -/
theorem calledInOrder
    {placed : Placed}
    (hWalked : Walked [placed] calls)
    (hHolds : tree.Holds placed)
    (hNodup : placed.ids.Nodup) :
    tree.CalledInOrder placed.id calls := by
  have hAll : ∀ other ∈ [placed], tree.Holds other := by
    simpa using hHolds
  constructor
  case once =>
    exact hWalked.nodup_visited (by simpa using hNodup)
  case tags => exact hWalked.tags hAll
  case entered =>
    intro n
    rw [hWalked.enters_iff hHolds]
    exact (hHolds.wellFormed hNodup).admitted_iff
  case left => exact fun n => hWalked.leave_mem_iff
  case nested =>
    intro above n hAbove hEntered hUnder
    exact hWalked.nested hHolds hNodup hAbove hEntered hUnder
  case at_once =>
    intro n tag descends hCall hNone
    exact hWalked.at_once hAll hCall hNone
  case in_turn =>
    intro owner children hLetIn hChildren
    exact hWalked.in_turn hAll hLetIn hChildren
  case declared =>
    intro owner stored parts hLetIn hAt hParts
    apply hWalked.in_turn hAll hLetIn
    rw [Tree.children, Tree.node_eq_ok hAt,
      ← NodeKind.children_of_declaration hParts]
    rfl

end Walked

namespace Tree

variable {tree : Tree}
variable {root : NodeId}

/-
  A visitor that changes no tree can be walked from every root
  under which a tree is well formed. Whatever its answers depend
  on, its hooks are called once each at the nodes above which
  it answered to go on, with the tags of these nodes, and not
  at others. The calls for a node are around those for what is
  below it, with none in between if it was not let in or has no
  children; and siblings are walked in the order of the
  children, which in a declaration is documentation,
  annotations and name before all else.
-/
theorem hooks_are_called_once_in_order
    {μ : Type}
    (hFormed : tree.WellFormed root)
    (watcher : Watcher μ)
    (memory : μ) :
    ∃ calls memory',
      watcher.visitor.walk root memory tree =
          .ok ((), memory') tree ∧
        watcher.logged.visitor.walk root (memory, []) tree =
          .ok ((), (memory', calls)) tree ∧
        tree.CalledInOrder root calls := by
  rcases hFormed.exists_placed with
    ⟨placed, rfl, hHolds, hNodup⟩
  rcases watcher.exists_calls tree placed memory [] with
    ⟨calls, hWalked, hTour⟩
  have hDepth := Nat.le_succ_of_le (hHolds.height_le hNodup)
  have hRun := hHolds.run_watcher watcher memory
    (tree.size + 1) hDepth
  have hLog := hHolds.run_watcher watcher.logged (memory, [])
    (tree.size + 1) hDepth
  rw [hTour, List.nil_append] at hLog
  exact ⟨calls, _, hRun, hLog,
    hWalked.calledInOrder hHolds hNodup⟩

/- An enum with documentation and one constant. -/
def commented : Tree := ⟨#[
  { kind := .javadoc ⟨1⟩
    parent := some ⟨4⟩ },
  { kind := .simpleName ⟨2⟩
    parent := some ⟨4⟩ },
  { kind := .simpleName ⟨3⟩
    parent := some ⟨3⟩ },
  { kind := .enumConstantDeclaration [] ⟨2⟩ []
    parent := some ⟨4⟩ },
  { kind := .enumDeclaration (some ⟨0⟩) [] ⟨1⟩ [⟨3⟩] [] }]⟩

theorem holds_commented :
    commented.Holds (.node ⟨4⟩
      ⟨.enumDeclaration (some ()) [] () [()] [], none, none⟩
      [.node ⟨0⟩ ⟨.javadoc ⟨1⟩, none, none⟩ [],
        .node ⟨1⟩ ⟨.simpleName ⟨2⟩, none, none⟩ [],
        .node ⟨3⟩ ⟨.enumConstantDeclaration [] () [], none,
          none⟩
          [.node ⟨2⟩ ⟨.simpleName ⟨3⟩, none, none⟩ []]]) := by
  have hLeaf {id : NodeId} {label : Label} {stored : Node}
      (hAt : commented.get? id = some stored)
      (hLabel : stored.label = label)
      (hChildren : stored.kind.children = []) :
      commented.Holds (.node id label []) :=
    .node hAt hLabel hChildren (by simp) (by simp)
  have hDoc : commented.Holds
      (.node ⟨0⟩ ⟨.javadoc ⟨1⟩, none, none⟩ []) :=
    hLeaf rfl rfl rfl
  have hName : commented.Holds
      (.node ⟨1⟩ ⟨.simpleName ⟨2⟩, none, none⟩ []) :=
    hLeaf rfl rfl rfl
  have hLast : commented.Holds
      (.node ⟨2⟩ ⟨.simpleName ⟨3⟩, none, none⟩ []) :=
    hLeaf rfl rfl rfl
  have hConstant : commented.Holds
      (.node ⟨3⟩
        ⟨.enumConstantDeclaration [] () [], none, none⟩
        [.node ⟨2⟩ ⟨.simpleName ⟨3⟩, none, none⟩ []]) := by
    refine .node rfl rfl rfl ?_ ?_
    · simp only [List.mem_singleton, forall_eq]
      rfl
    · simpa using hLast
  refine .node rfl rfl rfl ?_ ?_
  · simp only [List.mem_cons, List.not_mem_nil, or_false,
      forall_eq_or_imp, forall_eq]
    exact ⟨rfl, rfl, rfl⟩
  · simp only [List.mem_cons, List.not_mem_nil, or_false,
      forall_eq_or_imp, forall_eq]
    exact ⟨hDoc, hName, hConstant⟩

/- A watcher that goes on below the first three nodes only. -/
def threefold : Watcher Nat where
  enter _ _ _ seen := (seen < 3, seen + 1)
  leave _ _ _ seen := seen

/- It leaves the constant at once, without the name in it. -/
theorem hooks_are_called_once_in_order_commented :
    commented.WellFormed ⟨4⟩ ∧
      ∃ calls,
        threefold.logged.visitor.walk ⟨4⟩ (0, []) commented =
          .ok ((), (4, calls)) commented ∧
        commented.CalledInOrder ⟨4⟩ calls ∧
        [.enter ⟨3⟩ .enumConstantDeclaration false,
          .leave ⟨3⟩ .enumConstantDeclaration] <:+: calls ∧
        .enter ⟨2⟩ ∉ visited calls := by
  have hFormed : commented.WellFormed ⟨4⟩ :=
    holds_commented.wellFormed (by simp)
  rcases hooks_are_called_once_in_order hFormed threefold 0
    with ⟨calls, memory', _, hLog, hOrder⟩
  have hCalls : calls =
      [.enter ⟨4⟩ .enumDeclaration true,
        .enter ⟨0⟩ .javadoc true, .leave ⟨0⟩ .javadoc,
        .enter ⟨1⟩ .simpleName true, .leave ⟨1⟩ .simpleName,
        .enter ⟨3⟩ .enumConstantDeclaration false,
        .leave ⟨3⟩ .enumConstantDeclaration,
        .leave ⟨4⟩ .enumDeclaration] ∧ memory' = 4 := by
    cases hLog
    exact ⟨rfl, rfl⟩
  rcases hCalls with ⟨hCalls, rfl⟩
  have hDeclined := hOrder.at_once ⟨3⟩ .enumConstantDeclaration
    false (by simp [hCalls]) (.inl rfl)
  refine ⟨hFormed, calls, hLog, hOrder, hDeclined, ?_⟩
  rw [hCalls]
  decide

end Tree

end Lowering
