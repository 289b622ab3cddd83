import Lowering.Tree.Ownership
import Lowering.Proofs.Tree.Parents
import Lowering.Proofs.Tree.Unfolding
import Lowering.Proofs.Tree.Watching

/-
  This file proves what the check of owners finds. Where slots
  never lead back to where they came from, it comes to an end.
  It finds nothing exactly when every node below the root owns
  what it lists, and what it finds is listed by a node that
  does not own it.

  A node that fills two slots of its owner is not found, for
  its owner is right in both. Apart from such nodes, what
  passes the check is a tree: each node below the root is in
  one slot only, and a walk comes by each node once.

  Key definitions include:
    * `Tree.Finds`
    * `Tree.ListsOnce`
    * `Tree.OwnedInOneSlot`
    * `onlooker`
    * `Placed.visits`

  Main results:
    * `Tree.findMislisted_finds`
    * `Tree.WellFormed.validate`
    * `Tree.Holds.run_walkWithin`
    * `Tree.validation_finds_what_is_mislisted`
-/

namespace Lowering

namespace Tree

variable {tree : Tree}
variable {root : NodeId}

------------------------------------------------------------
-- What The Check Finds
------------------------------------------------------------

/-
  What an answer of the check says: all that is listed below
  the root is owned where it is listed, or something is not.
-/
def Finds (tree : Tree) (root : NodeId) : Option NodeId → Prop
  | none =>
    ∀ owner child, tree.Below root owner →
      tree.Lists owner child → tree.owner? child = some owner
  | some child =>
    ∃ owner, tree.Below root owner ∧
      tree.Lists owner child ∧ tree.owner? child ≠ some owner

/- A search of items that all answer is a search of answers. -/
private theorem findM?_eq_ok
    {items : List NodeId}
    {question : NodeId → Except TreeFault Bool}
    {answer : NodeId → Bool}
    (hEach : ∀ item ∈ items,
      question item = .ok (answer item)) :
    items.findM? question = .ok (items.find? answer) := by
  induction items with
  | nil => rfl
  | cons item items ih =>
      have hRest := ih fun other hMem =>
        hEach other (List.mem_cons_of_mem _ hMem)
      rw [List.findM?, hEach item List.mem_cons_self]
      cases hAnswer : answer item with
      | true =>
          rw [List.find?_cons_of_pos hAnswer]
          rfl
      | false =>
          rw [List.find?_cons_of_neg (by simp [hAnswer])]
          exact hRest

/- A search for a finding passes items without one. -/
private theorem findSomeM?_eq_ok
    {items : List NodeId}
    {search : NodeId → Except TreeFault (Option NodeId)}
    {P : NodeId → Option NodeId → Prop}
    (hEach : ∀ item ∈ items,
      ∃ answer, search item = .ok answer ∧ P item answer) :
    ∃ answer,
      items.findSomeM? search = .ok answer ∧
        match answer with
        | none => ∀ item ∈ items, P item none
        | some found => ∃ item ∈ items, P item (some found) := by
  induction items with
  | nil => exact ⟨none, rfl, by simp⟩
  | cons item items ih =>
      rcases ih fun other hMem =>
        hEach other (List.mem_cons_of_mem _ hMem) with
        ⟨rest, hRest, hMeans⟩
      rcases hEach item List.mem_cons_self with
        ⟨answer, hItem, hAnswer⟩
      rw [List.findSomeM?_cons, hItem]
      cases answer with
      | some found =>
          exact ⟨some found, rfl, item, List.mem_cons_self,
            hAnswer⟩
      | none =>
          refine ⟨rest, hRest, ?_⟩
          cases rest with
          | none =>
              intro other hMem
              rcases List.mem_cons.mp hMem with rfl | hMem
              · exact hAnswer
              · exact hMeans other hMem
          | some found =>
              rcases hMeans with ⟨other, hMem, hOther⟩
              exact ⟨other, List.mem_cons_of_mem _ hMem, hOther⟩

/- The check of a node answers if those of its children do. -/
private theorem finds_step
    {depth : Nat}
    {id : NodeId}
    (hPresent : ∀ n, tree.Below id n → (tree.get? n).isSome)
    (hEach : ∀ child, tree.Lists id child →
      ∃ answer,
        tree.findMislistedWithin depth child = .ok answer ∧
          tree.Finds child answer) :
    ∃ answer,
      tree.findMislistedWithin (depth + 1) id = .ok answer ∧
        tree.Finds id answer := by
  rcases Option.isSome_iff_exists.mp
    (hPresent id Relation.ReflTransGen.refl) with ⟨stored, hAt⟩
  have hLists (child : NodeId) :
      tree.Lists id child ↔ child ∈ stored.kind.children :=
    lists_iff hAt
  have hChildren := children_eq_ok hAt
  have hOwners : stored.kind.children.findM?
      (fun child => do
        return (← tree.node child).parent ≠ some id :
          NodeId → Except TreeFault Bool) =
      .ok (stored.kind.children.find? fun child =>
        tree.owner? child ≠ some id) := by
    apply findM?_eq_ok
    intro child hMem
    rcases Option.isSome_iff_exists.mp (hPresent child
      (Relation.ReflTransGen.single ((hLists child).mpr hMem)))
      with ⟨found, hFound⟩
    rw [node_eq_ok hFound, owner?_of_get? hFound]
    rfl
  unfold findMislistedWithin
  rw [hChildren]
  simp only [bind, Except.bind] at hOwners ⊢
  rw [hOwners]
  cases hFind : stored.kind.children.find? fun child =>
      tree.owner? child ≠ some id with
  | some child =>
      refine ⟨some child, rfl, id, Relation.ReflTransGen.refl,
        (hLists child).mpr (List.mem_of_find?_eq_some hFind), ?_⟩
      simpa using List.find?_some hFind
  | none =>
      have hLater : ∀ child ∈ stored.kind.children.reverse,
          tree.Lists id child := fun child hMem =>
        (hLists child).mpr (List.mem_reverse.mp hMem)
      rcases findSomeM?_eq_ok fun child hMem =>
        hEach child (hLater child hMem) with
        ⟨answer, hSearch, hMeans⟩
      refine ⟨answer, hSearch, ?_⟩
      cases answer with
      | none =>
          intro owner child hBelow hListed
          rcases Relation.ReflTransGen.cases_head hBelow with
            rfl | ⟨first, hFirst, hRest⟩
          · simpa using List.find?_eq_none.mp hFind child
              ((hLists child).mp hListed)
          · exact hMeans first
              (List.mem_reverse.mpr ((hLists first).mp hFirst))
              owner child hRest hListed
      | some found =>
          rcases hMeans with
            ⟨first, hMem, owner, hBelow, hListed, hOther⟩
          exact ⟨owner, Relation.ReflTransGen.head
            (hLater first hMem) hBelow, hListed, hOther⟩

/-
  Where slots lead to nodes that are there and never lead back,
  the check answers, and its answer is right.
-/
theorem findMislisted_finds
    (hPresent : ∀ n, tree.Below root n → (tree.get? n).isSome)
    (hAcyclic : ∀ n, tree.Below root n →
      ¬ Relation.TransGen tree.Lists n n) :
    ∃ answer,
      tree.findMislisted root = .ok answer ∧
        tree.Finds root answer := by
  apply induction_below
    (P := fun depth id =>
      ∃ answer,
        tree.findMislistedWithin depth id = .ok answer ∧
          tree.Finds id answer)
    hAcyclic
  intro depth id hBelow hEach
  exact finds_step (fun n hUnder =>
    hPresent n (hBelow.trans hUnder)) hEach

/- A tree passes the check if nothing is found. -/
theorem validate_eq_ok_iff
    {answer : Option NodeId}
    (hFound : tree.findMislisted root = .ok answer) :
    tree.validate root = .ok () ↔ answer = none := by
  unfold Tree.validate
  rw [hFound]
  cases answer with
  | none => exact iff_of_true rfl rfl
  | some child =>
      simp only [bind, Except.bind]
      cases tree.node child <;> simp [throw, throwThe,
        MonadExceptOf.throw]

/- The check of owners passes on a well-formed tree. -/
theorem WellFormed.validate (hFormed : tree.WellFormed root) :
    tree.validate root = .ok () := by
  rcases findMislisted_finds hFormed.present hFormed.acyclic
    with ⟨answer, hFound, hMeans⟩
  rw [validate_eq_ok_iff hFound]
  cases answer with
  | none => rfl
  | some child =>
      rcases hMeans with ⟨owner, hBelow, hLists, hOther⟩
      exact absurd (hFormed.owned owner child hBelow hLists)
        hOther

------------------------------------------------------------
-- One Slot For Each Node
------------------------------------------------------------

/- No node below a root has something in two of its slots. -/
def ListsOnce (tree : Tree) (root : NodeId) : Prop :=
  ∀ owner child slot slot',
    tree.Below root owner →
      tree.Occupies owner slot child →
        tree.Occupies owner slot' child →
          slot = slot'

/-
  What is in a slot below a root is owned by the node whose
  slot it is, and is in no other slot below the root.
-/
def OwnedInOneSlot (tree : Tree) (root : NodeId) : Prop :=
  ∀ owner slot child,
    tree.Below root owner →
      tree.Occupies owner slot child →
        tree.owner? child = some owner ∧
          ∀ owner' slot',
            tree.Below root owner' →
              tree.Occupies owner' slot' child →
                owner' = owner ∧ slot' = slot

/- Where nodes list nothing twice, owners tell apart slots. -/
theorem ownedInOneSlot_iff
    (hOnce : tree.ListsOnce root) :
    tree.OwnedInOneSlot root ↔ tree.Finds root none := by
  constructor
  · rintro hOwned owner child hBelow ⟨slot, hSlot⟩
    exact (hOwned owner slot child hBelow hSlot).1
  · intro hOwned owner slot child hBelow hSlot
    have hOwner := hOwned owner child hBelow ⟨slot, hSlot⟩
    refine ⟨hOwner, ?_⟩
    intro owner' slot' hBelow' hSlot'
    have hOwner' := hOwned owner' child hBelow' ⟨slot', hSlot'⟩
    rw [hOwner, Option.some.injEq] at hOwner'
    subst hOwner'
    exact ⟨rfl, hOnce _ _ _ _ hBelow hSlot' hSlot⟩

/- A tree with one slot for each node is well formed. -/
theorem OwnedInOneSlot.wellFormed
    (hOwned : tree.OwnedInOneSlot root)
    (hPresent : ∀ n, tree.Below root n → (tree.get? n).isSome)
    (hAcyclic : ∀ n, tree.Below root n →
      ¬ Relation.TransGen tree.Lists n n) :
    tree.WellFormed root where
  present := hPresent
  acyclic := hAcyclic
  owned := by
    rintro owner child hBelow ⟨slot, hSlot⟩
    exact (hOwned owner slot child hBelow hSlot).1
  once := by
    intro owner owner' slot slot' child hBelow hBelow' hSlot
      hSlot'
    exact (hOwned owner' slot' child hBelow' hSlot').2
      owner slot hBelow hSlot

end Tree

------------------------------------------------------------
-- Walks
------------------------------------------------------------

/- The two times at which a visitor is asked about a node. -/
inductive Visit
  | enter (id : NodeId)
  | leave (id : NodeId)
  deriving DecidableEq, Repr

/-
  A visitor that goes everywhere and changes no tree. It
  remembers what it likes of each visit.
-/
def onlooker
    {μ : Type}
    (remember : μ → Visit → μ) : Visitor (StateT μ TreeM) where
  enter id _ := do
    modify (remember · (.enter id))
    return .children
  leave id _ := modify (remember · (.leave id))

/- An onlooker as a watcher. -/
def Watcher.onlooker
    {μ : Type}
    (remember : μ → Visit → μ) : Watcher μ where
  enter _ id _ memory := (true, remember memory (.enter id))
  leave _ id _ memory := remember memory (.leave id)

namespace Placed

mutual

/- The visits of a walk, a node around what is below it. -/
def visits : Placed → List Visit
  | node id _ children =>
    .enter id :: visitsAll children ++ [.leave id]

/- The visits of walks of some subtrees, one after the other. -/
def visitsAll : List Placed → List Visit
  | [] => []
  | first :: rest => first.visits ++ visitsAll rest

end

@[simp] theorem visits_node
    (id : NodeId) (label : Label) (children : List Placed) :
    (node id label children).visits =
      .enter id :: visitsAll children ++ [.leave id] := by
  rw [visits]

@[simp] theorem visitsAll_nil : visitsAll [] = [] := by
  rw [visitsAll]

@[simp] theorem visitsAll_cons
    (first : Placed) (rest : List Placed) :
    visitsAll (first :: rest) =
      first.visits ++ visitsAll rest := by
  rw [visitsAll]

/- Each place is entered and left as often as it is there. -/
theorem count_visits
    (placed : Placed)
    (visit : Visit) :
    placed.visits.count visit =
      (placed.ids.map Visit.enter ++
        placed.ids.map Visit.leave).count visit := by
  induction placed with
  | node id label children ih =>
      have hAll : ∀ trees, trees ⊆ children →
          (visitsAll trees).count visit =
            ((idsAll trees).map Visit.enter ++
              (idsAll trees).map Visit.leave).count visit := by
        intro trees hSubset
        induction trees with
        | nil => simp
        | cons first trees ihTrees =>
            have hFirst := ih first (hSubset List.mem_cons_self)
            have hRest := ihTrees fun other hOther =>
              hSubset (List.mem_cons_of_mem _ hOther)
            simp only [List.count_append] at hFirst hRest
            simp only [visitsAll_cons, idsAll_cons,
              List.map_append, List.count_append]
            omega
      have hChildren := hAll children (List.Subset.refl _)
      simp only [List.count_append] at hChildren
      simp only [visits_node, ids_node, List.map_cons,
        List.count_append, List.count_cons, List.count_nil,
        List.cons_append]
      omega

/- Where no place occurs twice, no visit does. -/
theorem nodup_visits
    {placed : Placed}
    (hNodup : placed.ids.Nodup) :
    placed.visits.Nodup := by
  have hPerm : placed.visits.Perm
      (placed.ids.map Visit.enter ++
        placed.ids.map Visit.leave) :=
    List.perm_iff_count.mpr placed.count_visits
  rw [hPerm.nodup_iff, List.nodup_append]
  refine ⟨?_, ?_, ?_⟩
  · exact hNodup.map fun _ _ hEq => Visit.enter.inj hEq
  · exact hNodup.map fun _ _ hEq => Visit.leave.inj hEq
  · rintro _ hEnter _ hLeave rfl
    rcases List.mem_map.mp hEnter with ⟨n, _, rfl⟩
    rcases List.mem_map.mp hLeave with ⟨m, _, hEq⟩
    cases hEq

theorem mem_visits_iff
    {placed : Placed}
    {n : NodeId} :
    (Visit.enter n ∈ placed.visits ↔ n ∈ placed.ids) ∧
      (Visit.leave n ∈ placed.visits ↔ n ∈ placed.ids) := by
  have hPerm : placed.visits.Perm
      (placed.ids.map Visit.enter ++
        placed.ids.map Visit.leave) :=
    List.perm_iff_count.mpr placed.count_visits
  simp [hPerm.mem_iff]

end Placed

namespace Tree

variable {tree : Tree}
variable {root : NodeId}

/- An onlooker remembers the visits of a tour in order. -/
private theorem tour_onlooker
    {μ : Type}
    (tree : Tree)
    (remember : μ → Visit → μ)
    (placed : Placed)
    (memory : μ) :
    (Watcher.onlooker remember).tour tree placed memory =
      placed.visits.foldl remember memory := by
  induction placed generalizing memory with
  | node id label children ih =>
      have hAll : ∀ trees, trees ⊆ children → ∀ memory,
          (Watcher.onlooker remember).tourAll tree trees memory =
            (Placed.visitsAll trees).foldl remember memory := by
        intro trees hSubset
        induction trees with
        | nil => simp
        | cons first trees ihTrees =>
            intro memory
            rw [Watcher.tourAll_cons,
              ih first (hSubset List.mem_cons_self),
              ihTrees fun other hOther =>
                hSubset (List.mem_cons_of_mem _ hOther),
              Placed.visitsAll_cons, List.foldl_append]
      rw [Watcher.tour_node, Placed.visits_node,
        List.foldl_append, List.foldl_cons]
      simp only [Watcher.onlooker, if_true]
      exact congrArg (remember · (.leave id))
        (hAll children (List.Subset.refl _) _)

/- A walk of a held tree comes by its places in order. -/
theorem Holds.run_walkWithin
    {μ : Type}
    {placed : Placed}
    (hHolds : tree.Holds placed)
    (remember : μ → Visit → μ)
    (memory : μ)
    (depth : Nat)
    (hDepth : placed.ids.length ≤ depth) :
    (onlooker remember).walkWithin depth placed.id memory tree =
      .ok ((), placed.visits.foldl remember memory) tree := by
  rw [← tour_onlooker tree]
  exact hHolds.run_watcher (Watcher.onlooker remember) memory
    depth (Nat.le_trans placed.height_le_length_ids hDepth)

/-
  In a tree with one slot for each node below a root, a walk
  enters and leaves each of these nodes once, and no others.
-/
theorem OwnedInOneSlot.exists_visits
    (hOwned : tree.OwnedInOneSlot root)
    (hPresent : ∀ n, tree.Below root n → (tree.get? n).isSome)
    (hAcyclic : ∀ n, tree.Below root n →
      ¬ Relation.TransGen tree.Lists n n) :
    ∃ visits : List Visit,
      visits.Nodup ∧
        (∀ n,
          (.enter n ∈ visits ↔ tree.Below root n) ∧
            (.leave n ∈ visits ↔ tree.Below root n)) ∧
        ∀ (μ : Type) (remember : μ → Visit → μ) (memory : μ),
          (onlooker remember).walk root memory tree =
            .ok ((), visits.foldl remember memory) tree := by
  have hFormed := hOwned.wellFormed hPresent hAcyclic
  rcases hFormed.exists_placed with
    ⟨placed, rfl, hHolds, hNodup⟩
  refine ⟨placed.visits, Placed.nodup_visits hNodup, ?_, ?_⟩
  · intro n
    rw [hHolds.below_iff]
    exact Placed.mem_visits_iff
  · intro μ remember memory
    have hLength := hHolds.length_ids_le hNodup
    exact hHolds.run_walkWithin remember memory (tree.size + 1)
      (by omega)

------------------------------------------------------------
-- Validation
------------------------------------------------------------

/- What is reached from a node of a linked tree is there. -/
theorem Linked.present
    {n : NodeId}
    (hLinked : tree.Linked)
    (hRoot : root.raw < tree.size)
    (hBelow : tree.Below root n) :
    (tree.get? n).isSome := by
  have hBound : n.raw < tree.size := by
    cases hBelow with
    | refl => exact hRoot
    | tail _ hLists =>
        rcases hLists with ⟨slot, stored, hAt, hSlot⟩
        exact hLinked.bounded _ stored hAt n
          (List.mem_of_getElem? hSlot)
  rcases exists_get? hBound with ⟨stored, hAt⟩
  rw [hAt]
  rfl

/-
  In every tree that was built and worked on, the check of
  owners comes to an end below a root from which slots lead to
  no cycle. It passes exactly when all nodes below the root own
  what they list, and finds nodes only that are listed by a
  node that does not own them.

  So if no node lists another twice, it passes exactly when
  each listed node is in one slot, that of its owner, and a
  walk then comes by each node once. Without the condition it
  passes more trees, see below.
-/
theorem validation_finds_what_is_mislisted
    (hWorked : Worked {} tree)
    (hRoot : root.raw < tree.size)
    (hAcyclic : ∀ n, tree.Below root n →
      ¬ Relation.TransGen tree.Lists n n) :
    ∃ answer,
      tree.findMislisted root = .ok answer ∧
        (tree.validate root = .ok () ↔ answer = none) ∧
        (answer = none ↔
          ∀ owner child, tree.Below root owner →
            tree.Lists owner child →
              tree.owner? child = some owner) ∧
        (∀ child, answer = some child →
          ∃ owner, tree.Below root owner ∧
            tree.Lists owner child ∧
              tree.owner? child ≠ some owner) ∧
        (tree.ListsOnce root →
          (answer = none ↔ tree.OwnedInOneSlot root) ∧
            (tree.validate root = .ok () →
              ∃ visits : List Visit,
                visits.Nodup ∧
                  (∀ n,
                    (.enter n ∈ visits ↔ tree.Below root n) ∧
                      (.leave n ∈ visits ↔
                        tree.Below root n)) ∧
                  ∀ (μ : Type) (remember : μ → Visit → μ)
                    (memory : μ),
                    (onlooker remember).walk root memory tree =
                      .ok ((), visits.foldl remember memory)
                        tree)) := by
  have hLinked := (hWorked.reached .empty).linked
  have hPresent : ∀ n, tree.Below root n →
      (tree.get? n).isSome :=
    fun n hBelow => hLinked.present hRoot hBelow
  rcases findMislisted_finds hPresent hAcyclic with
    ⟨answer, hFound, hMeans⟩
  have hPasses := validate_eq_ok_iff hFound
  have hNone : answer = none ↔ tree.Finds root none := by
    constructor
    · rintro rfl
      exact hMeans
    · intro hOwned
      cases answer with
      | none => rfl
      | some child =>
          rcases hMeans with ⟨owner, hBelow, hLists, hOther⟩
          exact absurd (hOwned owner child hBelow hLists) hOther
  refine ⟨answer, hFound, hPasses, hNone, ?_, ?_⟩
  · rintro child rfl
    exact hMeans
  · intro hOnce
    have hOwned := hNone.trans (ownedInOneSlot_iff hOnce).symm
    refine ⟨hOwned, ?_⟩
    intro hValid
    exact (hOwned.mp (hPasses.mp hValid)).exists_visits hPresent
      hAcyclic

/- Slots of which no node has two for one child. -/
private theorem listsOnce_of_nodup
    (hNodup : ∀ stored ∈ tree.nodes,
      stored.kind.children.Nodup) :
    tree.ListsOnce root := by
  rintro owner child slot slot' _ ⟨stored, hAt, hSlot⟩
    ⟨stored', hAt', hSlot'⟩
  rw [hAt] at hAt'
  cases hAt'
  rcases List.getElem?_eq_some_iff.mp hSlot with ⟨hLt, _⟩
  have hOnce := hNodup stored (Array.mem_of_getElem? hAt)
  exact (List.getElem?_inj hLt hOnce).mp
    (hSlot.trans hSlot'.symm)

/- An initializer of two names. -/
def paired : Tree := ⟨#[
  { kind := .simpleName ⟨1⟩
    parent := some ⟨2⟩ },
  { kind := .simpleName ⟨2⟩
    parent := some ⟨2⟩ },
  { kind := .arrayInitializer [⟨0⟩, ⟨1⟩] }]⟩

theorem worked_paired : Worked {} paired := by
  have hFirst : Worked {} _ :=
    (Worked.same {}).edit
      (.alloc (.simpleName ⟨1⟩) none none) rfl
  have hSecond : Worked {} _ :=
    hFirst.edit (.alloc (.simpleName ⟨2⟩) none none) rfl
  exact hSecond.edit
    (.alloc (.arrayInitializer [⟨0⟩, ⟨1⟩]) none none) rfl

/- The initializer passes, and a walk enters both names. -/
theorem validation_finds_what_is_mislisted_paired :
    Worked {} paired ∧
      paired.validate ⟨2⟩ = .ok () ∧
      paired.OwnedInOneSlot ⟨2⟩ ∧
      ∃ visits : List Visit,
        visits.Nodup ∧
          .enter ⟨0⟩ ∈ visits ∧ .enter ⟨1⟩ ∈ visits ∧
          ∀ (μ : Type) (remember : μ → Visit → μ) (memory : μ),
            (onlooker remember).walk ⟨2⟩ memory paired =
              .ok ((), visits.foldl remember memory) paired := by
  have hValid : paired.validate ⟨2⟩ = .ok () := rfl
  rcases validation_finds_what_is_mislisted worked_paired
      (by decide : NodeId.raw ⟨2⟩ < paired.size)
      (fun n _ => ListsOlder.not_cyclic (by decide) n) with
    ⟨answer, _, hPasses, _, _, hSlots⟩
  rcases hSlots (listsOnce_of_nodup (by decide)) with
    ⟨hOwned, hWalk⟩
  rcases hWalk hValid with ⟨visits, hNodup, hMem, hRun⟩
  have hLists : ∀ slot child, paired.Occupies ⟨2⟩ slot child →
      .enter child ∈ visits := fun slot child hSlot =>
    (hMem child).1.mpr (Relation.ReflTransGen.single
      ⟨slot, hSlot⟩)
  exact ⟨worked_paired, hValid,
    hOwned.mp (hPasses.mp hValid), visits, hNodup,
    hLists 0 ⟨0⟩ ⟨_, rfl, rfl⟩, hLists 1 ⟨1⟩ ⟨_, rfl, rfl⟩,
    hRun⟩

/-
  The initializer after its second name was put into the place
  of the first without being detached: it has the name twice.
-/
def spliced : Tree := ⟨#[
  { kind := .simpleName ⟨1⟩ },
  { kind := .simpleName ⟨2⟩
    parent := some ⟨2⟩ },
  { kind := .arrayInitializer [⟨1⟩, ⟨1⟩] }]⟩

theorem worked_spliced : Worked {} spliced :=
  worked_paired.edit (.replaceWith ⟨0⟩ ⟨1⟩) rfl

/- The check passes it, and a walk comes by the name twice. -/
theorem validation_passes_spliced :
    Worked {} spliced ∧
      (∀ n, spliced.Below ⟨2⟩ n →
        ¬ Relation.TransGen spliced.Lists n n) ∧
      spliced.findMislisted ⟨2⟩ = .ok none ∧
      spliced.validate ⟨2⟩ = .ok () ∧
      ¬ spliced.OwnedInOneSlot ⟨2⟩ ∧
      (onlooker fun visits visit => visits ++ [visit]).walk ⟨2⟩
          [] spliced =
        .ok ((), [.enter ⟨2⟩, .enter ⟨1⟩, .leave ⟨1⟩,
          .enter ⟨1⟩, .leave ⟨1⟩, .leave ⟨2⟩]) spliced := by
  refine ⟨worked_spliced, ?_, rfl, rfl, ?_, rfl⟩
  · exact fun n _ => ListsOlder.not_cyclic (by decide) n
  · intro hOwned
    have hBelow : spliced.Below ⟨2⟩ ⟨2⟩ :=
      Relation.ReflTransGen.refl
    rcases hOwned ⟨2⟩ 0 ⟨1⟩ hBelow ⟨_, rfl, rfl⟩ with
      ⟨_, hOnce⟩
    exact absurd (hOnce ⟨2⟩ 1 hBelow ⟨_, rfl, rfl⟩).2
      (by decide)

end Tree

end Lowering
