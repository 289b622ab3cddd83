import Lowering.Proofs.Arrays.Tracks
import Lowering.Proofs.Arrays.Walk

/-
  This file tells what a run reaches, and what it wants.

  A run reaches what is below its root. Where an element is
  stored, it does not reach the access to the element, and it
  reaches the value as it is when asked for a retained result.
  The methods that a run records are wanted by what it reaches.

  Key definitions include:
    * `Arrays.Reaches`
    * `Arrays.WantedIn`
    * `Arrays.EvolvesWithin`

  Main results:
    * `Arrays.evolvesWithin`
    * `Arrays.evolved_lower`
-/

namespace Lowering

namespace Arrays

open Symbols

------------------------------------------------------------
-- Reached Views
------------------------------------------------------------

/- What a walk over a view reaches. -/
inductive Reaches (symbols : Symbols) : View → View → Prop
  | here (view : View) : Reaches symbols view view
  | child
      {label : Label}
      {children : List View}
      {child below : View}
      (none_stored : stored? symbols label children =
        some none)
      (listed : child ∈ children)
      (reaches : Reaches symbols child below) :
      Reaches symbols (.node label children) below
  /- The operands of a store, of which the value is the last. -/
  | operand
      {label outer : Label}
      {operands : List View}
      {value operand below : View}
      {store : Store}
      (stored : stored? symbols label
        [.node outer operands, value] = some (some store))
      (listed : operand ∈ operands ++ [value.retain])
      (reaches : Reaches symbols operand below) :
      Reaches symbols
        (.node label [.node outer operands, value]) below

/- What is not stored is reached with its children. -/
theorem Reaches.of_kept
    {symbols : Symbols}
    {label : Label}
    {children : List View}
    {below : View}
    (hNone : stored? symbols label children = some none)
    (hReaches : Reaches symbols (.node label children)
      below) :
    below = .node label children ∨
      ∃ child ∈ children, Reaches symbols child below := by
  cases hReaches with
  | here => exact Or.inl rfl
  | child _ hListed hReaches =>
      exact Or.inr ⟨_, hListed, hReaches⟩
  | operand hStored _ _ =>
      rw [hNone] at hStored
      exact absurd hStored (by simp)

theorem TakenOver.mono
    {before after : Symbols}
    {old call : View}
    (hGrown : before.Grown after)
    (hTaken : TakenOver before old call) :
    TakenOver after old call := by
  cases hTaken with
  | call function ty hStored =>
      exact .call function ty
        (stable_stored? _ _ _ _ _ hGrown hStored)

/- A call that takes over reaches what the assignment does. -/
theorem TakenOver.reaches
    {symbols : Symbols}
    {old call below : View}
    (hTaken : TakenOver symbols old call)
    (hReaches : Reaches symbols call below) :
    below = call ∨ Reaches symbols old below := by
  cases hTaken with
  | call function ty hStored =>
      have hNone (operands : List View) : stored? symbols
          ⟨.functionInvocation function (places operands) false,
            some ty, none⟩ operands = some none :=
        stored?_of_tag (by simp [NodeKind.tag]) _
      apply (hReaches.of_kept (hNone _)).imp_right
      rintro ⟨operand, hListed, hBelow⟩
      exact .operand hStored hListed hBelow

theorem TakenOver.wants_nothing
    {symbols : Symbols}
    {options : Options}
    {old call : View}
    (hTaken : TakenOver symbols old call) :
    wants? options call.label = none := by
  cases hTaken
  rfl

/- Something is wanted by what is reached from a view. -/
def WantedIn
    (options : Options)
    (symbols : Symbols)
    (view : View)
    (wanted : Wanted) : Prop :=
  ∃ below,
    Reaches symbols view below ∧
      wants? options below.label = some wanted

------------------------------------------------------------
-- Walks
------------------------------------------------------------

section Walks

variable (table : BindingTable)
variable (options : Options)

/- To a depth, a walk asks for what it reaches wants. -/
def EvolvesWithin (depth : Nat) : Prop :=
  ∀ (before : Workspace) (placed : Placed) (after : Workspace),
    before.At placed →
      placed.ids.length ≤ depth →
        (visitor table options).walkWithin depth placed.id
            before = .ok () after →
          ∀ last,
            after.symbols.Grown last →
              Evolved table (WantedIn options last placed.view)
                before.symbols after.symbols

variable {table} {options}
variable {before after : Workspace}
variable {id : NodeId}
variable {label : Label}
variable {depth : Nat}
variable {last : Symbols}

/- A child that was walked leaves its owner where it was. -/
private theorem stays_of_child
    {front rest : List Placed}
    {child : Placed}
    (hAt : before.At (.node id label (front ++ child :: rest)))
    (hDepth : child.ids.length ≤ depth)
    (hRun : (visitor table options).walkWithin depth child.id
      before = .ok () after) :
    ∃ new,
      after.At (.node id label ((front ++ [new]) ++ rest)) := by
  have hChildAt := hAt.child (by simp :
    child ∈ front ++ child :: rest)
  have hWalk := walksWithin table options False depth before
    child _ hChildAt hDepth False.elim
    hAt.standing.isAssigned_child
  unfold Walks at hWalk
  rw [hRun] at hWalk
  rcases hWalk with ⟨new, hLowered, _⟩
  have hStays := (Lowered.ofChild hAt hLowered).stays hAt
  rw [List.append_cons] at hStays
  exact ⟨new, hStays⟩

private theorem evolved_children
    (hEvolves : EvolvesWithin table options depth)
    (rest front : List Placed)
    (hAt : before.At (.node id label (front ++ rest)))
    (hDepth : ∀ child ∈ rest, child.ids.length ≤ depth)
    (hRun : ((rest.map (·.id)).forM
      ((visitor table options).walkWithin depth) :
        LowerM Unit) before = .ok () after)
    (hGrown : after.symbols.Grown last) :
    Evolved table
      (fun wanted => ∃ child ∈ rest,
        WantedIn options last child.view wanted)
      before.symbols after.symbols := by
  induction rest generalizing front before with
  | nil =>
      cases hRun
      exact (Evolved.isHistory _ _).refl _
  | cons child rest ih =>
      rcases run_bind_eq_ok hRun with
        ⟨_, middle, hFirst, hRest⟩
      have hChildDepth := hDepth child (by simp)
      rcases stays_of_child hAt hChildDepth hFirst with
        ⟨new, hStays⟩
      have hOthers := ih (front ++ [new]) hStays
        (fun other hMem => hDepth other (by simp [hMem])) hRest
      have hChild := hEvolves before child middle
        (hAt.child (by simp)) hChildDepth hFirst last
        (hOthers.grown.trans hGrown)
      refine (Evolved.isHistory _ _).trans
        (hChild.mono ?_) (hOthers.mono ?_)
      · intro wanted hWanted
        exact ⟨child, by simp, hWanted⟩
      · rintro wanted ⟨other, hMem, hWanted⟩
        exact ⟨other, List.mem_cons_of_mem _ hMem, hWanted⟩

/- The children of a node are walked, and then the node. -/
private theorem evolved_through
    {start : Workspace}
    {children : List Placed}
    (hEvolves : EvolvesWithin table options depth)
    (hAt : start.At (.node id label children))
    (hDepth : (Placed.node id label children).ids.length ≤
      depth + 1)
    (hNone : stored? start.symbols label
      (children.map (·.view)) = some none)
    (hRun : (do
        let below ← Workspace.inTree (·.children id)
        below.forM ((visitor table options).walkWithin depth)
        leave table options id label.shape.tag : LowerM Unit)
          start = .ok () after)
    (hGrown : after.symbols.Grown last) :
    Evolved table
      (WantedIn options last (Placed.node id label children).view)
      start.symbols after.symbols := by
  have hHolds := hAt.standing.holds
  rw [run_bind_ok (run_inTree_ok hHolds.children)] at hRun
  rcases run_bind_eq_ok hRun with ⟨_, middle, hBelow, hLeave⟩
  rw [Placed.children_node] at hBelow
  have hChildDepth : ∀ child ∈ children,
      child.ids.length ≤ depth := by
    intro child hMem
    have hLength := Placed.length_ids_le_of_mem hMem
    rw [Placed.ids_node, List.length_cons] at hDepth
    omega
  have hWalks := walks_children
    (walksWithin table options False depth) children [] hAt
    hChildDepth False.elim
  rw [hBelow] at hWalks
  rcases hWalks with ⟨lowered, hBack, _, _⟩
  rw [List.nil_append, List.nil_append] at hBack
  have hThere := (hBack.stays hAt).standing
  have hLeft := (@tracks_leave table options id _ middle
    (Tree.Steady.keptAt id middle.tree)
    label.shape.tag).follows.run_ok hLeave hBack.ready
  have hLoop := evolved_children hEvolves children [] hAt
    hChildDepth hBelow (hLeft.grown.trans hGrown)
  have hNone' := stable_stored? _ _ _ _ _
    ((hLoop.grown.trans hLeft.grown).trans hGrown) hNone
  refine (Evolved.isHistory _ _).trans (hLoop.mono ?_)
    (hLeft.mono ?_)
  · rintro wanted ⟨child, hMem, below, hReaches, hWants⟩
    refine ⟨below, ?_, hWants⟩
    rw [Placed.view_node]
    exact .child hNone' (List.mem_map_of_mem hMem) hReaches
  · rintro wanted ⟨stored, hStored, hWants⟩
    refine ⟨_, .here _, ?_⟩
    rw [Placed.label_view, ← hWants,
      (hThere.holds.of_get? hStored).1]
    rfl

/- The call that stores is walked in place of the assignment. -/
private theorem evolved_stored
    {middle : Workspace}
    {old call : Placed}
    (hEvolves : EvolvesWithin table options depth)
    (hAt : before.At old)
    (hDepth : old.ids.length ≤ depth + 1)
    (hStored : Stored False table options before middle old
      call)
    (hEvolved : Evolved table (WantedIn options last old.view)
      before.symbols middle.symbols)
    (hRun : (visitor table options).walkWithin depth call.id
      middle = .ok () after)
    (hGrown : after.symbols.Grown last) :
    Evolved table (WantedIn options last old.view)
      before.symbols after.symbols := by
  have hFewer := hStored.fewer
  have hThere := hStored.lowered.stays hAt
  have hCall := hEvolves middle call after hThere (by omega)
    hRun last hGrown
  have hLast := hCall.grown.trans hGrown
  apply (Evolved.isHistory _ _).trans hEvolved
  apply hCall.mono
  rintro wanted ⟨below, hReaches, hWants⟩
  rcases (hStored.taken.mono hLast).reaches hReaches with
    rfl | hReaches
  · rw [hStored.taken.wants_nothing] at hWants
    exact absurd hWants (by simp)
  · exact ⟨below, hReaches, hWants⟩

/- What a walk reaches is wanted, by induction on the depth. -/
theorem evolvesWithin
    (table : BindingTable)
    (options : Options)
    (depth : Nat) :
    EvolvesWithin table options depth := by
  induction depth with
  | zero =>
      intro before placed after _ hDepth
      cases placed
      simp at hDepth
  | succ depth ih =>
      intro before placed after hAt hDepth hRun last hGrown
      rcases placed with ⟨id, label, children⟩
      have hEvolved {descent : Descent} {middle : Workspace}
          (hDown : enter table id label.shape.tag before =
            .ok descent middle) :=
        (@tracks_enter table id
          (WantedIn options last (Placed.node id label
            children).view) before
          label.shape.tag).follows.run_ok hDown hAt.ready
      cases wentOn_of_run hAt hRun with
      | through hDown _ hReady hNone hRest =>
          exact (Evolved.isHistory _ _).trans (hEvolved hDown)
            (evolved_through ih (hAt.withSymbols hReady) hDepth
              hNone hRest hGrown)
      | stored hDown hStored hCall _ =>
          exact evolved_stored ih hAt hDepth hStored
            (hEvolved hDown) hCall hGrown

/- All that a run records is wanted below its root. -/
theorem evolved_lower
    {placed : Placed}
    {result : NodeId}
    (hStanding : before.tree.Standing placed)
    (hReady : before.symbols.Ready)
    (hRun : lower table options placed.id before =
      .ok result after) :
    Evolved table (WantedIn options after.symbols placed.view)
      before.symbols after.symbols := by
  have hWhole : ((visitor table options).walkWithin
      ((visitor table options).reach before.tree.size)
      placed.id >>= fun _ => do return (← get).root :
        LowerM NodeId) { before with root := placed.id } =
          .ok result after := hRun
  rcases run_bind_eq_ok hWhole with ⟨_, later, hWalk, hLast⟩
  cases hLast
  exact evolvesWithin table options _ _ placed after
    (at_root hStanding hReady)
    (length_ids_le_reach table options hStanding) hWalk
    after.symbols (Grown.refl _)

end Walks

end Arrays

end Lowering
