import Lowering.Proofs.Tree.Steady
import Lowering.Proofs.Arrays.Hooks

/-
  This file proves that the walk of the pass does at each place
  what the lowering of views tells.

  On the way down, an assignment to an element may be replaced
  by a call that has one node less, and the call is lowered to
  what the assignment is lowered to. The children are then
  walked one after the other, each at its place among those
  that were lowered before and those that are still to come.

  Key definitions include:
    * `Arrays.TakenOver`
    * `Arrays.Stored`
    * `Arrays.Entered`
    * `Arrays.WalksWithin`
    * `Arrays.WentOn`

  Main results:
    * `Arrays.completes_enter`
    * `Arrays.walks_children`
    * `Arrays.walksWithin`
    * `Arrays.completes_lower`
-/

namespace Lowering

namespace Arrays

open Symbols
open Lowering.Tree (Building)

variable {safe : Prop}
variable {before : Workspace}
variable {id : NodeId}
variable {label : Label}
variable {children : List Placed}

------------------------------------------------------------
-- Storing
------------------------------------------------------------

/- An assignment is taken over by the call that stores. -/
inductive TakenOver (symbols : Symbols) : View → View → Prop
  | call
      {label outer : Label}
      {operands : List View}
      {value : View}
      {store : Store}
      (function : FunctionRef)
      (ty : TypeId)
      (stored : stored? symbols label
        [.node outer operands, value] = some (some store)) :
      TakenOver symbols
        (.node label [.node outer operands, value])
        (callView function ty (operands ++ [value.retain]))

/-
  A call stands in the place of an assignment: it has fewer
  nodes, and in all later symbols it is lowered to the same.
-/
structure Stored
    (safe : Prop)
    (table : BindingTable)
    (options : Options)
    (before after : Workspace)
    (old call : Placed) : Prop where
  assignment : old.label.shape.tag = .assignment
  lowered : Lowered before after old call
  /- The call has the type of the element. -/
  typed : ∃ store,
    stored? after.symbols old.label
        (old.children.map (·.view)) = some (some store) ∧
      call.label.ty = some store.component
  fresh : before.tree.size ≤ call.id.raw
  fewer : call.ids.length < old.ids.length
  taken : TakenOver after.symbols old.view call.view
  /- The operands keep their places, below the call. -/
  operands : ∃ target outer operands value,
    old.children = [.node target outer operands, value] ∧
      call.children = operands ++ [value.retain]
  /- What is not taken over looks as before. -/
  left : ∀ n ∈ old.ids, n ∉ call.ids →
    before.tree.SameAt after.tree n
  /- The access is left with its owner. -/
  owned : ∀ access, old.children.head? = some access →
    after.tree.owner? access.id = some old.id
  safe_view : safe → call.view.Safe after.cache
  same : ∀ symbols,
    after.symbols.Grown symbols →
      ∀ assigned consumed called,
        lower? symbols table options assigned consumed
            old.view =
          lower? symbols table options called false call.view

/- What a step on the way down has done. -/
inductive Entered
    (safe : Prop)
    (table : BindingTable)
    (options : Options)
    (before : Workspace)
    (old : Placed) : Descent → Workspace → Prop
  /- The tree is as it was. -/
  | children
      {symbols : Symbols}
      (grown : before.symbols.Grown symbols)
      (ready : symbols.Ready)
      (none_stored : stored? symbols old.label
        (old.children.map (·.view)) = some none) :
      Entered safe table options before old .children
        (before.withSymbols symbols)
  | stored
      {after : Workspace}
      {call : Placed}
      (stored : Stored safe table options before after old
        call) :
      Entered safe table options before old
        (.instead call.id) after

/- A choice of symbols before the step changes nothing else. -/
theorem Entered.ofSymbols
    {table : BindingTable}
    {options : Options}
    {after : Workspace}
    {symbols : Symbols}
    {old : Placed}
    {descent : Descent}
    (hGrown : before.symbols.Grown symbols)
    (hEntered : Entered safe table options
      (before.withSymbols symbols) old descent after) :
    Entered safe table options before old descent after := by
  cases hEntered with
  | children hLater hReady hNone =>
      exact .children (hGrown.trans hLater) hReady hNone
  | stored hStored =>
      exact .stored ⟨hStored.assignment,
        hStored.lowered.ofSymbols hGrown, hStored.typed,
        hStored.fresh, hStored.fewer, hStored.taken,
        hStored.operands, hStored.left, hStored.owned,
        hStored.safe_view, hStored.same⟩

section Storing

variable {outer : Label}
variable {target : NodeId}
variable {array index value : Placed}

/-
  The operands of an assignment to an element lie apart, and
  none of them is the assignment.
-/
private theorem operands_apart
    (hNodup : (Placed.node id label
      [.node target outer [array, index], value]).ids.Nodup) :
    (∀ n ∈ value.ids ++ array.ids ++ index.ids,
      n ∈ (Placed.node id label
        [.node target outer [array, index], value]).ids ∧
          n ≠ id) ∧
    target ∉ value.ids ++ array.ids ++ index.ids ∧
    (∀ n ∈ array.ids, n ∉ value.ids) ∧
    (∀ n ∈ index.ids, n ∉ value.ids ++ array.ids) := by
  simp only [Placed.ids_node, Placed.idsAll_cons,
    Placed.idsAll_nil, List.append_nil] at hNodup ⊢
  rw [List.nodup_cons, List.cons_append, List.nodup_cons,
    List.nodup_append, List.nodup_append] at hNodup
  rcases hNodup with
    ⟨hRoot, hTarget, ⟨_, _, hOperands⟩, _, hValue⟩
  refine ⟨?_, ?_, ?_, ?_⟩
  · intro n hMem
    have hBelow : n ∈
        target :: (array.ids ++ index.ids ++ value.ids) := by
      simp only [List.mem_append] at hMem
      simp only [List.mem_cons, List.mem_append]
      tauto
    refine ⟨List.mem_cons_of_mem _ hBelow, ?_⟩
    intro hEq
    rw [hEq] at hBelow
    exact hRoot hBelow
  · intro hIn
    apply hTarget
    simp only [List.mem_append] at hIn ⊢
    tauto
  · intro n hArray hIn
    exact hValue n (List.mem_append_left _ hArray) n hIn rfl
  · intro n hIndex hIn
    rcases List.mem_append.mp hIn with hIn | hIn
    · exact hValue n (List.mem_append_right _ hIndex) n hIn rfl
    · exact hOperands n hIn n hIndex rfl

/- The call that stores is safe to ask about. -/
private theorem safe_callView
    {cache : Cache}
    {function : FunctionRef}
    {ty : TypeId}
    {arguments : List View}
    (hLive : cache.Live ty)
    (hArguments : ∀ argument ∈ arguments,
      argument.Safe cache) :
    (callView function ty arguments).Safe cache := by
  refine .node ⟨?_, ?_⟩ hArguments
  · intro found hSome
    cases hSome
    exact hLive
  · intro identifier hName
    exact absurd hName (by nofun)

/- A call is built over the trees that were built last. -/
private theorem building_call
    {start now : Tree}
    {moved : List NodeId}
    {made : List Placed}
    (function : FunctionRef)
    (ty : TypeId)
    (hBuilding : Building start now moved ([] ++ made)) :
    ∃ after call,
      functionCall function ty (made.map (·.id)) now =
          .ok call.id after ∧
        call.view = callView function ty (made.map (·.view)) ∧
        call.children = made ∧
        start.size ≤ call.id.raw ∧
        Building start after moved [call] := by
  rcases hBuilding.alloc
      (.functionInvocation function (made.map (·.id)) false)
      (some ty) none rfl with
    ⟨after, id, hRun, hFresh, hAfter⟩
  refine ⟨after, .node id _ made, hRun, ?_, rfl, hFresh,
    hAfter⟩
  rw [Placed.view_node]
  simp [callView, places, NodeKind.shape]

/-
  The operands of an assignment to an element were moved below
  a new call, which was put in the place of the assignment.
-/
private structure Rehung
    (tree after : Tree)
    (function : FunctionRef)
    (component : TypeId)
    (old call : Placed)
    (target : NodeId)
    (operands : List Placed) : Prop where
  view : call.view =
    callView function component (operands.map (·.view))
  children : call.children = operands
  fresh : tree.size ≤ call.id.raw
  replaced : Tree.Replaced tree after old call
  left : ∀ n ∈ old.ids, n ∉ call.ids → tree.SameAt after n
  owned : after.owner? target = some old.id

/-
  What a call was built of is not what remains of the old tree:
  the assignment and the access are where they were.
-/
private theorem rehung_of_building
    {tree now after : Tree}
    {function : FunctionRef}
    {component : TypeId}
    {call : Placed}
    (hStanding : tree.Standing (.node id label
      [.node target outer [array, index], value]))
    (hBuilding : Building tree now
      (value.ids ++ array.ids ++ index.ids) [call])
    (hView : call.view = callView function component
      ([array, index, value.retain].map (·.view)))
    (hChildren : call.children = [array, index, value.retain])
    (hFresh : tree.size ≤ call.id.raw)
    (hReplace : Tree.replaceWith id call.id now = .ok () after)
    (hReplaced : Tree.Replaced tree after
      (.node id label [.node target outer [array, index], value])
      call) :
    Rehung tree after function component
      (.node id label [.node target outer [array, index], value])
      call target [array, index, value.retain] := by
  rcases operands_apart hStanding.nodup with
    ⟨hMoved, hTargetApart, _, _⟩
  have hOut {m : NodeId}
      (hIn : m ∈ (Placed.node id label
        [.node target outer [array, index], value]).ids)
      (hNot : m ∉ value.ids ++ array.ids ++ index.ids) :
      m ∉ call.ids := by
    intro hMade
    rcases hBuilding.origin m (by simpa using hMade) with
      hTaken | hNew
    · exact hNot hTaken
    · have hLt := hStanding.holds.lt_size m hIn
      omega
  have hKept {m : NodeId}
      (hIn : m ∈ (Placed.node id label
        [.node target outer [array, index], value]).ids)
      (hNot : m ∉ call.ids) :
      now.get? m = tree.get? m :=
    hBuilding.kept m (hStanding.holds.lt_size m hIn)
      (by simpa using hNot)
  have hRootOwner : now.owner? id = tree.owner? id := by
    rw [Tree.owner?, hKept (by simp)
      (hOut (by simp) fun hIn => (hMoved id hIn).2 rfl)]
    rfl
  have hSteady :=
    (Tree.Steady.keptAt id now).replace call.id _ _ _
      hReplace (Tree.Steady.refl id now)
  refine ⟨hView, hChildren, hFresh, hReplaced, ?_, ?_⟩
  · intro n hOld hNot
    refine (Tree.sameAt_of_get?_eq (hKept hOld hNot)).trans
      (hSteady.same n ?_)
    intro hOwner
    rw [hRootOwner] at hOwner
    exact hStanding.outside n hOwner hOld
  · have hIn : target ∈ (Placed.node id label
        [.node target outer [array, index], value]).ids := by
      simp
    have hTarget : target ∉ call.ids := hOut hIn hTargetApart
    have hSame : after.get? target = now.get? target := by
      apply Tree.get?_of_run_replaceWith hReplace
      · rintro rfl
        exact (List.nodup_cons.mp hStanding.nodup).1 (by simp)
      · rintro rfl
        exact hTarget call.id_mem_ids
      · intro hOwner
        exact hStanding.outside target
          (hRootOwner.symm.trans hOwner) hIn
    have hOwned : tree.owner? target = some id :=
      hStanding.holds.owner?_child List.mem_cons_self
    show (after.get? target).bind (·.parent) = some id
    rw [hSame, hKept hIn hTarget]
    exact hOwned

/-
  The value is taken and asked for a retained result. Whatever
  function is then chosen, the other operands can be taken, and
  a call of it can be put in the place of the assignment.
-/
private theorem run_rehang
    {tree : Tree}
    (hStanding : tree.Standing (.node id label
      [.node target outer [array, index], value])) :
    ∃ freed asked,
      Tree.take value.id tree = .ok value.id freed ∧
        Tree.retainResult value.id freed =
          .ok (if value.label.shape.canRetain then
            some value.id else none) asked ∧
        ∀ function component, ∃ taken both built after call,
          Tree.take array.id asked = .ok array.id taken ∧
            Tree.take index.id taken = .ok index.id both ∧
            functionCall function component
                [array.id, index.id, value.id] both =
              .ok call.id built ∧
            Tree.replaceWith id call.id built = .ok () after ∧
            Rehung tree after function component
              (.node id label
                [.node target outer [array, index], value])
              call target [array, index, value.retain] := by
  have hTarget : tree.Standing
      (.node target outer [array, index]) :=
    hStanding.child (by simp)
  have hValue : tree.Standing value :=
    hStanding.child (by simp)
  have hArray : tree.Standing array :=
    hTarget.child (by simp)
  have hIndex : tree.Standing index :=
    hTarget.child (by simp)
  rcases operands_apart hStanding.nodup with
    ⟨hMoved, _, hArrayApart, hIndexApart⟩
  rcases (Building.start tree).take hValue.holds
      hValue.nodup (by simp) with
    ⟨freed, hTakeValue, hFreed⟩
  rcases hFreed.retainLast with ⟨asked, hRetain, hAsked⟩
  refine ⟨freed, asked, hTakeValue, hRetain, ?_⟩
  intro function component
  rcases hAsked.take hArray.holds hArray.nodup
      (by simpa using hArrayApart) with
    ⟨taken, hTakeArray, hTaken⟩
  rcases hTaken.take hIndex.holds hIndex.nodup
      (by simpa using hIndexApart) with
    ⟨both, hTakeIndex, hBoth⟩
  have hOperands : Building tree both
      (value.ids ++ array.ids ++ index.ids)
      ([] ++ [array, index, value.retain]) := by
    refine hBoth.perm ?_
    show ([value.retain] ++ [array, index]).Perm _
    exact List.perm_append_comm
  rcases building_call function component hOperands with
    ⟨built, call, hCall, hView, hChildren, hFresh, hBuilt⟩
  simp only [List.map_cons, List.map_nil, Placed.id_retain]
    at hCall
  rcases hBuilt.replace hStanding hMoved hFresh with
    ⟨after, hReplace, hReplaced⟩
  exact ⟨taken, both, built, after, call, hTakeArray,
    hTakeIndex, hCall, hReplace,
    rehung_of_building hStanding hBuilt hView hChildren hFresh
      hReplace hReplaced⟩

/- The call over the operands is as safe as the assignment. -/
private theorem safe_rehung
    {cache : Cache}
    (function : FunctionRef)
    {component : TypeId}
    (hSafe : (Placed.node id label
      [.node target outer [array, index], value]).view.Safe
        cache)
    (hTy : outer.ty = some component) :
    (callView function component
      [array.view, index.view, value.view.retain]).Safe
        cache := by
  simp only [Placed.view_node, List.map_cons, List.map_nil]
    at hSafe
  have hAccess := hSafe.child (by simp :
    View.node outer [array.view, index.view] ∈
      [.node outer [array.view, index.view], value.view])
  have hValue : value.view.Safe cache := hSafe.child (by simp)
  apply safe_callView (hAccess.label.live component hTy)
  intro argument hMem
  simp only [List.mem_cons, List.not_mem_nil, or_false] at hMem
  rcases hMem with rfl | rfl | rfl
  · exact hAccess.child (by simp)
  · exact hAccess.child (by simp)
  · exact hValue.retain

/-
  An assignment that is known to store an element is replaced
  by a call that takes its operands.
-/
private theorem completes_store
    (table : BindingTable)
    (options : Options)
    (hAt : before.At (.node id label
      [.node target outer [array, index], value]))
    (hShape : label.shape.tag = .assignment)
    (hOuter : outer.shape = .arrayAccess () ())
    {component : TypeId}
    (hStored : stored? before.symbols label
      [.node outer [array.view, index.view], value.view] =
        some (some
          ⟨component, value.label.shape.canRetain⟩))
    (hTy : outer.ty = some component)
    (hSafe : safe → (Placed.node id label
      [.node target outer [array, index], value]).view.Safe
        before.cache) :
    Completes safe
      ((do
        let value ← Tree.take value.id
        let retained ← Tree.retainResult value
        let function ← storeFunction table retained.isSome
        let array ← Tree.take array.id
        let index ← Tree.take index.id
        let call ← functionCall function component
          [array, index, value]
        Workspace.replace id call
        return .instead call : LowerM Descent) before)
      (Entered safe table options before
        (.node id label
          [.node target outer [array, index], value])) := by
  rcases run_rehang hAt.standing with
    ⟨freed, asked, hTakeValue, hRetain, hRehang⟩
  apply Completes.onTree hTakeValue
  apply Completes.onTree hRetain
  have hConsumes : (if value.label.shape.canRetain then
      some value.id else none).isSome =
        value.label.shape.canRetain := by
    cases value.label.shape.canRetain <;> rfl
  rw [hConsumes]
  refine Completes.choose
    (chooses_storeFunction hAt.ready table _) ?_
  intro function symbols hGrown hReady hFunction
  rcases hRehang function component with
    ⟨taken, both, built, after, call, hTakeArray, hTakeIndex,
      hCall, hReplace, hRehung⟩
  apply Completes.onTree hTakeArray
  apply Completes.onTree hTakeIndex
  apply Completes.onTree hCall
  rw [run_bind_ok (run_replace hReplace)]
  have hView := hRehung.view
  simp only [List.map_cons, List.map_nil, Placed.view_retain]
    at hView
  have hTyped : call.label.ty = some component := by
    rw [← Placed.ty_view, hView]
    rfl
  have hStored' := stable_stored? _ _ _ _ _ hGrown hStored
  refine Completes.of_ok rfl
    (.stored ⟨hShape, ?_, ?_, hRehung.fresh, ?_, ?_, ?_,
      hRehung.left, ?_, ?_, ?_⟩)
  · refine ⟨hRehung.replaced, hGrown, hReady, rfl, ?_⟩
    intro hNone
    rw [hTyped] at hNone
    exact absurd hNone (by simp)
  · refine ⟨⟨component, value.label.shape.canRetain⟩, ?_,
      hTyped⟩
    simp only [Placed.label_node, Placed.children_node,
      List.map_cons, List.map_nil, Placed.view_node]
    exact hStored'
  · have hChildren := hRehung.children
    rcases call with ⟨callId, callLabel, arguments⟩
    rw [Placed.children_node] at hChildren
    subst hChildren
    simp
  · rw [hView]
    simp only [Placed.view_node, List.map_cons, List.map_nil]
    exact TakenOver.call function component hStored'
  · exact ⟨target, outer, [array, index], value, rfl,
      hRehung.children⟩
  · intro access hAccess
    cases hAccess
    exact hRehung.owned
  · intro hIsSafe
    rw [hView]
    exact safe_rehung function
      ((hSafe hIsSafe).mono hGrown.cache) hTy
  · intro later hLater assigned consumed called
    rw [hView]
    simp only [Placed.view_node, List.map_cons, List.map_nil]
    rw [lower?_stored assigned consumed hOuter
      (stable_stored? _ _ _ _ _ hLater hStored')
      (stable_storeFunction? _ _ _ _ hLater hFunction),
      lower?_callView, lower?_callView]

end Storing

------------------------------------------------------------
-- The Way Down
------------------------------------------------------------

/- What an assignment to an element stores. -/
theorem stored?_of_element
    {symbols : Symbols}
    {label outer : Label}
    (operands : List View)
    (value : View)
    {op : AssignOp}
    {component : TypeId}
    {primitive : Bool}
    (hShape : label.shape = .assignment op () ())
    (hOuter : outer.shape = .arrayAccess () ())
    (hTy : outer.ty = some component)
    (hPrimitive : isPrimitive? symbols component =
      some primitive) :
    stored? symbols label [.node outer operands, value] =
      some (if primitive || op ≠ .assign then
        none
      else
        some ⟨component, value.label.shape.canRetain⟩) := by
  have hOperator : elementOperator? label
      (View.node outer operands).label = some op :=
    elementOperator?_eq_some.mpr ⟨hShape, hOuter⟩
  have hTy' : (View.node outer operands).ty =
      some component := hTy
  unfold stored?
  simp only [hOperator, hTy', hPrimitive, Option.bind_eq_bind,
    Option.bind_some]
  split <;> rfl

/- Without an access as its target, no assignment stores. -/
private theorem stored?_of_no_access
    {symbols : Symbols}
    {target : View}
    (value : View)
    (hAccess : target.label.shape ≠ .arrayAccess () ()) :
    stored? symbols label [target, value] = some none := by
  apply stored?_eq_none
  intro first second hPair
  rw [List.cons.injEq] at hPair
  rw [← hPair.1, Option.eq_none_iff_forall_ne_some]
  intro op hSome
  exact hAccess (elementOperator?_eq_some.mp hSome).2

/- The walk goes on with the children of what stores nothing. -/
private theorem completes_children
    {table : BindingTable}
    {options : Options}
    {symbols : Symbols}
    (hGrown : before.symbols.Grown symbols)
    (hReady : symbols.Ready)
    (hNone : stored? symbols label (children.map (·.view)) =
      some none) :
    Completes safe
      ((return .children : LowerM Descent)
        (before.withSymbols symbols))
      (Entered safe table options before
        (.node id label children)) :=
  Completes.of_ok rfl (.children hGrown hReady hNone)

/-
  An assignment to an element is replaced if it has to be a
  call: the elements are no primitives, and it is no compound.
-/
private theorem completes_lowerElement
    (table : BindingTable)
    (options : Options)
    {target : NodeId}
    {outer : Label}
    {array index value : Placed}
    (hAt : before.At (.node id label
      [.node target outer [array, index], value]))
    {op : AssignOp}
    (hShape : label.shape = .assignment op () ())
    (hOuter : outer.shape = .arrayAccess () ())
    {component : TypeId}
    (hTy : outer.ty = some component)
    (hSafe : safe → (Placed.node id label
      [.node target outer [array, index], value]).view.Safe
        before.cache) :
    Completes safe
      ((do
        if ← ask (·.isPrimitive component) then
          return .children
        if op ≠ .assign then
          return .children
        let value ← Tree.take value.id
        let retained ← Tree.retainResult value
        let function ← storeFunction table retained.isSome
        let array ← Tree.take array.id
        let index ← Tree.take index.id
        let call ← functionCall function component
          [array, index, value]
        Workspace.replace id call
        return .instead call : LowerM Descent) before)
      (Entered safe table options before
        (.node id label
          [.node target outer [array, index], value])) := by
  have hLive : safe → before.symbols.cache.Live component := by
    intro hIsSafe
    have hView := hSafe hIsSafe
    rw [Placed.view_node] at hView
    have hIn := hView.child
      (List.mem_map_of_mem (List.mem_cons_self))
    exact hIn.label.live component hTy
  refine Completes.choose
    (chooses_isPrimitive hAt.ready hLive) ?_
  intro primitive symbols hGrown hReady hPrimitive
  have hStored := stored?_of_element
    [array.view, index.view] value.view hShape hOuter hTy
    hPrimitive
  cases primitive with
  | true =>
      exact completes_children hGrown hReady
        (by simpa using hStored)
  | false =>
      rw [if_neg (by simp)]
      by_cases hOp : op ≠ .assign
      · rw [if_pos hOp]
        rw [if_pos (by simpa using hOp)] at hStored
        exact completes_children hGrown hReady
          (by simpa using hStored)
      · rw [if_neg hOp]
        rw [if_neg (by simpa using hOp), Placed.label_view]
          at hStored
        apply Completes.mono (completes_store table options
          (hAt.withSymbols hReady) (by rw [hShape]; rfl)
          hOuter hStored hTy
          fun hIsSafe => (hSafe hIsSafe).mono hGrown.cache)
        intro descent after hEntered
        exact hEntered.ofSymbols hGrown

/- An assignment is replaced only if it stores an element. -/
private theorem completes_lowerAssignment
    (table : BindingTable)
    (options : Options)
    (hAt : before.At (.node id label children))
    {op : AssignOp}
    (hShape : label.shape = .assignment op () ())
    (hSafe : safe →
      (Placed.node id label children).view.Safe
        before.cache) :
    Completes safe (lowerAssignment table id before)
      (Entered safe table options before
        (.node id label children)) := by
  have hHolds := hAt.standing.holds
  rcases hHolds.exists_pair
      (fun _ hIs =>
        NodeKind.eq_assignment_of_shape (hIs.trans hShape))
      (fun _ _ => rfl) with
    ⟨stored, target, value, hNode, rfl, hKind, rfl⟩
  have hTarget := hHolds.child
    (List.mem_cons_self : target ∈ [target, value])
  rcases hTarget.stored with
    ⟨outer, hOuter, hOuterLabel, _⟩
  unfold lowerAssignment
  refine Completes.inTree (Tree.node_eq_ok hNode) ?_
  simp only [hKind]
  refine Completes.inTree (Tree.node_eq_ok hOuter) ?_
  by_cases hAccess : outer.label.shape = .arrayAccess () ()
  · rcases NodeKind.eq_arrayAccess_of_shape hAccess with
      ⟨arrayId, indexId, hOuterKind⟩
    rcases target with ⟨targetId, outerLabel, operands⟩
    rcases hTarget.pair hOuter (by rw [hOuterKind]; rfl) with
      ⟨array, index, rfl, rfl, rfl⟩
    rw [Placed.label_node] at hOuterLabel
    subst hOuterLabel
    simp only [hOuterKind]
    refine Completes.nodeType hOuter ?_
    intro component hTy
    exact completes_lowerElement table options hAt hShape
      hAccess hTy hSafe
  · have hNone : stored? before.symbols stored.label
        ([target, value].map (·.view)) = some none := by
      apply stored?_of_no_access
      rwa [Placed.label_view, ← hOuterLabel]
    cases hOuterKind : outer.kind
    case arrayAccess array index =>
      exact absurd (congrArg NodeKind.shape hOuterKind) hAccess
    all_goals
      exact completes_children (Grown.refl _) hAt.ready hNone

/-
  On the way down, the tree stays as it is, or a call stands in
  the place of an assignment to an element.
-/
theorem completes_enter
    (table : BindingTable)
    (options : Options)
    (hAt : before.At (.node id label children))
    (hSafe : safe →
      (Placed.node id label children).view.Safe
        before.cache) :
    Completes safe (enter table id label.shape.tag before)
      (Entered safe table options before
        (.node id label children)) := by
  cases hShape : label.shape
  case assignment op lhs rhs =>
    exact completes_lowerAssignment table options hAt hShape
      hSafe
  all_goals
    apply completes_children (Grown.refl _) hAt.ready
    apply stored?_of_tag
    rw [hShape]
    simp [NodeKind.tag]

------------------------------------------------------------
-- The Walk
------------------------------------------------------------

section Walk

variable (table : BindingTable)
variable (options : Options)

/-
  To a depth, the walk leaves in the place of a subtree what
  the lowering of its view is.
-/
def WalksWithin (safe : Prop) (depth : Nat) : Prop :=
  ∀ (before : Workspace) (placed : Placed) (assigned : Bool),
    before.At placed →
      placed.ids.length ≤ depth →
        (safe → placed.view.Safe before.cache) →
          before.tree.isAssigned placed.id = .ok assigned →
            Walks safe
              ((visitor table options).walkWithin depth
                placed.id)
              before placed
              (lower? · table options assigned false
                placed.view)

variable {table} {options}

/-
  The children are walked one after the other; those in front
  have been lowered.
-/
theorem walks_children
    {depth : Nat}
    (hWalks : WalksWithin table options safe depth)
    (rest : List Placed)
    (front : List Placed)
    (hAt : before.At (.node id label (front ++ rest)))
    (hDepth : ∀ child ∈ rest, child.ids.length ≤ depth)
    (hSafe : safe → ∀ child ∈ rest,
      child.view.Safe before.cache) :
    Completes safe
      (((rest.map (·.id)).forM
        ((visitor table options).walkWithin depth) :
          LowerM Unit) before)
      fun _ after =>
        ∃ lowered,
          Lowered before after (.node id label (front ++ rest))
            (.node id label (front ++ lowered)) ∧
          lowerAll? after.symbols table options
            (label.shape.assignsFirst && front.isEmpty)
            (rest.map (·.view)) =
              some (lowered.map (·.view)) ∧
          (safe → ∀ child ∈ lowered,
            child.label.Safe after.cache) := by
  induction rest generalizing front before with
  | nil =>
      refine Completes.of_ok rfl ⟨[], Lowered.refl hAt, ?_, ?_⟩
      · rw [List.map_nil, lowerAll?]
      · simp
  | cons child rest ih =>
      have hChild := hWalks before child _
        (hAt.child (by simp)) (hDepth child (by simp))
        (fun hIsSafe => hSafe hIsSafe child (by simp))
        hAt.standing.isAssigned_child
      refine Completes.bind hChild ?_
      intro _ middle hPost
      rcases hPost with ⟨new, hLowered, hView, hNewSafe⟩
      have hFirst := Lowered.ofChild hAt hLowered
      have hStays := hFirst.stays hAt
      rw [List.append_cons] at hStays
      have hRest := ih (front ++ [new]) hStays
        (fun other hMem => hDepth other (by simp [hMem]))
        (fun hIsSafe other hMem =>
          (hSafe hIsSafe other (by simp [hMem])).mono
            hLowered.grown.cache)
      apply hRest.mono
      intro _ after hPost
      rcases hPost with
        ⟨lowered, hSecond, hViews, hRestSafe⟩
      refine ⟨new :: lowered, ?_, ?_, ?_⟩
      · rw [← List.append_cons, ← List.append_cons] at hSecond
        exact hFirst.trans hAt hSecond
      · rw [List.map_cons, List.map_cons, lowerAll?]
        have hEmpty : (front ++ [new]).isEmpty = false := by
          simp
        rw [hEmpty, Bool.and_false] at hViews
        refine Option.bind_eq_some_iff.mpr ⟨new.view,
          stable_lower? _ _ _ _ _ _ hSecond.grown hView, ?_⟩
        rw [hViews]
        rfl
      · intro hIsSafe other hMem
        rcases List.mem_cons.mp hMem with rfl | hMem
        · exact (hNewSafe hIsSafe).mono hSecond.grown.cache
        · exact hRestSafe hIsSafe other hMem

/- The children of a node are walked, and then the node. -/
private theorem walks_through
    {depth : Nat}
    {assigned : Bool}
    {symbols : Symbols}
    (hWalks : WalksWithin table options safe depth)
    (hAt : before.At (.node id label children))
    (hDepth : (Placed.node id label children).ids.length ≤
      depth + 1)
    (hSafe : safe →
      (Placed.node id label children).view.Safe before.cache)
    (hAssigned : before.tree.isAssigned id = .ok assigned)
    (hGrown : before.symbols.Grown symbols)
    (hReady : symbols.Ready)
    (hNone : stored? symbols label (children.map (·.view)) =
      some none) :
    Completes safe
      ((do
        let below ← Workspace.inTree (·.children id)
        below.forM ((visitor table options).walkWithin depth)
        leave table options id label.shape.tag : LowerM Unit)
          (before.withSymbols symbols))
      fun _ after =>
        Outcome safe before after (.node id label children)
          (lower? · table options assigned false
            (Placed.node id label children).view) := by
  have hHere := hAt.withSymbols hReady
  have hSafe' : safe → (Placed.node id label children).view.Safe
      symbols.cache :=
    fun hIsSafe => (hSafe hIsSafe).mono hGrown.cache
  refine Completes.inTree hHere.standing.holds.children ?_
  have hBelow := walks_children hWalks children [] hHere
    (by
      intro child hMem
      have hLength := Placed.length_ids_le_of_mem hMem
      rw [Placed.ids_node, List.length_cons] at hDepth
      omega)
    (by
      intro hIsSafe child hMem
      have hView := hSafe' hIsSafe
      rw [Placed.view_node] at hView
      exact hView.child (List.mem_map_of_mem hMem))
  refine Completes.bind hBelow ?_
  intro _ middle hPost
  rcases hPost with ⟨lowered, hFirst, hViews, hLabels⟩
  rw [List.nil_append, List.nil_append] at hFirst
  have hBack : Back safe middle id label lowered := by
    refine ⟨hFirst.stays hHere, ?_, hLabels⟩
    intro hIsSafe
    have hLabel := (hSafe' hIsSafe).label
    rw [Placed.label_view] at hLabel
    exact hLabel.mono hFirst.grown.cache
  have hStill : middle.tree.isAssigned id = .ok assigned := by
    have hSame := hFirst.isAssigned hHere
    rw [Placed.id_node, Placed.id_node] at hSame
    rw [hSame]
    exact hAssigned
  apply Completes.mono
    (walks_leave table options assigned hBack hStill)
  intro _ after hPost
  rcases hPost with ⟨new, hSecond, hView, hLabel⟩
  have hWhole := (hFirst.ofSymbols hGrown).trans hAt hSecond
  refine ⟨new, hWhole, ?_, hLabel⟩
  have hNone' := stable_stored? _ _ _ _ _
    (hFirst.grown.trans hSecond.grown) hNone
  have hViews' := stable_lowerAll? _ _ _ _ _
    hSecond.grown hViews
  simp only [List.isEmpty_nil, Bool.and_true] at hViews'
  simp only [] at hNone' hView ⊢
  rw [Placed.view_node, lower?, hNone']
  simp only [Option.bind_eq_bind, Option.bind_some, hViews',
    Bool.false_eq_true, if_false]
  exact hView

/- The call that stores is walked in place of the assignment. -/
private theorem walks_stored
    {depth : Nat}
    {assigned : Bool}
    {middle : Workspace}
    {call : Placed}
    (hWalks : WalksWithin table options safe depth)
    (hAt : before.At (.node id label children))
    (hDepth : (Placed.node id label children).ids.length ≤
      depth + 1)
    (hStored : Stored safe table options before middle
      (.node id label children) call) :
    Completes safe
      ((do
        (visitor table options).walkWithin depth call.id
        leave table options id label.shape.tag : LowerM Unit)
          middle)
      fun _ after =>
        Outcome safe before after (.node id label children)
          (lower? · table options assigned false
            (Placed.node id label children).view) := by
  have hThere := hStored.lowered.stays hAt
  rcases hThere.standing.isAssigned_ok with ⟨called, hCalled⟩
  have hCall := hWalks middle call called hThere
    (by
      have hFewer := hStored.fewer
      omega)
    hStored.safe_view hCalled
  have hTag : label.shape.tag = .assignment :=
    hStored.assignment
  refine Completes.bind hCall ?_
  intro _ after hPost
  rcases hPost with ⟨new, hLowered, hView, hLabel⟩
  rw [hTag]
  refine Completes.of_ok rfl
    ⟨new, hStored.lowered.trans hAt hLowered, ?_, hLabel⟩
  simp only [] at hView ⊢
  rw [hStored.same after.symbols hLowered.grown assigned false
    called]
  exact hView

/- What is walked is lowered, by induction on the depth. -/
theorem walksWithin
    (table : BindingTable)
    (options : Options)
    (safe : Prop)
    (depth : Nat) :
    WalksWithin table options safe depth := by
  induction depth with
  | zero =>
      intro before placed assigned _ hDepth
      cases placed
      simp at hDepth
  | succ depth ih =>
      intro before placed assigned hAt hDepth hSafe hAssigned
      rcases placed with ⟨id, label, children⟩
      have hHolds := hAt.standing.holds
      unfold Visitor.walkWithin
      apply Walks.inTree hHolds.tag
      apply Completes.bind
        (completes_enter table options hAt hSafe)
      intro descent middle hEntered
      cases hEntered with
      | @children symbols hGrown hReady hNone =>
          exact walks_through ih hAt hDepth hSafe hAssigned
            hGrown hReady hNone
      | stored hStored =>
          exact walks_stored ih hAt hDepth hStored

/-
  How a walk that succeeded went on from a node: with the
  children, and then back to the node, or with the call that
  took the place of a store, which is the last that is done.
-/
inductive WentOn
    (table : BindingTable)
    (options : Options)
    (depth : Nat)
    (before after : Workspace)
    (id : NodeId)
    (label : Label)
    (children : List Placed) : Prop
  | through
      {symbols : Symbols}
      (entered : enter table id label.shape.tag before =
        .ok .children (before.withSymbols symbols))
      (grown : before.symbols.Grown symbols)
      (ready : symbols.Ready)
      (none_stored : stored? symbols label
        (children.map (·.view)) = some none)
      (rest :
        (do
          let below ← Workspace.inTree (·.children id)
          below.forM ((visitor table options).walkWithin depth)
          leave table options id label.shape.tag : LowerM Unit)
            (before.withSymbols symbols) = .ok () after)
  | stored
      {middle : Workspace}
      {call : Placed}
      (entered : enter table id label.shape.tag before =
        .ok (.instead call.id) middle)
      (stored : Stored False table options before middle
        (.node id label children) call)
      (walked : (visitor table options).walkWithin depth call.id
        middle = .ok () after)
      (left : leave table options id label.shape.tag after =
        .ok () after)

theorem wentOn_of_run
    {table : BindingTable}
    {options : Options}
    {depth : Nat}
    {after : Workspace}
    (hAt : before.At (.node id label children))
    (hRun : (visitor table options).walkWithin (depth + 1) id
      before = .ok () after) :
    WentOn table options depth before after id label
      children := by
  unfold Visitor.walkWithin at hRun
  have hRun' :=
    (run_bind_ok (run_inTree_ok hAt.standing.holds.tag)).symm
      |>.trans hRun
  rcases run_bind_eq_ok hRun' with
    ⟨descent, middle, hEnter, hRest⟩
  have hDown : enter table id label.shape.tag before =
      .ok descent middle := hEnter
  have hEntered := completes_enter table options hAt
    (@False.elim _)
  rw [hDown] at hEntered
  cases hEntered with
  | children hGrown hReady hNone =>
      exact .through hDown hGrown hReady hNone hRest
  | stored hStored =>
      rcases run_bind_eq_ok hRest with ⟨_, later, hWalk, hUp⟩
      have hLeave : leave table options id label.shape.tag
          later = .ok () after := hUp
      have hTag : label.shape.tag = .assignment :=
        hStored.assignment
      have hSame : later = after := by
        rw [hTag] at hLeave
        cases hLeave
        rfl
      subst hSame
      exact .stored hDown hStored hWalk hLeave

/- A run starts at its root. -/
theorem at_root
    {placed : Placed}
    (hStanding : before.tree.Standing placed)
    (hReady : before.symbols.Ready) :
    Workspace.At { before with root := placed.id } placed where
  standing := hStanding
  ready := hReady
  bounded := hStanding.holds.id_lt_size
  top := fun _ => rfl

/- The depth that is allowed in a tree is enough for it. -/
theorem length_ids_le_reach
    (table : BindingTable)
    (options : Options)
    {tree : Tree}
    {placed : Placed}
    (hStanding : tree.Standing placed) :
    placed.ids.length ≤
      (visitor table options).reach tree.size := by
  have hLength := hStanding.holds.length_ids_le hStanding.nodup
  show _ ≤ 2 * tree.size + 2
  omega

/-
  A whole run leaves in the place of the root what the lowering
  of its view is, and answers where that stands.
-/
theorem completes_lower
    (table : BindingTable)
    (options : Options)
    {before : Workspace}
    {placed : Placed}
    {assigned : Bool}
    (hStanding : before.tree.Standing placed)
    (hReady : before.symbols.Ready)
    (hSafe : safe → placed.view.Safe before.cache)
    (hAssigned :
      before.tree.isAssigned placed.id = .ok assigned) :
    Completes safe (lower table options placed.id before)
      fun result after =>
        result = after.root ∧
          ∃ new,
            result = new.id ∧
            Lowered { before with root := placed.id } after
              placed new ∧
            lower? after.symbols table options assigned false
              placed.view = some new.view := by
  have hWalk := walksWithin table options safe _ _ placed
    assigned (at_root hStanding hReady)
    (length_ids_le_reach table options hStanding) hSafe
    hAssigned
  have hWhole : Completes safe
      (((visitor table options).walkWithin
        ((visitor table options).reach before.tree.size)
        placed.id >>= fun _ => do return (← get).root :
          LowerM NodeId) { before with root := placed.id })
      fun result after =>
        result = after.root ∧
          ∃ new,
            result = new.id ∧
            Lowered { before with root := placed.id } after
              placed new ∧
            lower? after.symbols table options assigned false
              placed.view = some new.view := by
    apply Completes.bind hWalk
    intro _ after hPost
    rcases hPost with ⟨new, hLowered, hView, _⟩
    refine Completes.of_ok rfl
      ⟨rfl, new, ?_, hLowered, hView⟩
    rw [hLowered.root, if_pos rfl]
  exact hWhole

end Walk

end Arrays

end Lowering
