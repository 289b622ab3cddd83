import Lowering.Proofs.Arrays.Becomes

/-
  This file proves what a run makes of each access to an
  element, but for those that a store takes apart.

  Where the access was assigned to in the input, it becomes the
  dereference of a call that answers a pointer to the element.
  Elsewhere it becomes a call that reads the element. So no
  call that the run makes to read an element is assigned to.

  Key definitions include:
    * `Arrays.AssignedAt`
    * `Arrays.IsAccessFunction`
    * `Arrays.Accesses`

  Main results:
    * `Arrays.accesses_become_calls`
-/

namespace Lowering

namespace Arrays

open Symbols

------------------------------------------------------------
-- Assigned Places
------------------------------------------------------------

/-
  A node is assigned to: it is the left side of an assignment,
  or it is incremented or decremented, or its address is taken.
-/
inductive AssignedAt (tree : Tree) (n : NodeId) : Prop
  | target
      {owner value : NodeId}
      {stored : Node}
      {op : AssignOp}
      (owned : tree.owner? n = some owner)
      (stored_at : tree.get? owner = some stored)
      (assignment : stored.kind = .assignment op n value)
  | operand
      {owner : NodeId}
      {stored : Node}
      {op : PrefixOp}
      (owned : tree.owner? n = some owner)
      (stored_at : tree.get? owner = some stored)
      (operation : stored.kind = .prefixOperation op n)
      (assigns : op = .increment ∨ op = .decrement ∨
        op = .addressOf)
  | stepped
      {owner : NodeId}
      {stored : Node}
      {op : PostfixOp}
      (owned : tree.owner? n = some owner)
      (stored_at : tree.get? owner = some stored)
      (operation : stored.kind = .postfixOperation op n)

/- A kind that assigns to a child does so in one of these ways. -/
private theorem assignedAt_of_assigns
    {tree : Tree}
    {n owner : NodeId}
    {stored : Node}
    (hOwner : tree.owner? n = some owner)
    (hStored : tree.get? owner = some stored)
    (hMem : n ∈ stored.kind.children)
    (hAssigns : stored.kind.assigns n = true) :
    AssignedAt tree n := by
  cases hKind : stored.kind
  case assignment op target value =>
    rw [hKind] at hAssigns
    have hTarget : target = n := of_decide_eq_true hAssigns
    subst hTarget
    exact .target hOwner hStored hKind
  case prefixOperation op operand =>
    rw [hKind] at hAssigns hMem
    have hOperand : n = operand := List.mem_singleton.mp hMem
    subst hOperand
    refine .operand hOwner hStored hKind ?_
    cases op <;> simp [NodeKind.assigns] at hAssigns ⊢
  case postfixOperation op operand =>
    rw [hKind] at hMem
    have hOperand : n = operand := List.mem_singleton.mp hMem
    subst hOperand
    exact .stepped hOwner hStored hKind
  all_goals
    rw [hKind] at hAssigns
    exact absurd hAssigns Bool.false_ne_true

/- A node is assigned to if the tree says so. -/
theorem assignedAt_iff
    {tree : Tree}
    {placed : Placed}
    {assigned : Bool}
    (hStanding : tree.Standing placed)
    (hAssigned : tree.isAssigned placed.id = .ok assigned) :
    assigned = true ↔ AssignedAt tree placed.id := by
  rcases hStanding.holds.stored with ⟨node, hNode, _, _⟩
  cases hOwner : tree.owner? placed.id with
  | none =>
      rw [Tree.isAssigned_free hNode hOwner] at hAssigned
      cases hAssigned
      refine iff_of_false (by simp) fun hAt => ?_
      cases hAt <;> simp_all
  | some owner =>
      rcases hStanding.listed owner hOwner with
        ⟨stored, hStored, hMem, _⟩
      rw [Tree.isAssigned_owned hNode hOwner hStored]
        at hAssigned
      have hSame := Except.ok.inj hAssigned
      subst hSame
      constructor
      · exact assignedAt_of_assigns hOwner hStored hMem
      · intro hAt
        have hThere {owner' : NodeId}
            {stored' : Node}
            (hOwner' : tree.owner? placed.id = some owner')
            (hStored' : tree.get? owner' = some stored') :
            stored' = stored := by
          rw [hOwner] at hOwner'
          cases hOwner'
          rw [hStored] at hStored'
          exact (Option.some.inj hStored').symm
        cases hAt with
        | target hOwner' hStored' hKind =>
            rw [← hThere hOwner' hStored', hKind]
            simp [NodeKind.assigns]
        | operand hOwner' hStored' hKind hOp =>
            rw [← hThere hOwner' hStored', hKind]
            rcases hOp with rfl | rfl | rfl <;> rfl
        | stepped hOwner' hStored' hKind =>
            rw [← hThere hOwner' hStored', hKind]
            rfl

------------------------------------------------------------
-- Calls That Access Elements
------------------------------------------------------------

/-
  A function of the runtime class of arrays over a component:
  its name is that of the class with an ending, and it takes an
  array of the class and an index.
-/
structure IsAccessFunction
    (symbols : Symbols)
    (component : TypeId)
    (ending : String)
    (declared : TypeId)
    (function : FunctionRef) : Prop where
  declaring : symbols.arrayClass? component =
    some function.declaring
  name : ∃ text,
    elementText? symbols function.declaring = some text ∧
      symbols.text? function.name = some (text ++ ending)
  returns : function.returnType = declared
  params : ∃ cls int,
    symbols.declaredType? function.declaring = some cls ∧
      symbols.primitiveType? .int = some int ∧
      function.params = [cls, int]

/- What an access to an element is lowered to. -/
inductive Accesses
    (symbols : Symbols)
    (component : TypeId)
    (array index : View) : Bool → View → Prop
  /- Where it is assigned to, through a pointer. -/
  | pointer
      {pointer : TypeId}
      {function : FunctionRef}
      (pointer_kind : symbols.kind? pointer =
        some (.pointer component))
      (is_function : IsAccessFunction symbols component
        "_GetRef" pointer function) :
      Accesses symbols component array index true
        (.node
          ⟨.prefixOperation .dereference (), some component,
            none⟩
          [callView function pointer [array, index]])
  /- Elsewhere, by a call that reads it. -/
  | read
      {primitive : Bool}
      {function : FunctionRef}
      (primitive_eq : isPrimitive? symbols component =
        some primitive)
      (is_function : IsAccessFunction symbols component "_Get"
        (if primitive then component else symbols.env.idType)
        function) :
      Accesses symbols component array index false
        (callView function component [array, index])

section Accesses

variable {symbols : Symbols}
variable {component : TypeId}
variable {assigned : Bool}

/- The symbols of an access are of such a function. -/
private theorem accesses_of_elementAccess?
    {access : ElementAccess}
    (hReady : symbols.Ready)
    (hAccess : elementAccess? symbols component assigned =
      some access)
    (array index : View) :
    Accesses symbols component array index assigned
      (access.view array index) := by
  unfold elementAccess? at hAccess
  simp only [Option.bind_eq_bind, Option.bind_eq_some_iff]
    at hAccess
  rcases hAccess with
    ⟨cls, hClass, text, hText, primitive, hPrimitive,
      ⟨ending, ty, declared⟩, hForm, classType, hDeclared, int,
      hInt, name, hName, hLast⟩
  cases hLast
  have hFunction : IsAccessFunction symbols component ending
      declared ⟨name, declared, cls, [classType, int], none⟩ :=
    ⟨hClass, ⟨text, hText, Interner.text?_of_find? hName⟩, rfl,
      classType, int, hDeclared, hInt, rfl⟩
  cases assigned with
  | true =>
      rcases Option.bind_eq_some_iff.mp hForm with
        ⟨pointer, hPointer, hForm⟩
      cases hForm
      have hData := hReady.sound.type?_of_get?
        (Cache.get?_of_shape? hPointer)
      refine .pointer ?_ hFunction
      unfold kind?
      rw [hData]
      rfl
  | false =>
      cases hForm
      exact .read hPrimitive hFunction

end Accesses

------------------------------------------------------------
-- Lowered Accesses
------------------------------------------------------------

section Lowered

variable {table : BindingTable}
variable {options : Options}
variable {root result n m : NodeId}
variable {before after : Workspace}
variable {part : Passage}

/- What is yielded of an access is what accesses the element. -/
private theorem accesses_of_yields
    {node : Node}
    {array index : NodeId}
    (hReady : after.symbols.Ready)
    (hYields : Yields table options root before after n m part)
    (hNode : before.tree.get? n = some node)
    (hKind : node.kind = .arrayAccess array index) :
    ∃ component array' index',
      node.ty = some component ∧
        LowersTo after.symbols table options before.tree array
          array' ∧
        LowersTo after.symbols table options before.tree index
          index' ∧
        Accesses after.symbols component array' index'
          part.assigned part.new.view := by
  have hStanding := hYields.standing
  have hValid := hYields.valid
  rcases part with
    ⟨assigned, handed, ⟨id, label, children⟩, new⟩
  have hPlace : id = n := hYields.old_id
  subst hPlace
  have hLabel : node.label = label :=
    (hStanding.holds.of_get? hNode).1
  subst hLabel
  rcases hStanding.holds.pair hNode (by rw [hKind]; rfl) with
    ⟨first, second, rfl, rfl, rfl⟩
  have hShape : node.label.shape = .arrayAccess () () :=
    congrArg NodeKind.shape hKind
  have hRetain : node.label.retainIf handed = node.label := by
    apply node.label.retainIf_eq_self handed
    rw [hShape]
    rfl
  have hLowered : lower? after.symbols table options assigned
      handed (.node node.label [first.view, second.view]) =
        some new.view := by
    rw [← hValid, Placed.view_node]
    rfl
  rcases finish?_of_lower? (by rw [hShape]; simp [NodeKind.tag])
    hLowered with ⟨below, hBelow, hFinish⟩
  rw [hShape] at hBelow
  rcases List.forall₂_cons_left_iff.mp
      (forall₂_of_lowerAll? hBelow) with
    ⟨array', _, hArray, hRest, rfl⟩
  rcases List.forall₂_cons_left_iff.mp hRest with
    ⟨index', _, hIndex, hNone, rfl⟩
  cases hNone
  rw [hRetain] at hFinish
  simp only [finish?, hShape] at hFinish
  rcases Option.bind_eq_some_iff.mp hFinish with
    ⟨component, hTy, hFinish⟩
  rcases Option.bind_eq_some_iff.mp hFinish with
    ⟨access, hAccess, hLast⟩
  have hFirst : before.tree.Standing first :=
    hStanding.child (by simp)
  have hSecond : before.tree.Standing second :=
    hStanding.child (by simp)
  refine ⟨component, array', index', hTy,
    lowersTo_of_holds hFirst.holds hFirst.nodup hArray,
    lowersTo_of_holds hSecond.holds hSecond.nodup hIndex, ?_⟩
  rw [← Option.some.inj hLast]
  exact accesses_of_elementAccess? hReady hAccess array' index'

/- The function that a shape calls, marked or not. -/
private theorem function_of_retainIf
    {handed marked : Bool}
    {label : Label}
    {function : FunctionRef}
    {places : List Unit}
    (hShape : (label.retainIf handed).shape =
      .functionInvocation function places marked) :
    ∃ marked',
      label.shape =
        .functionInvocation function places marked' := by
  cases handed with
  | false => exact ⟨marked, hShape⟩
  | true =>
      have hRetain : label.shape.retain =
          .functionInvocation function places marked := hShape
      unfold NodeKind.retain at hRetain
      split at hRetain
      · cases hLabel : label.shape <;>
          rw [hLabel] at hRetain <;> cases hRetain
        exact ⟨_, rfl⟩
      · exact ⟨marked, hRetain⟩

/- No store of an object is named as a call that reads. -/
private theorem storeName_ne (consumes : Bool) (text : String) :
    storeName consumes ≠ text ++ "_Get" := by
  intro hEq
  have hEnd := congrArg (fun name => name.toList.reverse[2]?) hEq
  rw [String.toList_append, List.reverse_append] at hEnd
  cases consumes <;> simp [storeName] at hEnd

private theorem not_read_of_storeFunction?
    {symbols : Symbols}
    {consumes : Bool}
    {component declared : TypeId}
    {function : FunctionRef}
    (hFunction : storeFunction? symbols consumes =
      some function) :
    ¬ IsAccessFunction symbols component "_Get" declared
      function := by
  intro hRead
  rcases hRead.name with ⟨text, _, hText⟩
  have hStored := text_of_storeFunction? hFunction
  have hSame := Option.some.inj (hStored.symm.trans hText)
  exact storeName_ne consumes text hSame

/-
  A passage to a call that reads and is assigned to comes from
  a call of the same function.
-/
private theorem Form.function_eq
    {symbols : Symbols}
    {whole : Passage}
    {parts : List Passage}
    {made : List Placed}
    {lost : List NodeId}
    {component declared : TypeId}
    {function : FunctionRef}
    {places : List Unit}
    {marked : Bool}
    (hForm : Form symbols table options whole parts made lost)
    (hAssigned : whole.assigned = true)
    (hShape : whole.new.label.shape =
      .functionInvocation function places marked)
    (hRead : IsAccessFunction symbols component "_Get" declared
      function) :
    ∃ marked',
      whole.old.label.shape =
        .functionInvocation function places marked' := by
  have hCall {factory : Factory}
      {arguments made : List Placed}
      {call : Placed}
      (hCalls : FactoryCall factory arguments call made)
      (hShape : call.label.shape =
        .functionInvocation function places marked) :
      False := by
    cases hCalls <;> cases hShape
  cases hForm with
  | kept => exact function_of_retainIf hShape
  | stored _ hFunction =>
      cases hShape
      exact absurd hRead (not_read_of_storeFunction? hFunction)
  | read => cases hAssigned
  | pointer => cases hShape
  | length _ _ _ _ hCalls => exact (hCall hCalls hShape).elim
  | lengths _ _ _ _ _ _ _ _ hCalls =>
      exact (hCall hCalls hShape).elim
  | elements _ _ _ _ _ _ _ hCalls =>
      exact (hCall hCalls hShape).elim
  | size => cases hShape
  | test => cases hShape

/- A call that reads and is assigned to was there before. -/
private theorem became_of_assigned
    {node : Node}
    {component declared : TypeId}
    {function : FunctionRef}
    {arguments : List NodeId}
    {marked : Bool}
    (hStart : Start table root before)
    (hRun : lower table options root before =
      .ok result after)
    (hBelow : after.tree.Below result m)
    (hNode : after.tree.get? m = some node)
    (hKind : node.kind =
      .functionInvocation function arguments marked)
    (hRead : IsAccessFunction after.symbols component "_Get"
      declared function)
    (hAssigned : AssignedAt after.tree m) :
    ∃ n old arguments' marked',
      Becomes table options root result before after n m ∧
        before.tree.get? n = some old ∧
        old.kind =
          .functionInvocation function arguments' marked' := by
  have hShape : node.label.shape =
      .functionInvocation function
        (arguments.map fun _ => ()) marked :=
    congrArg NodeKind.shape hKind
  cases hStart.cameOf hRun hBelow hNode with
  | @became n old part _ _ _ hBecomes hYields hStands hForm hOld
      hOldLabel hLabel =>
      rw [← hLabel] at hShape
      rw [← hYields.new_id] at hAssigned
      have hIs := (assignedAt_iff hStands.new
        hStands.new_assigned).mpr hAssigned
      rcases hForm.function_eq hIs hShape hRead with
        ⟨marked', hOldShape⟩
      rw [hOldLabel] at hOldShape
      rcases NodeKind.eq_functionInvocation_of_shape hOldShape
        with ⟨arguments', hOldKind⟩
      exact ⟨n, old, arguments', marked', hBecomes, hOld,
        hOldKind⟩
  | plain hPlain =>
      rw [hShape] at hPlain
      exact absurd hPlain (by simp [NodeKind.tag])
  | call _ hStanding hIs hNot =>
      subst hIs
      exact absurd ((assignedAt_iff hStanding hNot).mpr hAssigned)
        (by simp)

end Lowered

------------------------------------------------------------
-- Runs
------------------------------------------------------------

/-
  Each access to an element below the root, but for those that
  a store takes apart, has a seat. There, and below the result,
  it is a pointer or a call that reads, by whether the access
  was assigned to in the input. So the calls below the result
  that read elements and are assigned to are those of the
  input.
-/
theorem accesses_become_calls
    {table : BindingTable}
    {options : Options}
    {root result : NodeId}
    {before after : Workspace}
    (hStart : Start table root before)
    (hRun : lower table options root before =
      .ok result after) :
    (∀ n node array index,
      before.tree.Below root n →
        before.tree.get? n = some node →
          node.kind = .arrayAccess array index →
            (∀ store value component,
              ¬ Stores after.symbols before.tree root store n
                value component) →
              Persists table options root result before after
                  n ∧
                ∀ m,
                  Ends table options root result before after
                      n m →
                    ∃ component array' index' assigned view,
                      node.ty = some component ∧
                        LowersTo after.symbols table options
                          before.tree array array' ∧
                        LowersTo after.symbols table options
                          before.tree index index' ∧
                        (assigned = true ↔
                          AssignedAt before.tree n) ∧
                        Accesses after.symbols component array'
                          index' assigned view ∧
                        after.tree.view? m = some view) ∧
      ∀ m node function arguments marked component declared,
        after.tree.Below result m →
          after.tree.get? m = some node →
            node.kind =
                .functionInvocation function arguments marked →
              IsAccessFunction after.symbols component "_Get"
                  declared function →
                AssignedAt after.tree m →
                  ∃ n old arguments' marked',
                    Becomes table options root result before
                        after n m ∧
                      before.tree.get? n = some old ∧
                      old.kind =
                        .functionInvocation function arguments'
                          marked' := by
  constructor
  · intro n node array index hBelow hNode hKind hUntaken
    refine ⟨hStart.persists hRun hBelow hUntaken, ?_⟩
    intro m hEnds
    rcases hStart.finish hRun with ⟨_, _, _, hFinish⟩
    rcases hStart.yields hRun hEnds with ⟨part, hYields⟩
    rcases accesses_of_yields hFinish.ready hYields hNode hKind
      with ⟨component, array', index', hTy, hArray, hIndex,
        hAccesses⟩
    have hIs := assignedAt_iff hYields.standing
      (hYields.old_id ▸ hYields.assigned)
    rw [hYields.old_id] at hIs
    have hShown := hYields.shows.view?_eq hYields.nodup
    rw [hYields.new_id] at hShown
    exact ⟨component, array', index', part.assigned,
      part.new.view, hTy, hArray, hIndex, hIs, hAccesses, hShown⟩
  · intro m node function arguments marked component declared
      hBelow hNode hKind hRead hAssigned
    exact became_of_assigned hStart hRun hBelow hNode hKind
      hRead hAssigned

/- Nothing is stored where the first of some objects is read. -/
private theorem not_stores_readItem
    (symbols : Symbols)
    (root store target value : NodeId)
    (component : TypeId) :
    ¬ Stores symbols readItem.tree root store target value
      component := by
  intro hStores
  rcases hStores.assignment with ⟨stored, hStored, hKind⟩
  have hNone : ∀ node ∈ readItem.tree.nodes,
      node.kind.tag ≠ .assignment := by
    decide
  apply hNone stored (Array.mem_of_getElem? hStored)
  rw [hKind]
  rfl

/- An element that is returned becomes a call that reads it. -/
theorem accesses_become_calls_readItem :
    ∃ after,
      lower ⟨#[]⟩ {} ⟨2⟩ readItem = .ok ⟨6⟩ after ∧
        Persists ⟨#[]⟩ {} ⟨2⟩ ⟨6⟩ readItem after ⟨2⟩ ∧
        ∀ m,
          Ends ⟨#[]⟩ {} ⟨2⟩ ⟨6⟩ readItem after ⟨2⟩ m →
            ∃ array index view,
              Accesses after.symbols ⟨12⟩ array index false
                  view ∧
                after.tree.view? m = some view := by
  refine ⟨_, run_lower_readItem, ?_⟩
  rcases (accesses_become_calls start_readItem
      run_lower_readItem).1 ⟨2⟩ _ ⟨0⟩ ⟨1⟩
        Relation.ReflTransGen.refl rfl rfl
        (fun store value component =>
          not_stores_readItem _ _ store _ value component) with
    ⟨hPersists, hEach⟩
  refine ⟨hPersists, fun m hEnds => ?_⟩
  rcases hEach m hEnds with
    ⟨component, array, index, assigned, view, hTy, _, _, hIs,
      hAccesses, hShown⟩
  cases hTy
  have hNot : assigned = false := by
    rw [← Bool.not_eq_true, hIs]
    intro hAt
    cases hAt with
    | target hOwner hStored hKind =>
        cases hOwner
        cases hStored
        cases hKind
    | operand hOwner hStored hKind =>
        cases hOwner
        cases hStored
        cases hKind
    | stepped hOwner hStored hKind =>
        cases hOwner
        cases hStored
        cases hKind
  subst hNot
  exact ⟨array, index, view, hAccesses, hShown⟩

end Arrays

end Lowering
