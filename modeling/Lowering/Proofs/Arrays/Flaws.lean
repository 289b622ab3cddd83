import Lowering.Proofs.Arrays.Walk

/-
  This file tells which constructs on arrays the walk is
  refused at, and why.

  A construct is flawed if a type that it needs is wanting, or
  is not the array that its form asks for. This is found out
  before anything is done: at a flawed construct the step is
  refused and changes nothing, and at any other construct it
  is not refused.

  Key definitions include:
    * `Never`
    * `Arrays.Judged`
    * `Arrays.enterFlaw?`
    * `Arrays.leaveFlaw?`

  Main results:
    * `Arrays.judged_enter`
    * `Arrays.judged_leave`
-/

namespace Lowering

------------------------------------------------------------
-- Steps That Are Not Refused
------------------------------------------------------------

/- An error of the cache that a caller may handle. -/
def CacheError.Refuses (error : CacheError) : Prop :=
  ∃ cause, error = .violation cause

/- An error of lowering that a caller may handle. -/
def LoweringError.Refuses (error : LoweringError) : Prop :=
  ∃ cause, error = .violation cause

/- A run does not end in an error of some sort. -/
def Never
    {ε σ α : Type}
    (Bad : ε → Prop)
    (step : EStateM ε σ α)
    (state : σ) : Prop :=
  ∀ error after, step state = .error error after → ¬ Bad error

/- A choice of symbols is not refused, however it ends. -/
abbrev Symbols.Firm
    {α : Type}
    (step : SymbolM α)
    (symbols : Symbols) : Prop :=
  Never LoweringError.Refuses step symbols

/- A step of lowering is not refused, however it ends. -/
abbrev Workspace.Firm
    {α : Type}
    (step : LowerM α)
    (workspace : Workspace) : Prop :=
  Never LoweringError.Refuses step workspace

namespace Never

variable {ε σ α β : Type}
variable {Bad : ε → Prop}
variable {state : σ}

theorem of_ok
    {step : EStateM ε σ α}
    {answer : α}
    {after : σ}
    (hRun : step state = .ok answer after) :
    Never Bad step state := by
  intro error last hError
  rw [hRun] at hError
  cases hError

theorem pure (answer : α) :
    Never Bad (Pure.pure answer : EStateM ε σ α) state :=
  of_ok rfl

theorem bind
    {first : EStateM ε σ α}
    {next : α → EStateM ε σ β}
    (hFirst : Never Bad first state)
    (hNext : ∀ answer after,
      first state = .ok answer after →
        Never Bad (next answer) after) :
    Never Bad (first >>= next) state := by
  intro error last hError
  rcases run_bind_eq_error hError with
    hFail | ⟨answer, after, hRun, hFail⟩
  · exact hFirst error last hFail
  · exact hNext answer after hRun error last hFail

/- The fatal form of an operation has no violation. -/
theorem fatal (operation : CacheM α) (cache : Cache) :
    Never CacheError.Refuses (CacheM.fatal operation) cache := by
  intro error last hError
  cases hRun : operation cache with
  | ok answer after =>
      rw [run_fatal_ok hRun] at hError
      cases hError
  | error cause after =>
      rw [run_fatal_error hRun] at hError
      cases hError
      rintro ⟨violation, hIs⟩
      cases cause <;> cases hIs

theorem ofCache
    {operation : CacheM α}
    {symbols : Symbols}
    (hFirm : Never CacheError.Refuses operation symbols.cache) :
    Symbols.Firm (liftM operation) symbols := by
  intro error last hError
  cases hRun : operation symbols.cache with
  | ok answer after =>
      rw [run_liftCache_ok hRun] at hError
      cases hError
  | error cause after =>
      rw [run_liftCache_error hRun] at hError
      cases hError
      rintro ⟨violation, hIs⟩
      cases cause with
      | violation cause => exact hFirm _ _ hRun ⟨cause, rfl⟩
      | fault cause => cases hIs

theorem onSymbols
    {step : SymbolM α}
    {workspace : Workspace}
    (hFirm : Symbols.Firm step workspace.symbols) :
    Workspace.Firm (liftM step) workspace := by
  intro error last hError
  cases hRun : step workspace.symbols with
  | ok answer after =>
      rw [run_liftSymbols_ok hRun] at hError
      cases hError
  | error cause after =>
      rw [run_liftSymbols_error hRun] at hError
      cases hError
      exact hFirm _ _ hRun

/- Work on the tree alone is not refused. -/
theorem onTree (operation : TreeM α) (workspace : Workspace) :
    Workspace.Firm (liftM operation) workspace := by
  intro error last hError
  cases hRun : operation workspace.tree with
  | ok answer after =>
      rw [run_liftTree_ok hRun] at hError
      cases hError
  | error fault after =>
      rw [run_liftTree_error hRun] at hError
      cases hError
      rintro ⟨violation, hIs⟩
      cases hIs

theorem inTree
    (question : Tree → Except TreeFault α)
    (workspace : Workspace) :
    Workspace.Firm (Workspace.inTree question) workspace :=
  onTree _ _

theorem replace (old new : NodeId) (workspace : Workspace) :
    Workspace.Firm (Workspace.replace old new) workspace :=
  .bind (onTree _ _) fun _ _ _ => .of_ok rfl

theorem ask
    (question : Cache → Except CacheError α)
    (symbols : Symbols) :
    Symbols.Firm (Symbols.ask question) symbols :=
  ofCache (.fatal _ _)

end Never

namespace Arrays

open Symbols

------------------------------------------------------------
-- Choices
------------------------------------------------------------

section Choices

variable {symbols : Symbols}

theorem firm_environment : Firm environment symbols :=
  .of_ok rfl

theorem firm_intern (text : String) :
    Firm (Cache.intern text) symbols :=
  .ofCache (.of_ok rfl)

theorem firm_arrayClass (component : TypeId) :
    Firm (Symbols.arrayClass component) symbols := by
  refine .bind firm_environment fun env _ _ => .ofCache ?_
  refine .bind (.fatal _ _) fun kind _ _ => ?_
  cases kind <;> exact .pure _

theorem never_classType (cls : ElementId) (cache : Cache) :
    Never CacheError.Refuses (Environment.classType cls)
      cache :=
  .bind (.fatal _ _) fun _ _ _ => .pure _

theorem firm_classType (cls : ElementId) :
    Firm (Environment.classType cls) symbols :=
  .ofCache (never_classType _ _)

theorem firm_pointerType (pointee : TypeId) :
    Firm (Cache.pointerType pointee) symbols := by
  rcases run_synthesize (.pointer pointee) symbols.cache with
    ⟨ty, cache, hRun⟩
  exact .ofCache (.of_ok hRun)

theorem firm_primitiveType
    (table : BindingTable)
    (kind : PrimitiveKind) :
    Firm (Cache.primitiveType table kind) symbols := by
  rcases Cache.run_primitiveType table kind symbols.cache with
    ⟨ty, cache, hRun, _⟩
  exact .ofCache (.of_ok hRun)

theorem firm_intArrayType
    (table : BindingTable)
    (int : TypeId) :
    Firm (Environment.arrayType table int) symbols := by
  refine .ofCache (.bind (.fatal _ _) fun binding after _ => ?_)
  simp only []
  split
  · exact .fatal _ _
  · rcases run_synthesize (.array int) after with
      ⟨ty, cache, hRun⟩
    exact .of_ok hRun

theorem firm_runtimeMethod
    (cls : ElementId)
    (selector : String)
    (returnType : TypeId)
    (modifiers : Modifiers)
    (params : List (String × TypeId)) :
    Firm (runtimeMethod cls selector returnType modifiers
      params) symbols := by
  rcases run_runtimeMethod symbols cls selector returnType
      modifiers params with ⟨method, after, hRun, _⟩
  exact .of_ok hRun

theorem firm_sizeField
    (table : BindingTable)
    (cls : ElementId) :
    Firm (sizeField table cls) symbols := by
  rcases run_sizeField symbols table cls with
    ⟨field, after, hRun, _⟩
  exact .of_ok hRun

theorem firm_className (cls : ElementId) :
    Firm (className cls) symbols :=
  .bind (.ask _ _) fun _ _ _ =>
    .bind (firm_classType cls) fun _ _ _ => .pure _

theorem firm_classObject (literal : TypeId) :
    Firm (classObject literal) symbols :=
  .bind firm_environment fun env _ _ =>
    .bind (.ofCache (never_classType env.iosClass _))
      fun _ _ _ => .pure _

theorem firm_factoryParams
    (params : List (String × TypeId))
    (primitive : Bool) :
    Firm (factoryParams params primitive) symbols := by
  cases primitive with
  | true => exact .pure _
  | false =>
      exact .bind firm_environment fun env _ _ =>
        .bind (.ofCache (never_classType env.iosClass _))
          fun _ _ _ => .pure _

theorem firm_factoryObject
    (component : TypeId)
    (primitive : Bool) :
    Firm (factoryObject component primitive) symbols := by
  cases primitive with
  | true => exact .pure _
  | false =>
      exact .bind (firm_classObject component)
        fun _ _ _ => .pure _

/- An access to an element is not refused. -/
theorem firm_elementAccess
    (table : BindingTable)
    (component : TypeId)
    (assigned : Bool) :
    Firm (elementAccess table component assigned) symbols := by
  unfold elementAccess
  refine .bind (firm_arrayClass _) fun cls _ _ => ?_
  refine .bind (.ask _ _) fun name _ _ => ?_
  have hRest (text : String) (ty declared : TypeId)
      (symbols : Symbols) :
      Firm
        (do
          let classType ← Environment.classType cls
          let int ← Environment.intType table
          let name ← Cache.intern text
          let function : FunctionRef :=
            { name
              returnType := declared
              declaring := cls
              params := [classType, int] }
          let target :=
            if assigned then some component else none
          return ({ function, ty, target } : ElementAccess))
        symbols :=
    .bind (firm_classType _) fun _ _ _ =>
      .bind (firm_primitiveType _ _) fun _ _ _ =>
        .bind (firm_intern _) fun _ _ _ => .pure _
  refine .bind (.ask _ _) fun primitive after _ => ?_
  cases assigned with
  | true =>
      exact .bind (firm_pointerType _) fun pointer last _ =>
        hRest _ pointer pointer last
  | false =>
      cases primitive with
      | true => exact hRest _ component component after
      | false =>
          exact .bind firm_environment fun env last _ =>
            hRest _ component env.idType last

theorem firm_storeFunction
    (table : BindingTable)
    (consumes : Bool) :
    Firm (storeFunction table consumes) symbols := by
  unfold storeFunction
  exact .bind firm_environment fun _ _ _ =>
    .bind (firm_classType _) fun _ _ _ =>
      .bind (firm_primitiveType _ _) fun _ _ _ =>
        .bind (firm_intern _) fun _ _ _ => .pure _

theorem firm_sizeAccess
    (table : BindingTable)
    (component : TypeId) :
    Firm (sizeAccess table component) symbols :=
  .bind (firm_arrayClass _) fun _ _ _ =>
    .bind (firm_sizeField _ _) fun _ _ _ =>
      .bind (firm_primitiveType _ _) fun _ _ _ =>
        .bind (.ask _ _) fun _ _ _ => .pure _

theorem firm_isObjectArray (ty : TypeId) :
    Firm (isObjectArray ty) symbols := by
  refine .bind (.ask _ _) fun component _ _ => ?_
  cases component with
  | none => exact .pure _
  | some component =>
      exact .bind (.ask _ _) fun _ _ _ => .pure _

theorem firm_typeTest (table : BindingTable) (ty : TypeId) :
    Firm (typeTest table ty) symbols :=
  .bind firm_environment fun _ _ _ =>
    .bind (firm_primitiveType _ _) fun _ _ _ =>
      .bind (firm_runtimeMethod _ _ _ _ _) fun _ _ _ =>
        .bind (firm_classObject _) fun _ _ _ => .pure _

end Choices

------------------------------------------------------------
-- Types That Nest Arrays
------------------------------------------------------------

/- The text of a type, if it can be written out. -/
def shown (symbols : Symbols) (ty : TypeId) : String :=
  (symbols.cache.display ty).toOption.getD ""

section Nesting

variable {symbols : Symbols}
variable {array : TypeId}

/- A live type is known to be an array or not. -/
theorem componentType?_of_live
    (hLive : symbols.cache.Live array) :
    componentType? symbols array =
      some (component? symbols array) := by
  rcases hLive.typed with ⟨data, hType⟩
  have hKind := kind?_eq_some hType
  unfold component? componentType?
  rw [hKind]
  rfl

private theorem run_refuse_display
    (hLive : symbols.cache.Live array)
    (cause : String → LoweringViolation) :
    (do
      let text ← ask (·.display array)
      refuse (cause text) : SymbolM TypeId) symbols =
        .error (.violation (cause (shown symbols array)))
          symbols := by
  rcases hLive.display with ⟨text, hText⟩
  have hShown : shown symbols array = text := by
    unfold shown
    rw [hText]
    rfl
  have hAsk : ask (·.display array) symbols =
      .ok text symbols := run_ask_ok hText
  rw [run_bind_ok hAsk, hShown]
  rfl

/- The component of an array, or the refusal of the type. -/
theorem run_componentOf
    (hLive : symbols.cache.Live array)
    (node : NodeId) :
    componentOf node array symbols =
      match component? symbols array with
      | some component => .ok component symbols
      | none => .error
          (.violation (.notAnArray node (shown symbols array)))
          symbols := by
  have hAsk : ask (·.componentType array) symbols =
      .ok (component? symbols array) symbols :=
    run_ask_componentType (componentType?_of_live hLive)
  unfold componentOf
  rw [run_bind_ok hAsk]
  cases component? symbols array with
  | some component => rfl
  | none => exact run_refuse_display hLive _

/- What is left of nested arrays, or the refusal of the type. -/
theorem run_innermostComponent
    (hLive : symbols.cache.Live array)
    (node : NodeId)
    (dimensions depth : Nat) :
    innermostComponent node array dimensions depth symbols =
      match innermost? symbols array depth with
      | some component => .ok component symbols
      | none => .error
          (.violation (.dimensionMismatch node dimensions
            (shown symbols array))) symbols := by
  induction depth with
  | zero => rfl
  | succ depth ih =>
      unfold innermostComponent innermost?
      cases hOuter : innermost? symbols array depth with
      | none =>
          rw [hOuter] at ih
          exact run_bind_error ih
      | some outer =>
          rw [hOuter] at ih
          have hAsk : ask (·.componentType outer) symbols =
              .ok (component? symbols outer) symbols :=
            run_ask_componentType (componentType?_of_live
              (live_innermost? hLive depth hOuter))
          rw [run_bind_ok ih, run_bind_ok hAsk]
          simp only [Option.bind_eq_bind, Option.bind_some]
          cases component? symbols outer with
          | some component => rfl
          | none => exact run_refuse_display hLive _

end Nesting

------------------------------------------------------------
-- Judgements
------------------------------------------------------------

/-
  A step is refused at once because of a flaw, or is not
  refused because there is none.
-/
def Judged
    {σ α : Type}
    (flaw? : Option LoweringViolation)
    (step : EStateM LoweringError σ α)
    (state : σ) : Prop :=
  match flaw? with
  | some cause => step state = .error (.violation cause) state
  | none => Never LoweringError.Refuses step state

namespace Judged

variable {σ α β : Type}
variable {flaw? : Option LoweringViolation}
variable {state : σ}

/- What is refused at once is refused by the whole. -/
theorem bind
    {first : EStateM LoweringError σ α}
    {next : α → EStateM LoweringError σ β}
    (hFirst : Judged flaw? first state)
    (hNext : ∀ answer after,
      first state = .ok answer after →
        Never LoweringError.Refuses (next answer) after) :
    Judged flaw? (first >>= next) state := by
  cases flaw? with
  | some cause => exact run_bind_error hFirst
  | none => exact Never.bind hFirst hNext

/- A question before a step changes no judgement. -/
theorem after
    {first : EStateM LoweringError σ α}
    {next : α → EStateM LoweringError σ β}
    {answer : α}
    (hFirst : first state = .ok answer state)
    (hNext : Judged flaw? (next answer) state) :
    Judged flaw? (first >>= next) state := by
  cases flaw? with
  | some cause =>
      show (first >>= next) state = _
      rw [run_bind_ok hFirst]
      exact hNext
  | none =>
      intro error last hError
      rw [run_bind_ok hFirst] at hError
      exact hNext error last hError

theorem onSymbols
    {step : SymbolM α}
    {workspace : Workspace}
    (hStep : Judged flaw? step workspace.symbols) :
    Judged flaw? (liftM step : LowerM α) workspace := by
  cases flaw? with
  | some cause => exact run_liftSymbols_error hStep
  | none => exact Never.onSymbols hStep

/- The type of a node before a step, which must be there. -/
theorem nodeType
    {id : NodeId}
    {node : Node}
    {before : Workspace}
    {next : TypeId → LowerM β}
    (hNode : before.tree.get? id = some node)
    (hNone : node.ty = none →
      flaw? = some (.missingType id node.kind.tag))
    (hSome : ∀ ty, node.ty = some ty →
      Judged flaw? (next ty) before) :
    Judged flaw? (Workspace.nodeType id >>= next) before := by
  have hRead : Workspace.inTree (·.node id) before =
      .ok node before :=
    run_inTree_ok (Tree.node_eq_ok hNode)
  cases hTy : node.ty with
  | none =>
      rw [hNone hTy]
      apply run_bind_error
      unfold Workspace.nodeType
      rw [run_bind_ok hRead]
      simp only [hTy]
      rfl
  | some ty =>
      refine after ?_ (hSome ty hTy)
      unfold Workspace.nodeType
      rw [run_bind_ok hRead]
      simp only [hTy]
      rfl

/- What succeeds has no flaw. -/
theorem of_ok
    {step : EStateM LoweringError σ α}
    {answer : α}
    {after : σ}
    (hStep : Judged flaw? step state)
    (hRun : step state = .ok answer after) :
    flaw? = none := by
  cases flaw? with
  | some cause => cases hRun.symm.trans hStep
  | none => rfl

/- What is refused has a flaw, and nothing was changed. -/
theorem of_refused
    {step : EStateM LoweringError σ α}
    {cause : LoweringViolation}
    {after : σ}
    (hStep : Judged flaw? step state)
    (hRun : step state = .error (.violation cause) after) :
    flaw? = some cause ∧ after = state := by
  cases flaw? with
  | some flaw =>
      cases hRun.symm.trans hStep
      exact ⟨rfl, rfl⟩
  | none => exact absurd ⟨cause, rfl⟩ (hStep _ _ hRun)

end Judged

------------------------------------------------------------
-- Flaws Of Creations
------------------------------------------------------------

/- What is wrong with a type that should be an array. -/
def arrayFlaw?
    (symbols : Symbols)
    (node : NodeId)
    (array : TypeId) : Option LoweringViolation :=
  match component? symbols array with
  | some _ => none
  | none => some (.notAnArray node (shown symbols array))

/- What is wrong with a type that should nest some arrays. -/
def nestingFlaw?
    (symbols : Symbols)
    (node : NodeId)
    (array : TypeId)
    (dimensions : Nat) : Option LoweringViolation :=
  match innermost? symbols array dimensions with
  | some _ => none
  | none => some
    (.dimensionMismatch node dimensions (shown symbols array))

section Creations

variable {symbols : Symbols}
variable {array : TypeId}

private theorem judged_componentOf
    (hLive : symbols.cache.Live array)
    (node : NodeId) :
    Judged (arrayFlaw? symbols node array)
      (componentOf node array) symbols := by
  have hRun := run_componentOf hLive node
  unfold arrayFlaw?
  cases hComponent : component? symbols array with
  | some component =>
      rw [hComponent] at hRun
      exact Never.of_ok hRun
  | none =>
      rw [hComponent] at hRun
      exact hRun

private theorem judged_innermostComponent
    (hLive : symbols.cache.Live array)
    (node : NodeId)
    (dimensions : Nat) :
    Judged (nestingFlaw? symbols node array dimensions)
      (innermostComponent node array dimensions dimensions)
      symbols := by
  have hRun :=
    run_innermostComponent hLive node dimensions dimensions
  unfold nestingFlaw?
  cases hComponent : innermost? symbols array dimensions with
  | some component =>
      rw [hComponent] at hRun
      exact Never.of_ok hRun
  | none =>
      rw [hComponent] at hRun
      exact hRun

/- A factory of arrays of given elements. -/
private theorem judged_initializedFactory
    (hReady : symbols.Ready)
    (hLive : symbols.cache.Live array)
    (table : BindingTable)
    (node : NodeId)
    (retained : Bool) :
    Judged (arrayFlaw? symbols node array)
      (initializedFactory table node array retained)
      symbols := by
  unfold initializedFactory
  refine (judged_componentOf hLive node).bind ?_
  intro component first hComponent
  have hFirst := ((chooses_componentOf hReady node
    (@False.elim _)).run_ok hComponent).2.1
  refine .bind (.ask _ _) ?_
  intro primitive second hPrimitive
  rcases (chooses_isPrimitive hFirst
      (@False.elim _)).run_ok hPrimitive with
    ⟨_, hSecond, hKnown⟩
  refine .bind (firm_arrayClass _) ?_
  intro cls third hClass
  have hGrown := ((chooses_arrayClass hSecond
    (@False.elim _)).run_ok hClass).1
  have hRest (category : String) (symbols : Symbols) :
      Firm
        (do
          let values ← Cache.pointerType component
          let int ← Environment.intType table
          let params ← factoryParams
            [("values", values), ("count", int)] primitive
          let classType ← Environment.classType cls
          let method ← runtimeMethod cls
            ((CreationForm.elements category).selector
              retained primitive)
            classType .publicStatic params
          let object ← factoryObject component primitive
          let receiver ← className cls
          return ({
            call := { method, receiver, ty := array }
            int
            object } : Factory))
        symbols :=
    .bind (firm_pointerType _) fun _ _ _ =>
      .bind (firm_primitiveType _ _) fun _ _ _ =>
        .bind (firm_factoryParams _ _) fun _ _ _ =>
          .bind (firm_classType _) fun _ _ _ =>
            .bind (firm_runtimeMethod _ _ _ _ _) fun _ _ _ =>
              .bind (firm_factoryObject _ _) fun _ _ _ =>
                .bind (firm_className _) fun _ _ _ => .pure _
  cases primitive with
  | false => exact hRest "Objects" third
  | true =>
      rcases categoryName_eq_ok
          (stable_isPrimitive? component _ _ _ hGrown hKnown)
        with ⟨category, hName, _⟩
      exact .bind
        (.ofCache (.of_ok (run_inspectCache_ok hName)))
        fun category last _ => hRest category last

/- A factory of arrays of one length. -/
private theorem judged_lengthFactory
    (hLive : symbols.cache.Live array)
    (table : BindingTable)
    (node : NodeId)
    (retained : Bool) :
    Judged (arrayFlaw? symbols node array)
      (lengthFactory table node array retained) symbols := by
  unfold lengthFactory
  refine (judged_componentOf hLive node).bind ?_
  exact fun _ _ _ => .bind (.ask _ _) fun _ _ _ =>
    .bind (firm_arrayClass _) fun _ _ _ =>
      .bind (firm_primitiveType _ _) fun _ _ _ =>
        .bind (firm_factoryParams _ _) fun _ _ _ =>
          .bind (firm_classType _) fun _ _ _ =>
            .bind (firm_runtimeMethod _ _ _ _ _) fun _ _ _ =>
              .bind (firm_factoryObject _ _) fun _ _ _ =>
                .bind (firm_className _) fun _ _ _ => .pure _

/- A factory of nested arrays of several lengths. -/
private theorem judged_lengthsFactory
    (hLive : symbols.cache.Live array)
    (table : BindingTable)
    (node : NodeId)
    (dimensions : Nat)
    (retained : Bool) :
    Judged (nestingFlaw? symbols node array dimensions)
      (lengthsFactory table node array dimensions retained)
      symbols := by
  unfold lengthsFactory
  refine (judged_innermostComponent hLive node _).bind ?_
  exact fun _ _ _ => .bind (.ask _ _) fun _ _ _ =>
    .bind (firm_arrayClass _) fun _ _ _ =>
      .bind (firm_primitiveType _ _) fun _ _ _ =>
        .bind (firm_pointerType _) fun _ _ _ =>
          .bind (firm_factoryParams _ _) fun _ _ _ =>
            .bind firm_environment fun _ _ _ =>
              .bind (firm_classType _) fun _ _ _ =>
                .bind (firm_runtimeMethod _ _ _ _ _)
                  fun _ _ _ =>
                    .bind (firm_intArrayType _ _) fun _ _ _ =>
                      .bind (firm_factoryObject _ _)
                        fun _ _ _ =>
                          .bind (firm_className _)
                            fun _ _ _ => .pure _

end Creations

------------------------------------------------------------
-- Flaws Of Constructs
------------------------------------------------------------

/-
  What is wrong with an assignment before its operands are
  walked: it assigns to an element that has no type.
-/
def enterFlaw?
    (label : Label) : List Placed → Option LoweringViolation
  | [target, _] =>
    match elementOperator? label target.label, target.label.ty with
    | some _, none => some (.missingType target.id .arrayAccess)
    | _, _ => none
  | _ => none

/- What is wrong with a creation of arrays of a type. -/
def creationFlaw?
    (symbols : Symbols)
    (node : NodeId)
    (array : TypeId) : Nat → Bool → Option LoweringViolation
  | 0, false => some (.missingOperand node .arrayCreation
      "dimensions or initializer")
  | dimensions + 2, false =>
    nestingFlaw? symbols node array (dimensions + 2)
  | _, _ => arrayFlaw? symbols node array

/-
  What is wrong with a node after its children were walked, by
  which of these have no type.
-/
def leaveFlaw?
    (symbols : Symbols)
    (untyped : Placed → Bool)
    (id : NodeId)
    (label : Label)
    (children : List Placed) : Option LoweringViolation :=
  match label.shape, children with
  | .arrayCreation dimensions initializer _, _ =>
    match label.ty with
    | some array => creationFlaw? symbols id array
        dimensions.length initializer.isSome
    | none => some (.missingType id .arrayCreation)
  | .arrayAccess _ _, _ =>
    match label.ty with
    | some _ => none
    | none => some (.missingType id .arrayAccess)
  | .instanceOf _ _, [_, tested] =>
    if untyped tested then
      some (.missingType tested.id tested.label.shape.tag)
    else
      none
  | _, _ => none

section Constructs

variable {before : Workspace}
variable {id : NodeId}
variable {label : Label}
variable {children : List Placed}

/- Only an assignment to an element can be flawed on the way. -/
private theorem enterFlaw?_eq_none
    (hNone : ∀ target value,
      children = [target, value] →
        elementOperator? label target.label = none) :
    enterFlaw? label children = none := by
  unfold enterFlaw?
  split
  · next target value =>
    rw [hNone target value rfl]
  · rfl

theorem enterFlaw?_of_tag
    (hTag : label.shape.tag ≠ .assignment) :
    enterFlaw? label children = none := by
  apply enterFlaw?_eq_none
  intro target value _
  rw [Option.eq_none_iff_forall_ne_some]
  intro op hSome
  apply hTag
  rw [(elementOperator?_eq_some.mp hSome).1]
  rfl

/- Only few constructs can be flawed on the way up. -/
theorem leaveFlaw?_of_tag
    {symbols : Symbols}
    {untyped : Placed → Bool}
    (hTag : label.shape.tag ∉
      [.arrayCreation, .arrayAccess, .instanceOf]) :
    leaveFlaw? symbols untyped id label children = none := by
  unfold leaveFlaw?
  split
  · next hShape => simp [hShape, NodeKind.tag] at hTag
  · next hShape => simp [hShape, NodeKind.tag] at hTag
  · next hShape => simp [hShape, NodeKind.tag] at hTag
  · rfl

/- An assignment is refused if its element has no type. -/
private theorem judged_lowerAssignment
    (table : BindingTable)
    {op : AssignOp}
    (hShape : label.shape = .assignment op () ())
    (hHolds : before.tree.Holds (.node id label children)) :
    Judged (enterFlaw? label children)
      (lowerAssignment table id) before := by
  rcases hHolds.exists_pair
      (fun _ hIs =>
        NodeKind.eq_assignment_of_shape (hIs.trans hShape))
      (fun _ _ => rfl) with
    ⟨stored, target, value, hNode, rfl, hKind, rfl⟩
  have hTarget := hHolds.child
    (List.mem_cons_self : target ∈ [target, value])
  rcases hTarget.stored with ⟨outer, hOuter, hOuterLabel, _⟩
  unfold lowerAssignment
  refine .after (run_inTree_ok (Tree.node_eq_ok hNode)) ?_
  simp only [hKind]
  refine .after (run_inTree_ok (Tree.node_eq_ok hOuter)) ?_
  by_cases hAccess : target.label.shape = .arrayAccess () ()
  · have hOperator : elementOperator? stored.label
        target.label = some op :=
      elementOperator?_eq_some.mpr ⟨hShape, hAccess⟩
    have hTy : target.label.ty = outer.ty := by
      rw [← hOuterLabel]
      rfl
    rw [← hOuterLabel] at hAccess
    rcases NodeKind.eq_arrayAccess_of_shape hAccess with
      ⟨array, index, hOuterKind⟩
    simp only [hOuterKind]
    refine .nodeType hOuter ?_ ?_
    · intro hNone
      rw [enterFlaw?, hOperator, hTy, hNone, hOuterKind]
      rfl
    · intro ty hSome
      rw [enterFlaw?, hOperator, hTy, hSome]
      refine Never.bind (.onSymbols (.ask _ _)) ?_
      intro primitive after _
      split
      · exact .pure _
      split
      · exact .pure _
      exact .bind (.onTree _ _) fun _ _ _ =>
        .bind (.onTree _ _) fun _ _ _ =>
          .bind (.onSymbols (firm_storeFunction _ _))
            fun _ _ _ =>
              .bind (.onTree _ _) fun _ _ _ =>
                .bind (.onTree _ _) fun _ _ _ =>
                  .bind (.onTree _ _) fun _ _ _ =>
                    .bind (.replace _ _ _)
                      fun _ _ _ => .pure _
  · rw [enterFlaw?_eq_none]
    · cases hOuterKind : outer.kind
      case arrayAccess array index =>
        apply absurd _ hAccess
        rw [← hOuterLabel]
        exact congrArg NodeKind.shape hOuterKind
      all_goals exact Never.pure _
    · intro first second hPair
      cases hPair
      rw [Option.eq_none_iff_forall_ne_some]
      intro op hSome
      exact hAccess (elementOperator?_eq_some.mp hSome).2

/- On the way down, a walk is refused at what is flawed. -/
theorem judged_enter
    (table : BindingTable)
    (hHolds : before.tree.Holds (.node id label children)) :
    Judged (enterFlaw? label children)
      (enter table id label.shape.tag) before := by
  cases hShape : label.shape
  case assignment op lhs rhs =>
    exact judged_lowerAssignment table hShape hHolds
  all_goals
    rw [enterFlaw?_of_tag (by simp [hShape, NodeKind.tag])]
    exact Never.pure _

/- An access is refused if its element has no type. -/
private theorem judged_lowerAccess
    (table : BindingTable)
    (untyped : Placed → Bool)
    (hShape : label.shape = .arrayAccess () ())
    (hHolds : before.tree.Holds (.node id label children)) :
    Judged
      (leaveFlaw? before.symbols untyped id label children)
      (lowerAccess table id) before := by
  rcases hHolds.stored with ⟨stored, hNode, hLabel, _⟩
  rw [Placed.label_node] at hLabel
  subst hLabel
  rcases NodeKind.eq_arrayAccess_of_shape hShape with
    ⟨array, index, hKind⟩
  have hTy : stored.label.ty = stored.ty := rfl
  unfold lowerAccess
  refine .after (run_inTree_ok (Tree.node_eq_ok hNode)) ?_
  simp only [hKind]
  refine .nodeType hNode ?_ ?_
  · intro hNone
    simp only [leaveFlaw?, hShape, hTy, hNone, hKind]
    rfl
  · intro ty hSome
    simp only [leaveFlaw?, hShape, hTy, hSome]
    exact Never.bind (.inTree _ _) fun _ _ _ =>
      .bind (.onSymbols (firm_elementAccess _ _ _))
        fun _ _ _ =>
          .bind (.onTree _ _) fun _ _ _ => .replace _ _ _

/- The length of an array is never refused. -/
private theorem firm_lowerLength (table : BindingTable) :
    Workspace.Firm (lowerLength table id) before := by
  unfold lowerLength
  refine .bind (.inTree _ _) fun node first _ => ?_
  cases memberAccess? node.kind with
  | none => exact .pure _
  | some pair =>
      rcases pair with ⟨operand, name⟩
      have hName : Workspace.Firm (isLengthName name) first := by
        unfold isLengthName
        refine .bind (.inTree _ _) fun node second _ => ?_
        split
        · exact .onSymbols (.bind (.ask _ _)
            fun _ _ _ => .pure _)
        · exact .pure _
      refine .bind hName fun length second _ => ?_
      split
      · have hComponent : Workspace.Firm
            (operandComponent? operand) second := by
          unfold operandComponent?
          refine .bind (.inTree _ _) fun node third _ => ?_
          split
          · exact .onSymbols (.ask _ _)
          · exact .pure _
        refine .bind hComponent fun component third _ => ?_
        cases component with
        | none => exact .pure _
        | some component =>
            exact .bind (.onSymbols (firm_sizeAccess _ _))
              fun _ _ _ =>
                .bind (.onTree _ _) fun _ _ _ =>
                  .replace _ _ _
      · exact .pure _

/- A test is refused if what it tests against has no type. -/
private theorem judged_lowerTypeTest
    (table : BindingTable)
    (hShape : label.shape = .instanceOf () ())
    (hHolds : before.tree.Holds (.node id label children)) :
    Judged
      (leaveFlaw? before.symbols (·.label.ty.isNone) id label
        children)
      (lowerTypeTest table id) before := by
  rcases hHolds.exists_pair
      (fun _ hIs =>
        NodeKind.eq_instanceOf_of_shape (hIs.trans hShape))
      (fun _ _ => rfl) with
    ⟨stored, value, tested, hNode, rfl, hKind, rfl⟩
  have hTested : before.tree.Holds tested :=
    hHolds.child (by simp)
  rcases hTested.stored with ⟨outer, hOuter, hOuterLabel, _⟩
  have hTy : tested.label.ty = outer.ty := by
    rw [← hOuterLabel]
    rfl
  have hTag : tested.label.shape.tag = outer.kind.tag := by
    rw [← hOuterLabel]
    exact outer.kind.tag_shape
  unfold lowerTypeTest
  refine .after (run_inTree_ok (Tree.node_eq_ok hNode)) ?_
  simp only [hKind]
  refine .nodeType hOuter ?_ ?_
  · intro hNone
    simp only [leaveFlaw?, hShape, hTy, hNone, hTag]
    rfl
  · intro ty hSome
    simp only [leaveFlaw?, hShape, hTy, hSome]
    refine Never.bind (.onSymbols (firm_isObjectArray _)) ?_
    intro array second _
    split
    · exact .bind (.onSymbols (firm_typeTest _ _))
        fun _ _ _ =>
          .bind (.onTree _ _) fun _ _ _ => .replace _ _ _
    · exact .pure _

/- A creation is refused if its type does not fit its form. -/
private theorem judged_lowerCreation
    (table : BindingTable)
    (options : Options)
    (untyped : Placed → Bool)
    {dimensions : List Unit}
    {initializer : Option Unit}
    {marked : Bool}
    (hShape : label.shape =
      .arrayCreation dimensions initializer marked)
    (hReady : before.symbols.Ready)
    (hStanding : before.tree.Standing (.node id label children))
    (hLive : ∀ ty, label.ty = some ty →
      before.symbols.cache.Live ty) :
    Judged
      (leaveFlaw? before.symbols untyped id label children)
      (lowerCreation table options id) before := by
  rcases hStanding.holds.stored with
    ⟨stored, hNode, hLabel, hListed⟩
  rw [Placed.label_node] at hLabel
  rw [Placed.children_node] at hListed
  subst hLabel
  rcases NodeKind.eq_arrayCreation_of_shape hShape with
    ⟨dimensionIds, initializerId, hKind, rfl, rfl⟩
  rw [hKind] at hListed
  have hTy : stored.label.ty = stored.ty := rfl
  unfold lowerCreation
  refine .after (run_inTree_ok (Tree.node_eq_ok hNode)) ?_
  simp only [hKind]
  refine .nodeType hNode ?_ ?_
  · intro hNone
    simp only [leaveFlaw?, hShape, hTy, hNone, hKind]
    rfl
  · intro array hSome
    have hArray := hLive array hSome
    simp only [leaveFlaw?, hShape, hTy, hSome, List.length_map]
    rcases dimension_children hListed with
      ⟨lengths, values, rfl, rfl, hValues⟩
    cases initializerId with
    | some initializerId =>
        rcases values with _ | ⟨initializer, rest⟩
        · simp at hValues
        simp only [Option.toList_some, List.map_cons,
          List.cons.injEq] at hValues
        rcases hValues with ⟨rfl, _⟩
        have hInitializer : before.tree.Standing initializer :=
          hStanding.child (by simp)
        rcases list_elements hInitializer.holds
            hInitializer.nodup with ⟨sources, hList, _⟩
        have hFlaw : creationFlaw? before.symbols id array
            lengths.length true =
              arrayFlaw? before.symbols id array := by
          rcases lengths with _ | ⟨_, _ | ⟨_, _⟩⟩ <;> rfl
        rw [List.length_map]
        simp only [Option.map_some, Option.isSome_some, hFlaw]
        refine .after (run_inTree_ok hList) ?_
        refine (Judged.onSymbols (judged_initializedFactory
          hReady hArray table id _)).bind ?_
        exact fun _ _ _ =>
          .bind (.onTree _ _) fun _ _ _ => .replace _ _ _
    | none =>
        rcases lengths with _ | ⟨first, _ | ⟨second, rest⟩⟩
        · exact rfl
        · refine (Judged.onSymbols (judged_lengthFactory
            hArray table id _)).bind ?_
          exact fun _ _ _ =>
            .bind (.onTree _ _) fun _ _ _ => .replace _ _ _
        · simp only [List.map_cons, List.length_cons,
            List.length_map, creationFlaw?, Option.map_none,
            Option.isSome_none]
          refine (Judged.onSymbols (judged_lengthsFactory
            hArray table id _ _)).bind ?_
          exact fun _ _ _ =>
            .bind (.onTree _ _) fun _ _ _ => .replace _ _ _

/-
  On the way up, a walk is refused at what is flawed, by which
  of the lowered children have a type.
-/
theorem judged_leave
    (table : BindingTable)
    (options : Options)
    (hAt : before.At (.node id label children))
    (hLive : ∀ ty, label.ty = some ty →
      before.symbols.cache.Live ty) :
    Judged
      (leaveFlaw? before.symbols (·.label.ty.isNone) id label
        children)
      (leave table options id label.shape.tag) before := by
  have hHolds := hAt.standing.holds
  cases hShape : label.shape
  case arrayCreation dimensions initializer marked =>
    exact judged_lowerCreation table options _ hShape hAt.ready
      hAt.standing hLive
  case arrayAccess array index =>
    exact judged_lowerAccess table _ hShape hHolds
  case instanceOf value tested =>
    exact judged_lowerTypeTest table hShape hHolds
  case fieldAccess expression name =>
    simp only [leaveFlaw?, hShape]
    exact firm_lowerLength table
  case qualifiedName qualifier name =>
    simp only [leaveFlaw?, hShape]
    exact firm_lowerLength table
  all_goals
    simp only [leaveFlaw?, hShape]
    exact Never.pure _

end Constructs

end Arrays

end Lowering
