import Lowering.Proofs.Arrays.Steps

/-
  This file proves what lowering does at a node whose children
  have been lowered: what then stands in its place is what the
  lowering of views makes of it. There is one theorem for each
  construct on arrays.

  Main results:
    * `Arrays.walks_lowerAccess`
    * `Arrays.walks_lowerLength`
    * `Arrays.walks_lowerTypeTest`
    * `Arrays.walks_lowerCreation`
    * `Arrays.walks_leave`
-/

namespace Lowering

namespace Arrays

open Symbols

variable {safe : Prop}
variable {before : Workspace}
variable {id : NodeId}
variable {label : Label}
variable {children : List Placed}

/-
  The walk is back at a node, all of whose children have been
  lowered.
-/
structure Back
    (safe : Prop)
    (before : Workspace)
    (id : NodeId)
    (label : Label)
    (children : List Placed) : Prop where
  here : before.At (.node id label children)
  safe_label : safe → label.Safe before.cache
  safe_children : safe → ∀ child ∈ children,
    child.label.Safe before.cache

namespace Back

theorem stored
    (hBack : Back safe before id label children) :
    ∃ stored,
      before.tree.get? id = some stored ∧
        stored.label = label ∧
        stored.kind.children = children.map (·.id) :=
  hBack.here.standing.holds.stored

theorem standing_child
    (hBack : Back safe before id label children)
    {child : Placed}
    (hMem : child ∈ children) :
    before.tree.Standing child :=
  hBack.here.standing.child hMem

/- The places of a child can be moved. -/
theorem moved
    (hBack : Back safe before id label children)
    {child : Placed}
    (hMem : child ∈ children)
    (n : NodeId)
    (hIn : n ∈ child.ids) :
    n ∈ (Placed.node id label children).ids ∧ n ≠ id := by
  refine ⟨Placed.ids_child_subset hMem hIn, ?_⟩
  intro hEq
  have hNodup := hBack.here.standing.nodup
  rw [Placed.ids_node, List.nodup_cons] at hNodup
  rw [hEq] at hIn
  exact hNodup.1 (Placed.ids_subset_idsAll hMem hIn)

/- A construct may turn out to be none. -/
theorem idle
    (hBack : Back safe before id label children)
    {lookup : Symbols → Option View}
    (hLookup : lookup before.symbols =
      some (.node label (children.map (·.view)))) :
    Walks safe (pure ()) before (.node id label children)
      lookup := by
  apply Walks.idle hBack.here
  · rw [Placed.view_node]
    exact hLookup
  · exact hBack.safe_label

end Back

------------------------------------------------------------
-- Elements
------------------------------------------------------------

/-
  An access to an element has the type of the element, whether
  read or reached through a pointer.
-/
theorem ty_elementAccess?
    {symbols : Symbols}
    {component : TypeId}
    {assigned : Bool}
    {access : ElementAccess}
    (hAccess : elementAccess? symbols component assigned =
      some access) :
    access.target = some component ∨
      access.target = none ∧ access.ty = component := by
  unfold elementAccess? accessForm? at hAccess
  simp only [Option.bind_eq_bind, Option.bind_eq_some_iff]
    at hAccess
  rcases hAccess with
    ⟨cls, _, text, _, primitive, _, form, hForm, classType, _,
      int, _, name, _, hLast⟩
  rw [← Option.some.inj hLast]
  cases assigned with
  | true => exact Or.inl rfl
  | false =>
      right
      rw [← Option.some.inj hForm]
      exact ⟨rfl, rfl⟩

/- The call by which an element is reached has its type. -/
theorem ty_view_of_elementAccess?
    {symbols : Symbols}
    {component : TypeId}
    {assigned : Bool}
    {access : ElementAccess}
    {array index : View}
    (hAccess : elementAccess? symbols component assigned =
      some access) :
    (access.view array index).ty = some component := by
  rw [access.ty_view]
  rcases ty_elementAccess? hAccess with
    hTarget | ⟨hTarget, hSame⟩
  · rw [hTarget]
    rfl
  · rw [hTarget, hSame]
    rfl

private theorem safe_elementAccess
    {cache : Cache}
    {symbols : Symbols}
    {component : TypeId}
    {assigned : Bool}
    {access : ElementAccess}
    (hAccess : elementAccess? symbols component assigned =
      some access)
    (hLive : cache.Live component)
    (array index : View) :
    (access.view array index).label.Safe cache := by
  unfold ElementAccess.view
  rcases ty_elementAccess? hAccess with
    hTarget | ⟨hTarget, hTy⟩
  · rw [hTarget]
    refine ⟨?_, ?_⟩
    · intro ty hSome
      cases hSome
      exact hLive
    · intro identifier hName
      exact absurd hName (by nofun)
  · rw [hTarget]
    refine ⟨?_, ?_⟩
    · intro ty hSome
      cases hSome
      rw [hTy]
      exact hLive
    · intro identifier hName
      exact absurd hName (by nofun)

/- An access to an element becomes a call. -/
theorem walks_lowerAccess
    (table : BindingTable)
    (options : Options)
    {assigned : Bool}
    (hBack : Back safe before id label children)
    (hShape : label.shape = .arrayAccess () ())
    (hAssigned : before.tree.isAssigned id = .ok assigned) :
    Walks safe (lowerAccess table id) before
      (.node id label children)
      (finish? · table options assigned label
        (children.map (·.view))) := by
  rcases hBack.here.standing.holds.exists_pair
      (fun _ hFound =>
        NodeKind.eq_arrayAccess_of_shape (hFound.trans hShape))
      (fun _ _ => rfl) with
    ⟨stored, array, index, hStored, hLabel, hKind, rfl⟩
  subst hLabel
  unfold lowerAccess
  apply Walks.inTree (Tree.node_eq_ok hStored)
  simp only [hKind]
  apply Walks.nodeType hStored
  intro component hTy
  apply Walks.inTree hAssigned
  have hLive : safe → before.symbols.cache.Live component :=
    fun hSafe => (hBack.safe_label hSafe).live component hTy
  apply Walks.choose
    (chooses_elementAccess hBack.here.ready table hLive
      assigned)
  intro access symbols hGrown hReady hAccess
  apply Walks.ofMakes (hBack.here.withSymbols hReady)
    (makes_elementAccess access
      (hBack.standing_child (by simp))
      (hBack.standing_child (by simp)))
  · simp
  · unfold finish?
    simp only [hShape, List.map_cons, List.map_nil]
    show (do
      let component ← stored.ty
      let access ← elementAccess? symbols component assigned
      some (access.view array.view index.view)) = _
    rw [hTy]
    show (do
      let access ← elementAccess? symbols component assigned
      some (access.view array.view index.view)) = _
    rw [hAccess]
    rfl
  · rw [access.ty_view]
    rfl
  · intro hSafe
    exact safe_elementAccess hAccess
      ((hLive hSafe).mono hGrown.cache) _ _

------------------------------------------------------------
-- Lengths
------------------------------------------------------------

/- Whether an identifier reads `length`. -/
private theorem chooses_isLength
    {symbols : Symbols}
    (hReady : symbols.Ready)
    {identifier : Name}
    (hNamed : safe →
      (symbols.cache.names.text? identifier).isSome) :
    Chooses safe (isLength identifier) symbols fun symbols =>
      (symbols.text? identifier).map (· = "length") := by
  have hAsk : Chooses safe (ask (·.nameText identifier))
      symbols (·.text? identifier) := by
    apply Chooses.ask hReady
    · intro hSafe
      rcases Option.isSome_iff_exists.mp (hNamed hSafe) with
        ⟨text, hText⟩
      refine ⟨text, ?_⟩
      unfold Cache.nameText Interner.lookup
      rw [hText]
      rfl
    · intro text hText
      unfold Cache.nameText Interner.lookup at hText
      cases hFound :
          symbols.cache.names.text? identifier with
      | none =>
          rw [hFound] at hText
          exact absurd hText (by nofun)
      | some found =>
          rw [hFound] at hText
          cases hText
          exact hFound
  unfold isLength
  apply Completes.bind hAsk
  intro text later hPost
  rcases hPost with ⟨hGrown, hLater, hFound⟩
  refine ⟨hGrown, hLater, ?_⟩
  exact Option.map_eq_some_iff.mpr ⟨text, hFound, rfl⟩

/- Whether a node is the simple name `length`, before a step. -/
private theorem walks_isLengthName
    {old name : Placed}
    {next : Bool → LowerM Unit}
    {lookup : Symbols → Option View}
    (hReady : before.symbols.Ready)
    (hName : before.tree.Holds name)
    (hSafe : safe → name.label.Safe before.cache)
    (hNext : ∀ length symbols,
      before.symbols.Grown symbols → symbols.Ready →
        isLength? symbols name.view = some length →
          Walks safe (next length)
            (before.withSymbols symbols) old lookup) :
    Walks safe (isLengthName name.id >>= next)
      before old lookup := by
  rcases hName.stored with ⟨stored, hStored, hLabel, _⟩
  have hShape : name.view.label.shape = stored.kind.shape := by
    rw [Placed.label_view, ← hLabel]
    rfl
  unfold isLengthName
  rw [bind_assoc]
  apply Walks.inTree (Tree.node_eq_ok hStored)
  unfold isLength? at hNext
  rw [hShape] at hNext
  cases hKind : stored.kind
  case simpleName identifier =>
      simp only [hKind, NodeKind.shape] at hNext ⊢
      apply Walks.choose (chooses_isLength hReady ?_) hNext
      intro hIsSafe
      apply (hSafe hIsSafe).named
      rw [← Placed.label_view, hShape, hKind]
      rfl
  all_goals
    simp only [hKind, NodeKind.shape] at hNext ⊢
    exact hNext false before.symbols (Grown.refl _) hReady rfl

/- The component of the array that a node denotes, before a step. -/
private theorem walks_operandComponent
    {old operand : Placed}
    {next : Option TypeId → LowerM Unit}
    {lookup : Symbols → Option View}
    (hReady : before.symbols.Ready)
    (hOperand : before.tree.Holds operand)
    (hSafe : safe → operand.label.Safe before.cache)
    (hNext : ∀ component symbols,
      before.symbols.Grown symbols → symbols.Ready →
        arrayOperand? symbols operand.view = some component →
          Walks safe (next component)
            (before.withSymbols symbols) old lookup) :
    Walks safe (operandComponent? operand.id >>= next)
      before old lookup := by
  rcases hOperand.stored with ⟨stored, hStored, hLabel, _⟩
  have hTy : operand.view.ty = stored.ty := by
    rw [Placed.ty_view, ← hLabel]
    rfl
  unfold operandComponent?
  rw [bind_assoc]
  apply Walks.inTree (Tree.node_eq_ok hStored)
  unfold arrayOperand? at hNext
  rw [hTy] at hNext
  cases hSome : stored.ty with
  | none =>
      simp only [hSome] at hNext ⊢
      exact hNext none before.symbols (Grown.refl _) hReady rfl
  | some ty =>
      simp only [hSome] at hNext ⊢
      apply Walks.choose (chooses_componentType hReady ?_) hNext
      intro hIsSafe
      apply (hSafe hIsSafe).live
      rw [← Placed.ty_view, hTy, hSome]

private theorem live_arrayOperand?
    {symbols : Symbols}
    {operand : Placed}
    {component : TypeId}
    (hSafe : operand.label.Safe symbols.cache)
    (hFound : arrayOperand? symbols operand.view =
      some (some component)) :
    symbols.cache.Live component := by
  unfold arrayOperand? at hFound
  rw [Placed.ty_view] at hFound
  cases hTy : operand.label.ty with
  | none =>
      rw [hTy] at hFound
      exact absurd hFound (by simp)
  | some ty =>
      rw [hTy] at hFound
      have hComponent : componentType? symbols ty =
          some (some component) := hFound
      apply live_component? (hSafe.live ty hTy)
      unfold component?
      rw [hComponent]
      rfl

private theorem safe_sizeAccess
    {symbols : Symbols}
    {component : TypeId}
    {access : SizeAccess}
    (hReady : symbols.Ready)
    (hAccess : sizeAccess? symbols component = some access)
    (array : View) :
    (access.view array).label.Safe symbols.cache := by
  unfold sizeAccess? at hAccess
  simp only [Option.bind_eq_bind, Option.bind_eq_some_iff]
    at hAccess
  rcases hAccess with
    ⟨cls, _, field, _, int, hInt, name, _, hLast⟩
  rw [← Option.some.inj hLast]
  refine ⟨?_, ?_⟩
  · intro ty hSome
    cases hSome
    exact hReady.live_primitiveType? hInt
  · intro identifier hName
    exact absurd hName (by nofun)

/- The length of an array becomes the field for its size. -/
theorem walks_lowerLength
    (table : BindingTable)
    {operand name : Placed}
    (hBack : Back safe before id label [operand, name])
    (hMember : ∀ stored,
      before.tree.get? id = some stored →
        memberAccess? stored.kind =
          some (operand.id, name.id)) :
    Walks safe (lowerLength table id) before
      (.node id label [operand, name])
      (member? · label operand.view name.view) := by
  rcases hBack.stored with ⟨stored, hStored, _, _⟩
  have hReady := hBack.here.ready
  unfold lowerLength
  apply Walks.inTree (Tree.node_eq_ok hStored)
  simp only [hMember stored hStored]
  apply walks_isLengthName hReady
    (hBack.standing_child (by simp)).holds
    fun hSafe => hBack.safe_children hSafe name (by simp)
  intro length first hGrown hFirst hLength
  have hHere := hBack.here.withSymbols hFirst
  have hOperand : safe → operand.label.Safe first.cache :=
    fun hSafe => (hBack.safe_children hSafe operand
      (by simp)).mono hGrown.cache
  have hLabel : safe → label.Safe first.cache :=
    fun hSafe => (hBack.safe_label hSafe).mono hGrown.cache
  unfold member?
  refine Walks.known (stable_isLength? name.view) hLength ?_
  cases length with
  | false =>
      simp only [Bool.false_eq_true, if_false]
      exact Walks.idle hHere (by simp) hLabel
  | true =>
      simp only [if_true]
      refine walks_operandComponent hFirst
        (hBack.standing_child (by simp)).holds hOperand ?_
      intro component second hGrown₂ hSecond hComponent
      have hHere₂ := hHere.withSymbols hSecond
      refine Walks.known (stable_arrayOperand? operand.view)
        hComponent ?_
      cases component with
      | none =>
          simp only []
          apply Walks.idle hHere₂ (by simp)
          intro hSafe
          exact (hLabel hSafe).mono hGrown₂.cache
      | some component =>
          simp only []
          refine Walks.choose
            (chooses_sizeAccess hSecond table ?_) ?_
          · intro hSafe
            exact live_arrayOperand?
              ((hOperand hSafe).mono hGrown₂.cache) hComponent
          · intro access third _ hThird hAccess
            apply Walks.ofMakes (hHere₂.withSymbols hThird)
              (makes_sizeAccess access
                (hBack.standing_child (by simp)))
            · exact fun n hIn => hBack.moved (by simp) n hIn
            · exact Option.bind_eq_some_iff.mpr
                ⟨access, hAccess, rfl⟩
            · rfl
            · exact fun _ =>
                safe_sizeAccess hThird hAccess operand.view

------------------------------------------------------------
-- Type Tests
------------------------------------------------------------

private theorem safe_typeTest
    {symbols : Symbols}
    {ty : TypeId}
    {test : TypeTest}
    (hReady : symbols.Ready)
    (hTest : typeTest? symbols ty = some test)
    (value : View) :
    (test.view value).label.Safe symbols.cache := by
  unfold typeTest? at hTest
  simp only [Option.bind_eq_bind, Option.bind_eq_some_iff]
    at hTest
  rcases hTest with
    ⟨boolean, hBoolean, method, _, object, _, hLast⟩
  rw [← Option.some.inj hLast]
  refine ⟨?_, ?_⟩
  · intro ty hSome
    cases hSome
    exact hReady.live_primitiveType? hBoolean
  · intro identifier hName
    exact absurd hName (by nofun)

/- A test against an array of objects asks its class object. -/
theorem walks_lowerTypeTest
    (table : BindingTable)
    {value tested : Placed}
    (hBack : Back safe before id label [value, tested])
    (hShape : label.shape = .instanceOf () ()) :
    Walks safe (lowerTypeTest table id) before
      (.node id label [value, tested])
      (tested? · label value.view tested.view) := by
  rcases hBack.stored with ⟨stored, hStored, hLabel, hListed⟩
  subst hLabel
  rcases NodeKind.eq_instanceOf_of_shape hShape with
    ⟨valueId, testedId, hKind⟩
  rw [hKind] at hListed
  simp only [NodeKind.children, List.map_cons, List.map_nil,
    List.cons.injEq, and_true] at hListed
  rcases hListed with ⟨rfl, rfl⟩
  have hTested : tested ∈ [value, tested] := by simp
  rcases (hBack.standing_child hTested).holds.stored with
    ⟨node, hNode, hTestedLabel, _⟩
  have hReady := hBack.here.ready
  unfold lowerTypeTest
  apply Walks.inTree (Tree.node_eq_ok hStored)
  simp only [hKind]
  apply Walks.nodeType hNode
  intro ty hTy
  have hTestedTy : tested.view.ty = some ty := by
    rw [Placed.ty_view, ← hTestedLabel]
    exact hTy
  unfold tested?
  refine Walks.known (stable_pure tested.view.ty) hTestedTy ?_
  refine Walks.choose (chooses_isObjectArray hReady ?_) ?_
  · intro hSafe
    apply (hBack.safe_children hSafe tested hTested).live
    rw [← Placed.ty_view]
    exact hTestedTy
  · intro array first hGrown hFirst hArray
    have hHere := hBack.here.withSymbols hFirst
    refine Walks.known (stable_isObjectArray? ty) hArray ?_
    cases array with
    | false =>
        simp only [Bool.false_eq_true, if_false]
        apply Walks.idle hHere (by simp)
        intro hSafe
        exact (hBack.safe_label hSafe).mono hGrown.cache
    | true =>
        simp only [if_true]
        refine Walks.choose
          (chooses_typeTest hFirst table ty) ?_
        intro test second _ hSecond hTest
        apply Walks.ofMakes (hHere.withSymbols hSecond)
          (makes_typeTest test
            (hBack.standing_child (by simp)))
        · exact fun n hIn => hBack.moved (by simp) n hIn
        · exact Option.bind_eq_some_iff.mpr
            ⟨test, hTest, rfl⟩
        · rfl
        · exact fun _ => safe_typeTest hSecond hTest value.view

------------------------------------------------------------
-- Creations
------------------------------------------------------------

/- The expressions that an initializer lists in the store. -/
theorem list_elements
    {tree : Tree}
    {initializer : Placed}
    (hHolds : tree.Holds initializer)
    (hNodup : initializer.ids.Nodup) :
    ∃ sources,
      tree.list initializer.id .expressions =
          .ok (sources.map (·.id)) ∧
        elements initializer.view = sources.map (·.view) ∧
        (∀ source ∈ sources, tree.Holds source) ∧
        (Placed.idsAll sources).Nodup := by
  rcases hHolds.stored with
    ⟨stored, hStored, hLabel, hListed⟩
  have hShape : initializer.view.label.shape =
      stored.kind.shape := by
    rw [Placed.label_view, ← hLabel]
    rfl
  have hList : tree.list initializer.id .expressions =
      .ok ((stored.kind.list? .expressions).getD []) := by
    unfold Tree.list
    rw [Tree.node_eq_ok hStored]
    rfl
  unfold elements
  rw [hList, hShape]
  cases hKind : stored.kind
  case arrayInitializer expressions =>
      cases initializer with
      | node id label children =>
          rw [Placed.ids_node, List.nodup_cons] at hNodup
          rw [hKind] at hListed
          refine ⟨children, ?_, ?_, ?_, hNodup.2⟩
          · exact congrArg Except.ok hListed
          · simp [NodeKind.shape, View.children]
          · intro source hMem
            exact hHolds.child hMem
  all_goals
    refine ⟨[], rfl, rfl, ?_, ?_⟩
    · simp
    · simp

/- A factory answers the array that is created. -/
private theorem ty_factory?
    {symbols : Symbols}
    {array component : TypeId}
    {selector : String}
    {primitive : Bool}
    {factory : Factory}
    (hFactory : factory? symbols array component selector
      primitive = some factory) :
    factory.call.ty = array := by
  unfold factory? at hFactory
  simp only [Option.bind_eq_bind, Option.bind_eq_some_iff]
    at hFactory
  rcases hFactory with
    ⟨cls, _, int, _, method, _, object, _, receiver, _, hLast⟩
  rw [← Option.some.inj hLast]

/- The call of a factory has the type of the new array. -/
private theorem safe_factory
    {cache : Cache}
    {factory : Factory}
    (hLive : cache.Live factory.call.ty)
    (arguments : List View) :
    (factory.view arguments).label.Safe cache := by
  have hCall (arguments : List View) :
      (factory.call.view arguments).label.Safe cache := by
    refine ⟨?_, ?_⟩
    · intro ty hSome
      cases hSome
      exact hLive
    · intro identifier hName
      exact absurd hName (by nofun)
  unfold Factory.view
  cases factory.object with
  | none => exact hCall arguments
  | some object => exact hCall (arguments ++ [object.view])

section Creations

variable (table : BindingTable)
variable {old : Placed}
variable {array : TypeId}

private theorem ty_initializedFactory?
    {symbols : Symbols}
    {retained : Bool}
    {factory : Factory}
    (hFactory : initializedFactory? symbols array retained =
      some factory) :
    factory.call.ty = array := by
  unfold initializedFactory? at hFactory
  simp only [Option.bind_eq_bind, Option.bind_eq_some_iff]
    at hFactory
  rcases hFactory with ⟨_, _, _, _, _, _, hFactory⟩
  exact ty_factory? hFactory

private theorem ty_lengthFactory?
    {symbols : Symbols}
    {retained : Bool}
    {factory : Factory}
    (hFactory : lengthFactory? symbols array retained =
      some factory) :
    factory.call.ty = array := by
  unfold lengthFactory? at hFactory
  simp only [Option.bind_eq_bind, Option.bind_eq_some_iff]
    at hFactory
  rcases hFactory with ⟨_, _, _, _, hFactory⟩
  exact ty_factory? hFactory

private theorem ty_lengthsFactory?
    {symbols : Symbols}
    {dimensions : Nat}
    {retained : Bool}
    {nested : NestedFactory}
    (hNested : lengthsFactory? symbols table array dimensions
      retained = some nested) :
    nested.call.ty = array := by
  unfold lengthsFactory? at hNested
  simp only [Option.bind_eq_bind, Option.bind_eq_some_iff]
    at hNested
  rcases hNested with
    ⟨_, _, _, _, factory, hFactory, _, _, hLast⟩
  rw [← Option.some.inj hLast]
  exact ty_factory? hFactory

/- A creation from the elements of an initializer. -/
private theorem walks_initialized
    {initializer : Placed}
    (hAt : before.At old)
    (hInitializer : before.tree.Standing initializer)
    (hLive : safe → before.symbols.cache.Live array)
    (retained : Bool)
    (dimensions : List View) :
    Walks safe
      (do
        let elements ←
          Workspace.inTree (·.list initializer.id .expressions)
        let factory ←
          initializedFactory table old.id array retained
        let call ← factory.buildInitialized elements
        Workspace.replace old.id call)
      before old
      (creation? · table array retained dimensions
        (some initializer.view)) := by
  rcases list_elements hInitializer.holds
      hInitializer.nodup with
    ⟨sources, hList, hElements, hSources, hNodup⟩
  apply Walks.inTree hList
  apply Walks.choose
    (chooses_initializedFactory hAt.ready table old.id hLive
      retained)
  intro factory symbols hGrown hReady hFactory
  apply Walks.ofMakes (hAt.withSymbols hReady)
    (makes_initialized factory hSources hNodup)
  · simp
  · refine Option.bind_eq_some_iff.mpr
      ⟨factory, hFactory, ?_⟩
    rw [hElements]
  · exact congrArg Option.isSome (factory.ty_view _)
  · intro hSafe
    apply safe_factory
    rw [ty_initializedFactory? hFactory]
    exact (hLive hSafe).mono hGrown.cache

/- A creation from one length. -/
private theorem walks_ofLength
    {length : Placed}
    (hAt : before.At old)
    (hLength : before.tree.Standing length)
    (hLive : safe → before.symbols.cache.Live array)
    (retained : Bool) :
    Walks safe
      (do
        let factory ← lengthFactory table old.id array retained
        let call ← factory.buildOfLength length.id
        Workspace.replace old.id call)
      before old
      (creation? · table array retained [length.view]
        none) := by
  apply Walks.choose
    (chooses_lengthFactory hAt.ready table old.id hLive
      retained)
  intro factory symbols hGrown hReady hFactory
  apply Walks.ofMakes (hAt.withSymbols hReady)
    (makes_ofLength factory hLength)
  · simp
  · exact Option.bind_eq_some_iff.mpr ⟨factory, hFactory, rfl⟩
  · exact congrArg Option.isSome (factory.ty_view _)
  · intro hSafe
    apply safe_factory
    rw [ty_lengthFactory? hFactory]
    exact (hLive hSafe).mono hGrown.cache

/- A creation from several lengths. -/
private theorem walks_nested
    {first second : Placed}
    {rest : List Placed}
    (hAt : before.At old)
    (hLengths : ∀ length ∈ first :: second :: rest,
      before.tree.Holds length)
    (hNodup : (Placed.idsAll (first :: second :: rest)).Nodup)
    (hLive : safe → before.symbols.cache.Live array)
    (retained : Bool) :
    Walks safe
      (do
        let factory ← lengthsFactory table old.id array
          (rest.length + 2) retained
        let call ← factory.build
          ((first :: second :: rest).map (·.id))
        Workspace.replace old.id call)
      before old
      (creation? · table array retained
        ((first :: second :: rest).map (·.view)) none) := by
  apply Walks.choose
    (chooses_lengthsFactory hAt.ready table old.id hLive
      (rest.length + 2) retained)
  intro nested symbols hGrown hReady hNested
  apply Walks.ofMakes (hAt.withSymbols hReady)
    (makes_nested nested hLengths hNodup)
  · simp
  · refine Option.bind_eq_some_iff.mpr ⟨nested, ?_, rfl⟩
    simp only [List.length_cons, List.length_map]
    exact hNested
  · exact congrArg Option.isSome (nested.toFactory.ty_view _)
  · intro hSafe
    apply safe_factory
    rw [ty_lengthsFactory? table hNested]
    exact (hLive hSafe).mono hGrown.cache

/- The children of a creation, told apart. -/
theorem dimension_children
    {dimensions : List NodeId}
    {initializer : Option NodeId}
    {marked : Bool}
    (hListed :
      (NodeKind.arrayCreation dimensions initializer
        marked).children =
          children.map fun child : Placed => child.id) :
    ∃ lengths values,
      children = lengths ++ values ∧
        dimensions = lengths.map (·.id) ∧
        initializer.toList = values.map (·.id) := by
  rcases List.map_eq_append_iff.mp hListed.symm with
    ⟨lengths, values, hChildren, hLengths, hValues⟩
  exact ⟨lengths, values, hChildren, hLengths.symm,
    hValues.symm⟩

/- An array creation becomes the call of a factory. -/
theorem walks_lowerCreation
    (options : Options)
    (assigned : Bool)
    {dimensions : List Unit}
    {initializer : Option Unit}
    {marked : Bool}
    (hBack : Back safe before id label children)
    (hShape : label.shape =
      .arrayCreation dimensions initializer marked) :
    Walks safe (lowerCreation table options id) before
      (.node id label children)
      (finish? · table options assigned label
        (children.map (·.view))) := by
  rcases hBack.stored with ⟨stored, hStored, hLabel, hListed⟩
  subst hLabel
  rcases NodeKind.eq_arrayCreation_of_shape hShape with
    ⟨dimensionIds, initializerId, hKind, rfl, rfl⟩
  rw [hKind] at hListed
  unfold lowerCreation finish?
  simp only [hShape]
  apply Walks.inTree (Tree.node_eq_ok hStored)
  simp only [hKind]
  apply Walks.nodeType hStored
  intro array hTy
  refine Walks.known (stable_pure stored.label.ty) hTy ?_
  have hLive : safe → before.symbols.cache.Live array :=
    fun hSafe => (hBack.safe_label hSafe).live array hTy
  rcases dimension_children hListed with
    ⟨lengths, values, rfl, rfl, hValues⟩
  cases initializerId with
  | some initializerId =>
      rcases values with _ | ⟨initializer, _ | ⟨second, rest⟩⟩
      · simp at hValues
      · simp only [Option.toList_some, List.map_cons,
          List.map_nil, List.cons.injEq, and_true] at hValues
        subst hValues
        have hMem : initializer ∈ lengths ++ [initializer] := by
          simp
        simp only [Option.map_some, Option.bind_some,
          List.length_map, List.map_append, List.map_cons,
          List.map_nil]
        rw [List.getElem?_append_right (by simp)]
        simp only [List.length_map, Nat.sub_self,
          List.getElem?_cons_zero]
        exact walks_initialized table hBack.here
          (hBack.standing_child hMem) hLive _ _
      · simp at hValues
  | none =>
      have hNone : values = [] := by
        simpa using hValues
      subst hNone
      have hHeld := hBack.here.standing.holds
      have hNodup := hBack.here.standing.nodup
      rw [Placed.ids_node, List.nodup_cons] at hNodup
      simp only [Option.map_none, Option.bind_none,
        List.length_map, List.append_nil] at hBack hHeld hNodup ⊢
      rw [List.take_of_length_le (by simp)]
      rcases lengths with _ | ⟨first, _ | ⟨second, rest⟩⟩
      · exact Walks.refuse _ _
      · exact walks_ofLength table hBack.here
          (hBack.standing_child (by simp)) hLive _
      · exact walks_nested table hBack.here
          (fun length hMem => hHeld.child hMem) hNodup.2 hLive _

end Creations

------------------------------------------------------------
-- All Constructs
------------------------------------------------------------

section Leave

variable (table : BindingTable)
variable (options : Options)
variable (assigned : Bool)

private theorem walks_leave_member
    (hBack : Back safe before id label children)
    (hShape : label.shape = .fieldAccess () () ∨
      label.shape = .qualifiedName () ()) :
    Walks safe (lowerLength table id) before
      (.node id label children)
      (finish? · table options assigned label
        (children.map (·.view))) := by
  rcases hBack.stored with ⟨stored, hStored, hLabel, _⟩
  have hKind : stored.kind.shape = .fieldAccess () () ∨
      stored.kind.shape = .qualifiedName () () := by
    rw [← hLabel] at hShape
    exact hShape
  rcases memberAccess?_of_shape hKind with
    ⟨operandId, nameId, hMember, hPair⟩
  rcases hBack.here.standing.holds.pair hStored hPair with
    ⟨operand, name, rfl, rfl, rfl⟩
  have hLength := walks_lowerLength table hBack
    fun found hFound => by
      rw [hStored] at hFound
      cases hFound
      exact hMember
  unfold finish?
  rcases hShape with hField | hQualified
  · simp only [hField, List.map_cons, List.map_nil]
    exact hLength
  · simp only [hQualified, List.map_cons, List.map_nil]
    exact hLength

private theorem walks_leave_instanceOf
    (hBack : Back safe before id label children)
    (hShape : label.shape = .instanceOf () ()) :
    Walks safe (lowerTypeTest table id) before
      (.node id label children)
      (finish? · table options assigned label
        (children.map (·.view))) := by
  rcases hBack.here.standing.holds.exists_pair
      (fun _ hFound =>
        NodeKind.eq_instanceOf_of_shape (hFound.trans hShape))
      (fun _ _ => rfl) with
    ⟨_, value, tested, _, _, _, rfl⟩
  unfold finish?
  simp only [hShape, List.map_cons, List.map_nil]
  exact walks_lowerTypeTest table hBack hShape

/-
  On the way up, a node becomes what the lowering of views
  makes of it. A node that is no construct on arrays stays.
-/
theorem walks_leave
    (hBack : Back safe before id label children)
    (hAssigned : before.tree.isAssigned id = .ok assigned) :
    Walks safe (leave table options id label.shape.tag) before
      (.node id label children)
      (finish? · table options assigned label
        (children.map (·.view))) := by
  cases hShape : label.shape
  case arrayCreation dimensions initializer marked =>
      exact walks_lowerCreation table options assigned hBack
        hShape
  case arrayAccess array index =>
      exact walks_lowerAccess table options hBack hShape
        hAssigned
  case fieldAccess expression name =>
      exact walks_leave_member table options assigned hBack
        (Or.inl hShape)
  case qualifiedName qualifier name =>
      exact walks_leave_member table options assigned hBack
        (Or.inr hShape)
  case instanceOf value tested =>
      exact walks_leave_instanceOf table options assigned
        hBack hShape
  all_goals
    apply hBack.idle
    unfold finish?
    rw [hShape]

end Leave

end Arrays

end Lowering
