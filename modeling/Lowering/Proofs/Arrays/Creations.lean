import Lowering.Proofs.Arrays.Handed

/-
  This file tells what array creations are lowered to: calls of
  static factories of the runtime class of the innermost
  component.

  The selector of the factory tells what the array is made of,
  whether it is retained, and whether a class object is passed;
  the arguments are the lowered operands of the creation, in
  order, with what the runtime has to know about them.

  Key definitions include:
    * `Arrays.IsFactory`
    * `Arrays.LowersTo`
    * `Arrays.Creates`
    * `Arrays.HasForm`

  Main results:
    * `Arrays.creates_of_lower?`
-/

namespace Lowering

namespace Arrays

open Symbols

------------------------------------------------------------
-- Factories
------------------------------------------------------------

/-
  A factory of an array type, over a component, with a body of
  its selector: a method of the runtime class of arrays over
  the component. Where the component is no value primitive, the
  last argument is its class object.
-/
structure IsFactory
    (symbols : Symbols)
    (array component : TypeId)
    (retained : Bool)
    (body : String)
    (factory : Factory) : Prop where
  result : factory.call.ty = array
  int : symbols.primitiveType? .int = some factory.int
  receiver : ∃ cls,
    symbols.arrayClass? component = some cls ∧
      className? symbols cls = some factory.call.receiver
  method : ∃ primitive,
    isPrimitive? symbols component = some primitive ∧
      factoryObject? symbols component primitive =
        some factory.object ∧
      symbols.cache.IsMethodOf factory.call.method
        factory.call.receiver.cls
        ((if retained then "newArray" else "array") ++ body ++
          (if primitive then "" else "type:"))

section Factories

variable {symbols : Symbols}
variable {array component : TypeId}
variable {retained primitive : Bool}
variable {factory : Factory}

/- A method that is looked up is recorded by its selector. -/
theorem recorded_of_method?
    {cls method : ElementId}
    {selector : String}
    (hMethod : symbols.method? cls selector = some method) :
    ∃ name,
      symbols.text? name = some selector ∧
        symbols.env.members.methods.lookup (cls, name) =
          some method := by
  rcases Option.bind_eq_some_iff.mp hMethod with
    ⟨name, hName, hFound⟩
  exact ⟨name, Interner.text?_of_find? hName, hFound⟩

/- By what the symbols of a factory are looked up. -/
theorem eq_of_factory?
    {selector : String}
    (hFactory : factory? symbols array component selector
      primitive = some factory) :
    factory.call.ty = array ∧
      symbols.primitiveType? .int = some factory.int ∧
      factoryObject? symbols component primitive =
        some factory.object ∧
      ∃ cls,
        symbols.arrayClass? component = some cls ∧
          className? symbols cls =
            some factory.call.receiver ∧
          symbols.method? cls selector =
            some factory.call.method := by
  rcases Option.bind_eq_some_iff.mp hFactory with
    ⟨cls, hClass, hFactory⟩
  rcases Option.bind_eq_some_iff.mp hFactory with
    ⟨int, hInt, hFactory⟩
  rcases Option.bind_eq_some_iff.mp hFactory with
    ⟨method, hMethod, hFactory⟩
  rcases Option.bind_eq_some_iff.mp hFactory with
    ⟨object, hObject, hFactory⟩
  rcases Option.bind_eq_some_iff.mp hFactory with
    ⟨receiver, hReceiver, hFactory⟩
  cases hFactory
  exact ⟨rfl, hInt, hObject, cls, hClass, hReceiver, hMethod⟩

/- A class name is that of its class. -/
private theorem cls_of_className?
    {cls : ElementId}
    {receiver : ClassName}
    (hReceiver : className? symbols cls = some receiver) :
    receiver.cls = cls := by
  rcases Option.bind_eq_some_iff.mp hReceiver with
    ⟨name, _, hReceiver⟩
  rcases Option.bind_eq_some_iff.mp hReceiver with
    ⟨ty, _, hReceiver⟩
  cases hReceiver
  rfl

theorem isFactory_of_factory?
    (hTitled : symbols.Titled)
    {form : CreationForm}
    (hPrimitive : isPrimitive? symbols component =
      some primitive)
    (hFactory : factory? symbols array component
      (form.selector retained primitive) primitive =
        some factory) :
    IsFactory symbols array component retained form.body
      factory := by
  rcases eq_of_factory? hFactory with
    ⟨hArray, hInt, hObject, cls, hClass, hReceiver, hMethod⟩
  rcases recorded_of_method? hMethod with
    ⟨name, hText, hFound⟩
  rcases hTitled cls name _ hFound with
    ⟨selector, hTitle, hIs⟩
  rw [hText] at hTitle
  cases hTitle
  refine ⟨hArray, hInt, ⟨cls, hClass, hReceiver⟩,
    primitive, hPrimitive, hObject, ?_⟩
  rw [cls_of_className? hReceiver]
  exact hIs

end Factories

------------------------------------------------------------
-- Created Arrays
------------------------------------------------------------

section Created

variable (symbols : Symbols)
variable (table : BindingTable)
variable (options : Options)

/- The view of a node of the store is lowered to a view. -/
def LowersTo (tree : Tree) (n : NodeId) (lowered : View) : Prop :=
  ∃ view,
    tree.view? n = some view ∧
      lower? symbols table options false false view =
        some lowered

/-
  The call that creates an array, from the operands that the
  creation has in the store.
-/
inductive Creates
    (tree : Tree)
    (array : TypeId)
    (retained : Bool) :
    List NodeId → Option NodeId → View → Prop
  /- From the expressions of an initializer. -/
  | elements
      (dimensions : List NodeId)
      {expressions : List NodeId}
      {initializer : NodeId}
      {values : List View}
      {component : TypeId}
      {primitive : Bool}
      {category : String}
      {factory : Factory}
      (component_eq : component? symbols array =
        some component)
      (primitive_eq : isPrimitive? symbols component =
        some primitive)
      (category_eq : category? symbols component primitive =
        some category)
      (listed : tree.list initializer .expressions =
        .ok expressions)
      (lowered : List.Forall₂
        (LowersTo symbols table options tree)
        expressions values)
      (is_factory : IsFactory symbols array component retained
        ("With" ++ category ++ ":count:") factory) :
      Creates tree array retained dimensions (some initializer)
        (factory.view
          [listView array values,
            numberView expressions.length factory.int])
  /- From one length. -/
  | length
      {length : NodeId}
      {value : View}
      {component : TypeId}
      {factory : Factory}
      (component_eq : component? symbols array =
        some component)
      (lowered : LowersTo symbols table options tree length
        value)
      (is_factory : IsFactory symbols array component retained
        "WithLength:" factory) :
      Creates tree array retained [length] none
        (factory.view [value])
  /- From several lengths. -/
  | lengths
      {dimensions : List NodeId}
      {values : List View}
      {component ints : TypeId}
      {factory : Factory}
      (several : 2 ≤ dimensions.length)
      (component_eq : innermost? symbols array
        dimensions.length = some component)
      (lowered : List.Forall₂
        (LowersTo symbols table options tree)
        dimensions values)
      (ints_eq : symbols.intArrayType? table factory.int =
        some ints)
      (is_factory : IsFactory symbols array component retained
        "WithDimensions:lengths:" factory) :
      Creates tree array retained dimensions none
        (factory.view
          [numberView dimensions.length factory.int,
            listView ints values])

variable {symbols} {table} {options}

------------------------------------------------------------
-- Forms
------------------------------------------------------------

/-
  What a creation is made of, and what it makes arrays over, by
  the number of its dimensions and whether it is initialised.
-/
inductive HasForm
    (symbols : Symbols)
    (array : TypeId) :
    Nat → Bool → CreationForm → TypeId → Prop
  | elements
      (dimensions : Nat)
      {component : TypeId}
      {primitive : Bool}
      {category : String}
      (component_eq : component? symbols array =
        some component)
      (primitive_eq : isPrimitive? symbols component =
        some primitive)
      (category_eq : category? symbols component primitive =
        some category) :
      HasForm symbols array dimensions true
        (.elements category) component
  | length
      {component : TypeId}
      (component_eq : component? symbols array =
        some component) :
      HasForm symbols array 1 false .length component
  | lengths
      {dimensions : Nat}
      {component : TypeId}
      (several : 2 ≤ dimensions)
      (component_eq : innermost? symbols array dimensions =
        some component) :
      HasForm symbols array dimensions false .lengths component

/- The factory of given elements is looked up by its form. -/
theorem factory?_of_initializedFactory?
    {array : TypeId}
    {retained : Bool}
    {factory : Factory}
    (hFound : initializedFactory? symbols array retained =
      some factory) :
    ∃ component primitive category,
      component? symbols array = some component ∧
        isPrimitive? symbols component = some primitive ∧
        category? symbols component primitive =
          some category ∧
        factory? symbols array component
          ((CreationForm.elements category).selector retained
            primitive) primitive = some factory := by
  rcases Option.bind_eq_some_iff.mp hFound with
    ⟨component, hComponent, hFactory⟩
  rcases Option.bind_eq_some_iff.mp hFactory with
    ⟨primitive, hPrimitive, hFactory⟩
  rcases Option.bind_eq_some_iff.mp hFactory with
    ⟨category, hCategory, hFactory⟩
  exact ⟨component, primitive, category, hComponent, hPrimitive,
    hCategory, hFactory⟩

/- So is the factory of one length. -/
theorem factory?_of_lengthFactory?
    {array : TypeId}
    {retained : Bool}
    {factory : Factory}
    (hFound : lengthFactory? symbols array retained =
      some factory) :
    ∃ component primitive,
      component? symbols array = some component ∧
        isPrimitive? symbols component = some primitive ∧
        factory? symbols array component
          (CreationForm.length.selector retained primitive)
          primitive = some factory := by
  rcases Option.bind_eq_some_iff.mp hFound with
    ⟨component, hComponent, hFactory⟩
  rcases Option.bind_eq_some_iff.mp hFactory with
    ⟨primitive, hPrimitive, hFactory⟩
  exact ⟨component, primitive, hComponent, hPrimitive, hFactory⟩

/- And so is the factory of several lengths. -/
theorem factory?_of_lengthsFactory?
    {array : TypeId}
    {dimensions : Nat}
    {retained : Bool}
    {factory : NestedFactory}
    (hFound : lengthsFactory? symbols table array dimensions
      retained = some factory) :
    ∃ component primitive,
      innermost? symbols array dimensions = some component ∧
        isPrimitive? symbols component = some primitive ∧
        factory? symbols array component
          (CreationForm.lengths.selector retained primitive)
          primitive = some factory.toFactory := by
  rcases Option.bind_eq_some_iff.mp hFound with
    ⟨component, hComponent, hFactory⟩
  rcases Option.bind_eq_some_iff.mp hFactory with
    ⟨primitive, hPrimitive, hFactory⟩
  rcases Option.bind_eq_some_iff.mp hFactory with
    ⟨plain, hPlain, hFactory⟩
  rcases Option.bind_eq_some_iff.mp hFactory with
    ⟨ints, _, hFactory⟩
  cases hFactory
  exact ⟨component, primitive, hComponent, hPrimitive, hPlain⟩

/- A factory is looked up by the form of what is created. -/
theorem factory_of_creation?
    {array : TypeId}
    {retained : Bool}
    {dimensions : List View}
    {initializer : Option View}
    {call : View}
    (hCreation : creation? symbols table array retained
      dimensions initializer = some call) :
    ∃ form component primitive,
      ∃ factory : Factory, ∃ arguments,
        HasForm symbols array dimensions.length
            initializer.isSome form component ∧
          isPrimitive? symbols component = some primitive ∧
          factory? symbols array component
            (form.selector retained primitive) primitive =
              some factory ∧
          call = factory.view arguments := by
  cases initializer with
  | some initializer =>
      rcases Option.bind_eq_some_iff.mp hCreation with
        ⟨factory, hFound, hCall⟩
      rcases factory?_of_initializedFactory? hFound with
        ⟨component, primitive, category, hComponent,
          hPrimitive, hCategory, hFactory⟩
      cases hCall
      exact ⟨_, component, primitive, factory, _,
        .elements _ hComponent hPrimitive hCategory, hPrimitive,
        hFactory, rfl⟩
  | none =>
      rcases dimensions with _ | ⟨first, _ | ⟨second, rest⟩⟩
      · exact absurd hCreation (by simp [creation?])
      · rcases Option.bind_eq_some_iff.mp hCreation with
          ⟨factory, hFound, hCall⟩
        rcases factory?_of_lengthFactory? hFound with
          ⟨component, primitive, hComponent, hPrimitive,
            hFactory⟩
        cases hCall
        exact ⟨_, component, primitive, factory, _,
          .length hComponent, hPrimitive, hFactory, rfl⟩
      · rcases Option.bind_eq_some_iff.mp hCreation with
          ⟨factory, hFound, hCall⟩
        rcases factory?_of_lengthsFactory? hFound with
          ⟨component, primitive, hComponent, hPrimitive,
            hFactory⟩
        cases hCall
        exact ⟨_, component, primitive, factory.toFactory, _,
          .lengths (by simp) hComponent, hPrimitive, hFactory,
          rfl⟩

/- The call of a factory is that of its static method. -/
theorem factory_view
    (factory : Factory)
    (arguments : List View) :
    (factory.view arguments).label.shape.tag =
        .methodInvocation ∧
      (factory.view arguments).label.element =
        some factory.call.method := by
  unfold Factory.view
  cases factory.object <;> exact ⟨rfl, rfl⟩

------------------------------------------------------------
-- Operands
------------------------------------------------------------

/- What is in the store is lowered as its view is. -/
theorem lowersTo_of_holds
    {tree : Tree}
    {placed : Placed}
    {lowered : View}
    (hHolds : tree.Holds placed)
    (hNodup : placed.ids.Nodup)
    (hLowered : lower? symbols table options false false
      placed.view = some lowered) :
    LowersTo symbols table options tree placed.id lowered :=
  ⟨placed.view, hHolds.view?_eq hNodup, hLowered⟩

private theorem all_lowersTo_of_holds
    {tree : Tree}
    {trees : List Placed}
    {lowered : List View}
    (hHolds : ∀ placed ∈ trees, tree.Holds placed)
    (hNodup : (Placed.idsAll trees).Nodup)
    (hLowered : List.Forall₂
      (fun view new =>
        lower? symbols table options false false view =
          some new)
      (trees.map (·.view)) lowered) :
    List.Forall₂ (LowersTo symbols table options tree)
      (trees.map (·.id)) lowered := by
  rw [List.forall₂_map_left_iff] at hLowered ⊢
  have hEach : ∀ placed ∈ trees,
      tree.Holds placed ∧ placed.ids.Nodup := fun placed hMem =>
    ⟨hHolds placed hMem, Placed.nodup_ids_of_mem hNodup hMem⟩
  apply ((List.forall₂_and_left _ _).mpr
    ⟨hEach, hLowered⟩).imp
  rintro placed new ⟨⟨hHeld, hApart⟩, hNew⟩
  exact lowersTo_of_holds hHeld hApart hNew

/- What becomes of a construct is a call or an access. -/
theorem Finishes.tag
    {assigned : Bool}
    {label : Label}
    {children : List View}
    {view : View}
    (hFinishes : Finishes symbols table options assigned label
      children view) :
    view = .node label children ∨
      view.label.shape.tag ∈
        [.methodInvocation, .functionInvocation,
          .prefixOperation, .fieldAccess] := by
  cases hFinishes with
  | creation _ _ hCreation =>
      rcases factory_of_creation? hCreation with
        ⟨_, _, _, factory, arguments, _, _, _, rfl⟩
      right
      rw [(factory_view factory arguments).1]
      simp
  | @access _ _ _ access =>
      right
      unfold ElementAccess.view
      cases access.target <;>
        simp [callView, View.label, NodeKind.tag]
  | size =>
      right
      simp [SizeAccess.view, View.label, NodeKind.tag]
  | test =>
      right
      simp [TypeTest.view, View.label, NodeKind.tag]
  | node => exact Or.inl rfl

/- What becomes of a construct is no list in braces. -/
private theorem tag_finish?
    {assigned : Bool}
    {label : Label}
    {children : List View}
    {view : View}
    (hOther : label.shape.tag ≠ .arrayInitializer)
    (hFinish : finish? symbols table options assigned label
      children = some view) :
    view.label.shape.tag ≠ .arrayInitializer := by
  rcases (finishes_of_finish? hFinish).tag with rfl | hTag
  · exact hOther
  · intro hList
    rw [hList] at hTag
    exact absurd hTag (by simp)

/- What is no list in braces lists no expressions. -/
private theorem elements_eq_nil
    {view : View}
    (hOther : view.label.shape.tag ≠ .arrayInitializer) :
    elements view = [] := by
  unfold elements
  split
  · next hShape =>
    rw [hShape] at hOther
    exact absurd rfl hOther
  · rfl

/-
  The expressions of an initializer are lowered one by one;
  what is no list in braces has none, and becomes none.
-/
theorem forall₂_elements
    {view lowered : View}
    (hLowered : lower? symbols table options false false view =
      some lowered) :
    List.Forall₂
      (fun view new =>
        lower? symbols table options false false view =
          some new)
      (elements view) (elements lowered) := by
  rcases view with ⟨label, children⟩
  rw [lower?] at hLowered
  rcases Option.bind_eq_some_iff.mp hLowered with
    ⟨store, hStore, hRest⟩
  clear hLowered
  by_cases hList : label.shape.tag = .arrayInitializer
  · rcases label with ⟨shape, ty, element⟩
    cases shape
    case arrayInitializer expressions =>
      rw [stored?_of_tag (by simp [NodeKind.tag])] at hStore
      cases hStore
      rcases Option.bind_eq_some_iff.mp hRest with
        ⟨below, hBelow, hFinish⟩
      cases hFinish
      exact forall₂_of_lowerAll? hBelow
    all_goals exact absurd hList (by simp [NodeKind.tag])
  · have hView : elements (.node label children) = [] :=
      elements_eq_nil hList
    rw [hView, elements_eq_nil]
    · exact .nil
    cases store with
    | none =>
        rcases Option.bind_eq_some_iff.mp hRest with
          ⟨below, _, hFinish⟩
        exact tag_finish? hList hFinish
    | some store =>
        rcases Option.bind_eq_some_iff.mp hRest with
          ⟨operands, _, hStored⟩
        rcases Option.bind_eq_some_iff.mp hStored with
          ⟨function, _, hCall⟩
        cases hCall
        simp [callView, View.label, NodeKind.tag]

/- A factory that is looked up creates from an initializer. -/
private theorem creates_elements
    {tree : Tree}
    {initializer : Placed}
    {array : TypeId}
    {retained : Bool}
    {lowered : View}
    {factory : Factory}
    (hTitled : symbols.Titled)
    (hHolds : tree.Holds initializer)
    (hNodup : initializer.ids.Nodup)
    (hLowered : lower? symbols table options false false
      initializer.view = some lowered)
    (hFactory : initializedFactory? symbols array retained =
      some factory)
    (dimensions : List NodeId) :
    Creates symbols table options tree array retained
      dimensions (some initializer.id)
      (factory.initializedView (elements lowered)) := by
  rcases Option.bind_eq_some_iff.mp hFactory with
    ⟨component, hComponent, hFactory⟩
  rcases Option.bind_eq_some_iff.mp hFactory with
    ⟨primitive, hPrimitive, hFactory⟩
  rcases Option.bind_eq_some_iff.mp hFactory with
    ⟨category, hCategory, hFactory⟩
  have hIs := isFactory_of_factory? hTitled hPrimitive hFactory
  rcases list_elements hHolds hNodup with
    ⟨sources, hList, hElements, hSources, hApart⟩
  have hEach := forall₂_elements hLowered
  rw [hElements] at hEach
  have hCreates := Creates.elements dimensions hComponent
    hPrimitive hCategory hList
    (all_lowersTo_of_holds hSources hApart hEach) hIs
  have hCount := hEach.length_eq
  rw [List.length_map] at hCount hCreates
  unfold Factory.initializedView
  rw [hIs.result, ← hCount]
  exact hCreates

private theorem creates_length
    {tree : Tree}
    {length : NodeId}
    {array : TypeId}
    {retained : Bool}
    {lowered : View}
    {factory : Factory}
    (hTitled : symbols.Titled)
    (hLowered : LowersTo symbols table options tree length
      lowered)
    (hFactory : lengthFactory? symbols array retained =
      some factory) :
    Creates symbols table options tree array retained
      [length] none (factory.lengthView lowered) := by
  rcases Option.bind_eq_some_iff.mp hFactory with
    ⟨component, hComponent, hFactory⟩
  rcases Option.bind_eq_some_iff.mp hFactory with
    ⟨primitive, hPrimitive, hFactory⟩
  exact .length hComponent hLowered
    (isFactory_of_factory? hTitled hPrimitive hFactory)

private theorem creates_lengths
    {tree : Tree}
    {dimensions : List NodeId}
    {array : TypeId}
    {retained : Bool}
    {lowered : List View}
    {factory : NestedFactory}
    (hTitled : symbols.Titled)
    (hSeveral : 2 ≤ dimensions.length)
    (hLowered : List.Forall₂
      (LowersTo symbols table options tree)
      dimensions lowered)
    (hFactory : lengthsFactory? symbols table array
      lowered.length retained = some factory) :
    Creates symbols table options tree array retained
      dimensions none (factory.view lowered) := by
  have hCount := hLowered.length_eq
  rw [← hCount] at hFactory
  rcases Option.bind_eq_some_iff.mp hFactory with
    ⟨component, hComponent, hFactory⟩
  rcases Option.bind_eq_some_iff.mp hFactory with
    ⟨primitive, hPrimitive, hFactory⟩
  rcases Option.bind_eq_some_iff.mp hFactory with
    ⟨plain, hPlain, hFactory⟩
  rcases Option.bind_eq_some_iff.mp hFactory with
    ⟨ints, hInts, hFactory⟩
  cases hFactory
  unfold NestedFactory.view
  rw [← hCount]
  exact .lengths hSeveral hComponent hLowered hInts
    (isFactory_of_factory? hTitled hPrimitive hPlain)

/- What is made of a creation, told by its operands. -/
private theorem creates_of_creation?
    {tree : Tree}
    {lengths values : List Placed}
    {dimensions : List NodeId}
    {initializer : Option NodeId}
    {array : TypeId}
    {retained : Bool}
    {lowered : List View}
    {call : View}
    (hTitled : symbols.Titled)
    (hHolds : ∀ placed ∈ lengths ++ values, tree.Holds placed)
    (hNodup : (Placed.idsAll (lengths ++ values)).Nodup)
    (hDimensions : dimensions = lengths.map (·.id))
    (hInitializer : initializer.toList = values.map (·.id))
    (hLowered : List.Forall₂
      (fun view new =>
        lower? symbols table options false false view =
          some new)
      ((lengths ++ values).map (·.view)) lowered)
    (hCreation : creation? symbols table array retained
      (lowered.take dimensions.length)
      (initializer.bind fun _ => lowered[dimensions.length]?) =
        some call) :
    Creates symbols table options tree array retained
      dimensions initializer call := by
  subst hDimensions
  rw [List.length_map] at hCreation
  cases initializer with
  | some initializer =>
      rcases values with _ | ⟨value, _ | ⟨second, rest⟩⟩
      · simp at hInitializer
      · simp only [Option.toList_some, List.map_cons,
          List.map_nil, List.cons.injEq, and_true]
          at hInitializer
        subst hInitializer
        have hLast := List.forall₂_drop lengths.length hLowered
        rw [← List.map_drop, List.drop_left' rfl] at hLast
        rcases List.forall₂_cons_left_iff.mp hLast with
          ⟨new, none, hNew, hNone, hDrop⟩
        cases hNone
        have hAt : lowered[lengths.length]? = some new := by
          have hHead := congrArg (·[0]?) hDrop
          simpa using hHead
        rw [Option.bind_some, hAt] at hCreation
        rcases Option.bind_eq_some_iff.mp hCreation with
          ⟨factory, hFactory, hCall⟩
        cases hCall
        have hMem : value ∈ lengths ++ [value] := by simp
        exact creates_elements hTitled (hHolds value hMem)
          (Placed.nodup_ids_of_mem hNodup hMem) hNew hFactory _
      · simp at hInitializer
  | none =>
      have hNone : values = [] := by
        simpa using hInitializer
      subst hNone
      rw [List.append_nil] at hHolds hNodup hLowered
      have hCount := hLowered.length_eq
      rw [List.length_map] at hCount
      rw [Option.bind_none, List.take_of_length_le (by omega)]
        at hCreation
      have hEach := all_lowersTo_of_holds hHolds hNodup hLowered
      rcases lowered with _ | ⟨first, _ | ⟨second, rest⟩⟩
      · exact absurd hCreation (by simp [creation?])
      · rcases List.forall₂_cons_right_iff.mp hEach with
          ⟨length, none, hLength, hNone, hLengths⟩
        cases hNone
        rw [hLengths]
        rcases Option.bind_eq_some_iff.mp hCreation with
          ⟨factory, hFactory, hCall⟩
        cases hCall
        exact creates_length hTitled hLength hFactory
      · rcases Option.bind_eq_some_iff.mp hCreation with
          ⟨factory, hFactory, hCall⟩
        cases hCall
        refine creates_lengths hTitled ?_ hEach hFactory
        rw [List.length_map, hCount]
        simp

/- A creation in the store has the shape of one. -/
private theorem shape_of_kind
    {node : Node}
    {dimensions : List NodeId}
    {initializer : Option NodeId}
    {marked : Bool}
    (hKind : node.kind =
      .arrayCreation dimensions initializer marked) :
    node.label.shape =
      .arrayCreation (dimensions.map fun _ => ())
        (initializer.map fun _ => ()) marked :=
  congrArg NodeKind.shape hKind

/- A creation that is handed over is marked. -/
theorem shape_of_creation
    {node : Node}
    {dimensions : List NodeId}
    {initializer : Option NodeId}
    {marked : Bool}
    (hKind : node.kind =
      .arrayCreation dimensions initializer marked)
    (handed : Bool) :
    (node.label.retainIf handed).shape =
      .arrayCreation (dimensions.map fun _ => ())
        (initializer.map fun _ => ()) (marked || handed) := by
  have hShape := shape_of_kind hKind
  cases handed with
  | false =>
      rw [Bool.or_false]
      exact hShape
  | true =>
      simp [Label.retainIf, Label.retain, hShape,
        NodeKind.retain, NodeKind.canRetain, NodeKind.retained,
        NodeKind.markRetained?]

/- A creation that is lowered has its operands lowered. -/
theorem creation_of_lower?
    {tree : Tree}
    {old : Placed}
    {node : Node}
    {dimensions : List NodeId}
    {initializer : Option NodeId}
    {marked handed assigned : Bool}
    {view : View}
    (hHolds : tree.Holds old)
    (hNode : tree.get? old.id = some node)
    (hKind : node.kind =
      .arrayCreation dimensions initializer marked)
    (hLowered : lower? symbols table options assigned handed
      old.view = some view) :
    ∃ array lengths values below,
      node.ty = some array ∧
        old.children = lengths ++ values ∧
        dimensions = lengths.map (·.id) ∧
        initializer.toList = values.map (·.id) ∧
        List.Forall₂
          (fun view new =>
            lower? symbols table options false false view =
              some new)
          ((lengths ++ values).map (·.view)) below ∧
        creation? symbols table array
          (marked || handed || options.useArc)
          (below.take dimensions.length)
          (initializer.bind fun _ =>
            below[dimensions.length]?) = some view := by
  rcases old with ⟨id, label, children⟩
  rcases hHolds.of_get? hNode with ⟨hLabel, hListed⟩
  rw [Placed.label_node] at hLabel
  subst hLabel
  rw [hKind] at hListed
  rcases dimension_children hListed with
    ⟨lengths, values, hChildren, hDimensions, hInitializer⟩
  rw [Placed.children_node] at hChildren
  subst hChildren
  have hShape := shape_of_kind hKind
  rw [Placed.view_node] at hLowered
  rcases finish?_of_lower? (by rw [hShape]; simp [NodeKind.tag])
    hLowered with ⟨below, hBelow, hFinish⟩
  rw [hShape] at hBelow
  simp only [finish?, shape_of_creation hKind handed] at hFinish
  rcases Option.bind_eq_some_iff.mp hFinish with
    ⟨array, hArray, hCreation⟩
  rw [List.length_map, Option.bind_map] at hCreation
  have hTy : node.ty = some array := by
    cases handed <;> exact hArray
  exact ⟨array, lengths, values, below, hTy, rfl, hDimensions,
    hInitializer, forall₂_of_lowerAll? hBelow, hCreation⟩

/-
  What a creation is lowered to is what creates the array, by
  its operands in the store.
-/
theorem creates_of_lower?
    {tree : Tree}
    {old : Placed}
    {node : Node}
    {dimensions : List NodeId}
    {initializer : Option NodeId}
    {marked handed assigned : Bool}
    {view : View}
    (hTitled : symbols.Titled)
    (hHolds : tree.Holds old)
    (hNodup : old.ids.Nodup)
    (hNode : tree.get? old.id = some node)
    (hKind : node.kind =
      .arrayCreation dimensions initializer marked)
    (hLowered : lower? symbols table options assigned handed
      old.view = some view) :
    ∃ array,
      node.ty = some array ∧
        Creates symbols table options tree array
          (marked || handed || options.useArc)
          dimensions initializer view := by
  rcases creation_of_lower? hHolds hNode hKind hLowered with
    ⟨array, lengths, values, below, hTy, hChildren,
      hDimensions, hInitializer, hEach, hCreation⟩
  rcases old with ⟨id, label, children⟩
  rw [Placed.children_node] at hChildren
  subst hChildren
  rw [Placed.ids_node, List.nodup_cons] at hNodup
  exact ⟨array, hTy, creates_of_creation? hTitled
    (fun placed hMem => hHolds.child hMem) hNodup.2
    hDimensions hInitializer hEach hCreation⟩

end Created

end Arrays

end Lowering
