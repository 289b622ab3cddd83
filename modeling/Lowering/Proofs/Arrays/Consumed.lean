import Lowering.Proofs.Arrays.Becomes

/-
  This file proves that a run hands over what it stores.

  The function that stores an element consumes its value if the
  value of the assignment can hand over its result retained,
  and then the value that the call is given is retained: a
  marked creation, a marked call, or an array from a factory
  for retained arrays. The function is chosen before the value
  is lowered, so this holds however stores and creations nest.
  Elsewhere a run marks nothing, and it calls such a factory
  only for creations that are marked or handed over, or where
  lifetimes are managed automatically.

  Key definitions include:
    * `NodeKind.marked`
    * `Arrays.Consumable`
    * `Arrays.Retained`
    * `Arrays.StoredAs`

  Main results:
    * `Arrays.stores_transfer_ownership`
-/

namespace Lowering

------------------------------------------------------------
-- Marks
------------------------------------------------------------

namespace NodeKind

/- Whether a kind is marked to hand over its result retained. -/
def marked {α : Type} : NodeKind α → Bool
  | arrayCreation _ _ marked => marked
  | classInstanceCreation _ marked => marked
  | functionInvocation _ _ marked => marked
  | _ => false

@[simp] theorem marked_shape {α : Type} (kind : NodeKind α) :
    kind.shape.marked = kind.marked := by
  cases kind <;> rfl

/- Only what can retain is marked. -/
theorem marked_retained
    {α : Type}
    {kind : NodeKind α}
    (hCan : kind.canRetain = true) :
    kind.retained.marked = true := by
  cases kind <;>
    first
    | rfl
    | exact absurd hCan Bool.false_ne_true

end NodeKind

/- A label is marked if it was, or if it is handed over. -/
theorem Label.marked_retainIf
    (handed : Bool)
    (label : Label) :
    (label.retainIf handed).shape.marked = true ↔
      label.shape.marked = true ∨
        handed = true ∧ label.shape.canRetain = true := by
  cases handed with
  | false => simp [Label.retainIf]
  | true =>
      unfold Label.retainIf Label.retain NodeKind.retain
      simp only [if_true, true_and]
      split
      · next hCan =>
        simp [hCan, NodeKind.marked_retained hCan]
      · next hCannot => simp [hCannot]

namespace Arrays

open Symbols

------------------------------------------------------------
-- Values
------------------------------------------------------------

/-
  What can hand over its result retained: creations, and calls
  of functions that have a retained variant.
-/
inductive Consumable : NodeKind NodeId → Prop
  | array
      (dimensions : List NodeId)
      (initializer : Option NodeId)
      (marked : Bool) :
      Consumable (.arrayCreation dimensions initializer marked)
  | object
      (arguments : List NodeId)
      (marked : Bool) :
      Consumable (.classInstanceCreation arguments marked)
  | call
      {function : FunctionRef}
      (arguments : List NodeId)
      (marked : Bool)
      (retained : function.retainedName.isSome) :
      Consumable
        (.functionInvocation function arguments marked)

/- This is what a store asks its value. -/
theorem consumable_iff
    {kind : NodeKind NodeId} :
    Consumable kind ↔ kind.canRetain = true := by
  constructor
  · rintro (_ | _ | hRetained)
    · rfl
    · rfl
    · next hRetained => exact hRetained
  · intro hCan
    cases kind
    case arrayCreation => exact .array _ _ _
    case classInstanceCreation => exact .object _ _
    case functionInvocation => exact .call _ _ hCan
    all_goals exact absurd hCan Bool.false_ne_true

/- A method has a selector that starts in a way. -/
def SelectorStarts
    (symbols : Symbols)
    (start : String)
    (method : ElementId) : Prop :=
  ∃ cls rest,
    symbols.cache.IsMethodOf method cls (start ++ rest)

/- What hands over its result retained. -/
inductive Retained (symbols : Symbols) : View → Prop
  | object
      {label : Label}
      {places : List Unit}
      {children : List View}
      (shape : label.shape = .classInstanceCreation places true) :
      Retained symbols (.node label children)
  | call
      {label : Label}
      {function : FunctionRef}
      {places : List Unit}
      {children : List View}
      (shape : label.shape =
        .functionInvocation function places true) :
      Retained symbols (.node label children)
  | array
      {label : Label}
      {method : ElementId}
      {children : List View}
      (tag : label.shape.tag = .methodInvocation)
      (element : label.element = some method)
      (starts : SelectorStarts symbols "newArray" method) :
      Retained symbols (.node label children)

/-
  The call that a store becomes: it consumes a value that can
  hand over its result, and takes any other value as it is.
-/
inductive StoredAs
    (symbols : Symbols)
    (component : TypeId)
    (value : NodeKind NodeId) : View → Prop
  | consumed
      {function : FunctionRef}
      {array index last : View}
      (consumable : Consumable value)
      (name : symbols.text? function.name =
        some "IOSObjectArray_SetAndConsume")
      (retained : Retained symbols last) :
      StoredAs symbols component value
        (callView function component [array, index, last])
  | plain
      {function : FunctionRef}
      {array index last : View}
      (plain : ¬ Consumable value)
      (name : symbols.text? function.name =
        some "IOSObjectArray_Set")
      (unmarked : last.label.shape.marked = true →
        value.marked = true) :
      StoredAs symbols component value
        (callView function component [array, index, last])

------------------------------------------------------------
-- Marks Of Passages
------------------------------------------------------------

section Passages

variable {symbols : Symbols}
variable {table : BindingTable}
variable {options : Options}
variable {whole : Passage}
variable {parts : List Passage}
variable {made : List Placed}
variable {lost : List NodeId}

/- The call of a factory is that of its static method. -/
private theorem FactoryCall.label
    {factory : Factory}
    {arguments : List Placed}
    {call : Placed}
    (hCalls : FactoryCall factory arguments call made) :
    call.label.shape.tag = .methodInvocation ∧
      call.label.element = some factory.call.method := by
  cases hCalls <;> exact ⟨rfl, rfl⟩

/- No call of a method is marked. -/
private theorem marked_of_tag
    {shape : NodeKind Unit}
    (hTag : shape.tag = .methodInvocation) :
    shape.marked = false := by
  cases shape <;> first | rfl | simp [NodeKind.tag] at hTag

/- What is marked was marked, or can retain and is handed over. -/
theorem Form.marked
    (hForm : Form symbols table options whole parts made lost)
    (hMarked : whole.new.label.shape.marked = true) :
    whole.old.label.shape.marked = true ∨
      whole.handed = true ∧
        whole.old.label.shape.canRetain = true := by
  have hCall {factory : Factory}
      {arguments made : List Placed}
      {call : Placed}
      (hCalls : FactoryCall factory arguments call made)
      (hMarked : call.label.shape.marked = true) :
      False := by
    rw [marked_of_tag hCalls.label.1] at hMarked
    exact Bool.false_ne_true hMarked
  cases hForm with
  | kept => exact (Label.marked_retainIf _ _).mp hMarked
  | stored => cases hMarked
  | read => cases hMarked
  | pointer => cases hMarked
  | length _ _ _ _ hCalls => exact (hCall hCalls hMarked).elim
  | lengths _ _ _ _ _ _ _ _ hCalls =>
      exact (hCall hCalls hMarked).elim
  | elements _ _ _ _ _ _ _ hCalls =>
      exact (hCall hCalls hMarked).elim
  | size => cases hMarked
  | test => cases hMarked

/- How the selector of a factory starts. -/
abbrev factoryStart (retained : Bool) : String :=
  if retained then "newArray" else "array"

private theorem starts_of_factory?
    {array component : TypeId}
    {retained primitive : Bool}
    {form : CreationForm}
    {factory : Factory}
    (hTitled : symbols.Titled)
    (hPrimitive : isPrimitive? symbols component =
      some primitive)
    (hFactory : factory? symbols array component
      (form.selector retained primitive) primitive =
        some factory) :
    SelectorStarts symbols (factoryStart retained)
      factory.call.method := by
  rcases (isFactory_of_factory? hTitled hPrimitive
    hFactory).method with ⟨_, _, _, hIs⟩
  rw [String.append_assoc] at hIs
  exact ⟨_, _, hIs⟩

/- A creation becomes the call of a factory. -/
theorem Form.factory
    {dimensions : List Unit}
    {initializer : Option Unit}
    {marked : Bool}
    (hTitled : symbols.Titled)
    (hForm : Form symbols table options whole parts made lost)
    (hShape : (whole.old.label.retainIf whole.handed).shape =
      .arrayCreation dimensions initializer marked) :
    whole.new.label.shape.tag = .methodInvocation ∧
      ∃ method,
        whole.new.label.element = some method ∧
          SelectorStarts symbols
            (factoryStart (marked || options.useArc)) method := by
  have hOther {label : Label}
      {handed : Bool}
      {shape : NodeKind Unit}
      (hCreation : (label.retainIf handed).shape =
        .arrayCreation dimensions initializer marked)
      (hShape : label.shape = shape)
      (hTag : shape.tag ≠ .arrayCreation) :
      False := by
    apply hTag
    rw [← hShape, ← label.tag_retainIf handed, hCreation]
    rfl
  cases hForm with
  | @kept _ handed _ _ label _ _ hNot =>
      have hIs : (label.retainIf handed).shape =
          .arrayCreation dimensions initializer marked := hShape
      apply absurd _ hNot.1
      rw [← label.tag_retainIf handed, hIs]
      rfl
  | stored hStored =>
      rcases eq_of_stored? hStored with ⟨_, _, _, hIs, _⟩
      exact (hOther hShape hIs (by simp [NodeKind.tag])).elim
  | read hIs =>
      exact (hOther hShape hIs (by simp [NodeKind.tag])).elim
  | pointer hIs =>
      exact (hOther hShape hIs (by simp [NodeKind.tag])).elim
  | length hIs _ hFound _ hCall =>
      cases hIs.symm.trans hShape
      rcases factory?_of_lengthFactory? hFound with
        ⟨component, primitive, _, hPrimitive, hFactory⟩
      exact ⟨hCall.label.1, _, hCall.label.2,
        starts_of_factory? hTitled hPrimitive hFactory⟩
  | lengths hIs _ _ _ hFound _ _ _ hCall =>
      cases hIs.symm.trans hShape
      rcases factory?_of_lengthsFactory? hFound with
        ⟨component, primitive, _, hPrimitive, hFactory⟩
      exact ⟨hCall.label.1, _, hCall.label.2,
        starts_of_factory? hTitled hPrimitive hFactory⟩
  | elements hIs _ _ hFound _ _ _ hCall =>
      cases hIs.symm.trans hShape
      rcases factory?_of_initializedFactory? hFound with
        ⟨component, primitive, category, _, hPrimitive, _,
          hFactory⟩
      exact ⟨hCall.label.1, _, hCall.label.2,
        starts_of_factory? hTitled hPrimitive hFactory⟩
  | size hIs =>
      rcases hIs with hIs | hIs
      · exact (hOther hShape hIs (by simp [NodeKind.tag])).elim
      · exact (hOther hShape hIs (by simp [NodeKind.tag])).elim
  | test hIs =>
      exact (hOther hShape hIs (by simp [NodeKind.tag])).elim

/- The test against a type calls `isInstance`. -/
private theorem isMethodOf_of_typeTest?
    {ty : TypeId}
    {test : TypeTest}
    (hTitled : symbols.Titled)
    (hFound : typeTest? symbols ty = some test) :
    ∃ cls,
      symbols.cache.IsMethodOf test.method cls "isInstance" := by
  rcases Option.bind_eq_some_iff.mp hFound with
    ⟨boolean, _, hFound⟩
  rcases Option.bind_eq_some_iff.mp hFound with
    ⟨method, hMethod, hFound⟩
  rcases Option.bind_eq_some_iff.mp hFound with
    ⟨object, _, hLast⟩
  cases hLast
  rcases recorded_of_method? hMethod with
    ⟨name, hText, hRecorded⟩
  rcases hTitled _ _ _ hRecorded with
    ⟨selector, hSelector, hIs⟩
  rw [hText] at hSelector
  cases hSelector
  exact ⟨_, hIs⟩

/- The methods that a passage to a call may call. -/
inductive Selected
    (symbols : Symbols)
    (options : Options)
    (whole : Passage) : Prop
  /- A call that was there. -/
  | kept
      (tag : whole.old.label.shape.tag = .methodInvocation)
      (element : whole.new.label.element =
        whole.old.label.element)
  /- The factory of an array. -/
  | factory
      {dimensions : List Unit}
      {initializer : Option Unit}
      {marked : Bool}
      {method : ElementId}
      (shape : (whole.old.label.retainIf whole.handed).shape =
        .arrayCreation dimensions initializer marked)
      (element : whole.new.label.element = some method)
      (starts : SelectorStarts symbols
        (factoryStart (marked || options.useArc)) method)
  /- A type test. -/
  | test
      {method cls : ElementId}
      (tag : whole.old.label.shape.tag = .instanceOf)
      (element : whole.new.label.element = some method)
      (is_test :
        symbols.cache.IsMethodOf method cls "isInstance")

/- A call of a method is of one of these. -/
theorem Form.selected
    (hTitled : symbols.Titled)
    (hForm : Form symbols table options whole parts made lost)
    (hCalls : whole.new.label.shape.tag = .methodInvocation) :
    Selected symbols options whole := by
  have hFactory {dimensions : List Unit}
      {initializer : Option Unit}
      {marked : Bool}
      (hShape : (whole.old.label.retainIf whole.handed).shape =
        .arrayCreation dimensions initializer marked) :
      Selected symbols options whole := by
    rcases hForm.factory hTitled hShape with
      ⟨_, method, hElement, hStarts⟩
    exact .factory hShape hElement hStarts
  cases hForm with
  | @kept _ handed _ _ label =>
      have hTag : (label.retainIf handed).shape.tag =
          .methodInvocation := hCalls
      rw [label.tag_retainIf] at hTag
      refine .kept hTag ?_
      cases handed <;> rfl
  | stored => cases hCalls
  | read => cases hCalls
  | pointer => cases hCalls
  | length hShape => exact hFactory hShape
  | lengths hShape => exact hFactory hShape
  | elements hShape => exact hFactory hShape
  | size => cases hCalls
  | test hShape _ _ _ hFound =>
      rcases isMethodOf_of_typeTest? hTitled hFound with
        ⟨cls, hIs⟩
      exact .test (congrArg NodeKind.tag hShape) rfl hIs

/- What can retain is a creation, or it is kept. -/
theorem Form.label_eq
    (hForm : Form symbols table options whole parts made lost)
    (hCan : whole.old.label.shape.canRetain = true)
    (hOther : whole.old.label.shape.tag ≠ .arrayCreation) :
    whole.new.label =
      whole.old.label.retainIf whole.handed := by
  have hCannot {label : Label}
      {shape : NodeKind Unit}
      (hCan : label.shape.canRetain = true)
      (hShape : label.shape = shape)
      (hNone : shape.canRetain = false) :
      False := by
    rw [hShape, hNone] at hCan
    exact Bool.false_ne_true hCan
  have hCreation {label : Label}
      {handed marked : Bool}
      {dimensions : List Unit}
      {initializer : Option Unit}
      (hOther : label.shape.tag ≠ .arrayCreation)
      (hShape : (label.retainIf handed).shape =
        .arrayCreation dimensions initializer marked) :
      False := by
    apply hOther
    rw [← label.tag_retainIf handed, hShape]
    rfl
  cases hForm with
  | kept => rfl
  | stored hStored =>
      rcases eq_of_stored? hStored with ⟨_, _, _, hShape, _⟩
      exact (hCannot hCan hShape rfl).elim
  | read hShape => exact (hCannot hCan hShape rfl).elim
  | pointer hShape => exact (hCannot hCan hShape rfl).elim
  | length hShape => exact (hCreation hOther hShape).elim
  | lengths hShape => exact (hCreation hOther hShape).elim
  | elements hShape => exact (hCreation hOther hShape).elim
  | size hShape =>
      rcases hShape with hShape | hShape
      · exact (hCannot hCan hShape rfl).elim
      · exact (hCannot hCan hShape rfl).elim
  | test hShape => exact (hCannot hCan hShape rfl).elim

/- What can retain and is handed over is retained. -/
theorem Form.retained
    (hTitled : symbols.Titled)
    (hForm : Form symbols table options whole parts made lost)
    (hHanded : whole.handed = true)
    (hCan : whole.old.label.shape.canRetain = true) :
    Retained symbols whole.new.view := by
  have hMarked :=
    (whole.old.label.marked_retainIf whole.handed).mpr
      (Or.inr ⟨hHanded, hCan⟩)
  have hTag := whole.old.label.tag_retainIf whole.handed
  have hFactory {dimensions : List Unit}
      {initializer : Option Unit}
      {marked : Bool}
      (hIs : (whole.old.label.retainIf whole.handed).shape =
        .arrayCreation dimensions initializer marked) :=
    hForm.factory hTitled hIs
  have hKept := hForm.label_eq hCan
  rcases whole with ⟨assigned, handed, old, ⟨id, label, below⟩⟩
  simp only [Placed.label_node] at hFactory hKept
  rw [Placed.view_node]
  cases hShape : (old.label.retainIf handed).shape
  case arrayCreation dimensions initializer marked =>
    rw [hShape] at hMarked
    have hMarked : marked = true := hMarked
    rcases hFactory hShape with
      ⟨hCalls, method, hElement, hStarts⟩
    rw [hMarked, Bool.true_or] at hStarts
    exact .array hCalls hElement hStarts
  case classInstanceCreation =>
    rw [hShape] at hMarked hTag
    cases hMarked
    rw [← hKept (by rw [← hTag]; simp [NodeKind.tag])]
      at hShape
    exact .object hShape
  case functionInvocation =>
    rw [hShape] at hMarked hTag
    cases hMarked
    rw [← hKept (by rw [← hTag]; simp [NodeKind.tag])]
      at hShape
    exact .call hShape
  all_goals
    rw [hShape] at hMarked
    exact absurd hMarked Bool.false_ne_true

/- A store passes its operands and its value to a call. -/
private theorem Form.call_of_stored
    {id target : NodeId}
    {label outer : Label}
    {operands : List Placed}
    {value : Placed}
    {store : Store}
    (hForm : Form symbols table options whole parts made lost)
    (hOld : whole.old =
      .node id label [.node target outer operands, value])
    (hStored : stored? symbols label
      [.node outer (operands.map (·.view)), value.view] =
        some (some store)) :
    ∃ function lowered last,
      operands.length = lowered.length ∧
        storeFunction? symbols store.consumes = some function ∧
        Passage.Valid symbols table options
          ⟨false, true, value, last⟩ ∧
        whole.new.view =
          callView function store.component
            ((lowered ++ [last]).map (·.view)) := by
  rcases eq_of_stored? hStored with ⟨_, _, _, hShape, _⟩
  have hOther {other : Label}
      {shape : NodeKind Unit}
      (hSame : other = label)
      (hIs : other.shape = shape)
      (hTag : shape.tag ≠ .assignment) :
      False := by
    rw [hSame, hShape] at hIs
    exact hTag (congrArg NodeKind.tag hIs).symm
  have hCreation {other : Label}
      {handed marked : Bool}
      {dimensions : List Unit}
      {initializer : Option Unit}
      (hSame : other = label)
      (hIs : (other.retainIf handed).shape =
        .arrayCreation dimensions initializer marked) :
      False := by
    have hTag := other.tag_retainIf handed
    rw [hIs, hSame, hShape] at hTag
    exact absurd hTag (by simp [NodeKind.tag])
  cases hForm with
  | kept _ hNone =>
      cases hOld
      simp only [List.map_cons, List.map_nil,
        Placed.view_node] at hNone
      rw [hNone] at hStored
      exact absurd hStored (by simp)
  | stored hFound hFunction hPassed hValue =>
      cases hOld
      rw [hFound] at hStored
      cases hStored
      refine ⟨_, _, _, hPassed.length_eq, hFunction, hValue, ?_⟩
      rw [Placed.view_node]
      rfl
  | read hIs =>
      cases hOld
      exact (hOther rfl hIs (by simp [NodeKind.tag])).elim
  | pointer hIs =>
      cases hOld
      exact (hOther rfl hIs (by simp [NodeKind.tag])).elim
  | length hIs =>
      exact (hCreation (congrArg Placed.label hOld) hIs).elim
  | lengths hIs =>
      exact (hCreation (congrArg Placed.label hOld) hIs).elim
  | elements hIs =>
      exact (hCreation (congrArg Placed.label hOld) hIs).elim
  | size hIs =>
      cases hOld
      rcases hIs with hIs | hIs
      · exact (hOther rfl hIs (by simp [NodeKind.tag])).elim
      · exact (hOther rfl hIs (by simp [NodeKind.tag])).elim
  | test hIs =>
      cases hOld
      exact (hOther rfl hIs (by simp [NodeKind.tag])).elim

/- The call of a store consumes what can retain. -/
theorem Form.storedAs
    {tree : Tree}
    {id target : NodeId}
    {label outer : Label}
    {operands : List Placed}
    {placed : Placed}
    {component : TypeId}
    {node : Node}
    (hTitled : symbols.Titled)
    (hForm : Form symbols table options whole parts made lost)
    (hOld : whole.old =
      .node id label [.node target outer operands, placed])
    (hHolds : tree.Holds whole.old)
    (hStored : stored? symbols label
      [.node outer (operands.map (·.view)), placed.view] =
        some (some ⟨component, placed.label.shape.canRetain⟩))
    (hNode : tree.get? placed.id = some node) :
    StoredAs symbols component node.kind whole.new.view := by
  rcases hForm.call_of_stored hOld hStored with
    ⟨function, lowered, last, hLength, hFunction, hValid, hView⟩
  rw [hOld] at hHolds
  rcases eq_of_stored? hStored with
    ⟨_, _, hBoth, _, hAccess, _, _⟩
  cases hBoth
  rcases operands_of_access
      (hHolds.child List.mem_cons_self) hAccess with
    ⟨array, index, rfl⟩
  rcases lowered with _ | ⟨array', _ | ⟨index', _ | ⟨_, _⟩⟩⟩ <;>
    simp at hLength
  have hPlaced : tree.Holds placed := hHolds.child (by simp)
  have hLabel := (hPlaced.of_get? hNode).1
  have hCan : placed.label.shape.canRetain =
      node.kind.canRetain := by
    rw [← hLabel]
    exact node.kind.canRetain_shape
  have hMarked : placed.label.shape.marked =
      node.kind.marked := by
    rw [← hLabel]
    exact node.kind.marked_shape
  have hName := text_of_storeFunction? hFunction
  rcases form_of_valid hPlaced hValid with
    ⟨parts', made', lost', hValue⟩
  rw [hView]
  cases hConsumes : node.kind.canRetain with
  | true =>
      rw [hCan, hConsumes] at hName
      exact .consumed (consumable_iff.mpr hConsumes) hName
        (hValue.retained hTitled rfl (hCan.trans hConsumes))
  | false =>
      rw [hCan, hConsumes] at hName
      refine .plain ?_ hName ?_
      · rw [consumable_iff, hConsumes]
        exact Bool.false_ne_true
      · intro hLast
        rw [Placed.label_view] at hLast
        rcases hValue.marked hLast with hWas | ⟨_, hCould⟩
        · exact hMarked ▸ hWas
        · rw [hCan, hConsumes] at hCould
          exact absurd hCould Bool.false_ne_true

end Passages

------------------------------------------------------------
-- Runs
------------------------------------------------------------

section Runs

variable {table : BindingTable}
variable {options : Options}
variable {root result n m : NodeId}
variable {before after : Workspace}

/- A method has one selector. -/
private theorem selector_unique
    {cache : Cache}
    {method cls cls' : ElementId}
    {selector selector' : String}
    (hIs : cache.IsMethodOf method cls selector)
    (hIs' : cache.IsMethodOf method cls' selector') :
    selector = selector' := by
  rcases hIs with ⟨data, name, params, ty, hData, _, hKind, hText⟩
  rcases hIs' with
    ⟨data', name', params', ty', hData', _, hKind', hText'⟩
  rw [hData] at hData'
  cases hData'
  rw [hKind] at hKind'
  cases hKind'
  rw [hText] at hText'
  exact Option.some.inj hText'

/- Texts that start differently differ. -/
private theorem ne_newArray
    {text rest : String}
    (hFirst : text.toList.head? ≠ some 'n') :
    text ≠ "newArray" ++ rest := by
  intro hEq
  apply hFirst
  rw [hEq, String.toList_append]
  rfl

/- Each store ends as the call that it is to be stored by. -/
private theorem storedAs_of_ends
    {store target value : NodeId}
    {component : TypeId}
    {node : Node}
    (hStart : Start table root before)
    (hRun : lower table options root before =
      .ok result after)
    (hTitled : after.symbols.Titled)
    (hStores : Stores after.symbols before.tree root store
      target value component)
    (hNode : before.tree.get? value = some node)
    (hEnds : Ends table options root result before after
      store m) :
    ∃ view,
      after.tree.view? m = some view ∧
        StoredAs after.symbols component node.kind view := by
  rcases hStart.yields hRun hEnds with ⟨part, hYields⟩
  have hHolds := hYields.standing.holds
  have hShown := hYields.shows.view?_eq hYields.nodup
  rw [hYields.new_id] at hShown
  refine ⟨part.new.view, hShown, ?_⟩
  rcases form_of_valid hHolds hYields.valid with
    ⟨parts, made, lost, hForm⟩
  rcases part with
    ⟨assigned, handed, ⟨id, label, children⟩, new⟩
  have hPlace : id = store := hYields.old_id
  subst hPlace
  rcases hStores.stored? hHolds with
    ⟨outer, operands, placed, rfl, rfl, hStored⟩
  exact hForm.storedAs hTitled rfl hHolds hStored hNode

/- Nodes of the store are marked where they are handed over. -/
private theorem marked_after
    {node : Node}
    (hStart : Start table root before)
    (hRun : lower table options root before =
      .ok result after)
    (hNode : before.tree.get? n = some node) :
    ∃ node',
      after.tree.get? n = some node' ∧
        (node'.kind.marked = true ↔
          node.kind.marked = true ∨
            HandedOver after.symbols before.tree root n ∧
              Consumable node.kind) := by
  have hLooks : before.tree.Looks n node.label
      node.kind.children := ⟨node, hNode, rfl, rfl⟩
  rcases hStart.looksAfter hRun hLooks with
    ⟨handed, listed, hAfter⟩
  rcases hAfter.looks with ⟨node', hNode', hLabel, _⟩
  refine ⟨node', hNode', ?_⟩
  have hMarked := node.label.marked_retainIf handed
  rw [← hLabel] at hMarked
  have hShape (other : Node) :
      other.label.shape = other.kind.shape := rfl
  simp only [hShape, NodeKind.marked_shape,
    NodeKind.canRetain_shape] at hMarked
  rw [hMarked, hAfter.handed_iff, consumable_iff]

/- What is marked below the result was, or is handed over. -/
private theorem marked_below
    {node : Node}
    (hStart : Start table root before)
    (hRun : lower table options root before =
      .ok result after)
    (hBelow : after.tree.Below result m)
    (hNode : after.tree.get? m = some node)
    (hMarked : node.kind.marked = true) :
    ∃ n old,
      Becomes table options root result before after n m ∧
        before.tree.get? n = some old ∧
        (old.kind.marked = true ∨
          HandedOver after.symbols before.tree root n ∧
            Consumable old.kind) := by
  rw [← NodeKind.marked_shape] at hMarked
  have hShape : node.label.shape.marked = true := hMarked
  cases hStart.cameOf hRun hBelow hNode with
  | @became n old part _ _ _ hBecomes hYields _ hForm hOld
      hOldLabel hLabel =>
      refine ⟨n, old, hBecomes, hOld, ?_⟩
      rw [← hLabel] at hShape
      rcases hForm.marked hShape with hWas | ⟨hHanded, hCan⟩
      · rw [hOldLabel] at hWas
        exact Or.inl (old.kind.marked_shape ▸ hWas)
      · rw [hOldLabel] at hCan
        exact Or.inr ⟨hYields.handed_iff.mp hHanded,
          consumable_iff.mpr (old.kind.canRetain_shape ▸ hCan)⟩
  | plain hTag =>
      cases hKind : node.label.shape <;>
        rw [hKind] at hTag hShape <;>
        simp [NodeKind.tag, NodeKind.marked] at hTag hShape
  | call hCall =>
      rw [hCall] at hShape
      exact absurd hShape Bool.false_ne_true

/- A factory whose selector starts so makes retained arrays. -/
private theorem retained_of_starts
    {symbols : Symbols}
    {retained : Bool}
    {method : ElementId}
    (hStarts : SelectorStarts symbols (factoryStart retained)
      method)
    (hNew : SelectorStarts symbols "newArray" method) :
    retained = true := by
  rcases hStarts with ⟨cls, rest, hMethod⟩
  rcases hNew with ⟨cls', rest', hMethod'⟩
  have hSame := selector_unique hMethod hMethod'
  cases retained with
  | true => rfl
  | false =>
      exfalso
      refine ne_newArray ?_ hSame
      rw [String.toList_append]
      simp [factoryStart]

/- Calls for retained arrays are of what is to be retained. -/
private theorem retained_below
    {node : Node}
    {method : ElementId}
    (hStart : Start table root before)
    (hRun : lower table options root before =
      .ok result after)
    (hTitled : after.symbols.Titled)
    (hManual : options.useArc = false)
    (hBelow : after.tree.Below result m)
    (hNode : after.tree.get? m = some node)
    (hCalls : node.kind.tag = .methodInvocation)
    (hElement : node.element = some method)
    (hStarts : SelectorStarts after.symbols "newArray"
      method) :
    ∃ n old,
      Becomes table options root result before after n m ∧
        before.tree.get? n = some old ∧
        (old.kind.tag = .methodInvocation ∧
            old.element = some method ∨
          ∃ dimensions initializer marked,
            old.kind = .arrayCreation dimensions initializer
                marked ∧
              (marked = true ∨
                HandedOver after.symbols before.tree root
                  n)) := by
  rw [← NodeKind.tag_shape] at hCalls
  have hTag : node.label.shape.tag = .methodInvocation := hCalls
  cases hStart.cameOf hRun hBelow hNode with
  | @became n old part _ _ _ hBecomes hYields _ hForm hOld
      hOldLabel hLabel =>
      refine ⟨n, old, hBecomes, hOld, ?_⟩
      have hIs : part.new.label.element = some method := by
        rw [hLabel]
        exact hElement
      rw [← hLabel] at hTag
      cases hForm.selected hTitled hTag with
      | kept hWas hSame =>
          rw [hIs, hOldLabel] at hSame
          rw [hOldLabel] at hWas
          exact Or.inl ⟨(NodeKind.tag_shape _).symm.trans hWas,
            hSame.symm⟩
      | factory hShape hFactory hStart' =>
          cases hIs.symm.trans hFactory
          have hRetained := retained_of_starts hStart' hStarts
          rw [hManual, Bool.or_false] at hRetained
          rw [hRetained, hOldLabel] at hShape
          rcases kind_of_creation hShape with
            ⟨dimensions, initializer, marked, hKind, _, _⟩
          refine Or.inr
            ⟨dimensions, initializer, marked, hKind, ?_⟩
          rw [shape_of_creation hKind] at hShape
          injection hShape with _ _ hMarks
          rcases Bool.or_eq_true_iff.mp hMarks with
            hMarked | hHanded
          · exact Or.inl hMarked
          · exact Or.inr (hYields.handed_iff.mp hHanded)
      | test _ hTest hIsTest =>
          cases hIs.symm.trans hTest
          rcases hStarts with ⟨cls, rest, hMethod⟩
          exact absurd (selector_unique hIsTest hMethod)
            (ne_newArray (by decide))
  | plain hPlain =>
      rw [hTag] at hPlain
      exact absurd hPlain (by simp)
  | call hCall =>
      rw [hCall] at hTag
      exact absurd hTag (by simp [NodeKind.tag])

end Runs

/-
  A run transfers ownership where it stores. Each store ends as
  a call that consumes its value, which is then retained, or as
  one that takes it as it is. No node is marked but what a
  store hands over, and below the result all that is marked was
  marked or is handed over. Under reference counting, the calls
  below the result that make retained arrays were there, or are
  of creations that were marked or are handed over.
-/
theorem stores_transfer_ownership
    {table : BindingTable}
    {options : Options}
    {root result : NodeId}
    {before after : Workspace}
    (hStart : Start table root before)
    (hRun : lower table options root before =
      .ok result after) :
    (∀ store target value component node,
      Stores after.symbols before.tree root store target value
          component →
        before.tree.get? value = some node →
          Persists table options root result before after
              store ∧
            ∀ m,
              Ends table options root result before after
                  store m →
                ∃ view,
                  after.tree.view? m = some view ∧
                    StoredAs after.symbols component node.kind
                      view) ∧
      (∀ n node,
        before.tree.get? n = some node →
          ∃ node',
            after.tree.get? n = some node' ∧
              (node'.kind.marked = true ↔
                node.kind.marked = true ∨
                  HandedOver after.symbols before.tree root n ∧
                    Consumable node.kind)) ∧
      (∀ m node,
        after.tree.Below result m →
          after.tree.get? m = some node →
            node.kind.marked = true →
              ∃ n old,
                Becomes table options root result before after
                    n m ∧
                  before.tree.get? n = some old ∧
                  (old.kind.marked = true ∨
                    HandedOver after.symbols before.tree root
                        n ∧
                      Consumable old.kind)) ∧
      ∀ m node method,
        options.memoryManagement = .referenceCounting →
          after.tree.Below result m →
            after.tree.get? m = some node →
              node.kind.tag = .methodInvocation →
                node.element = some method →
                  SelectorStarts after.symbols "newArray"
                      method →
                    ∃ n old,
                      Becomes table options root result before
                          after n m ∧
                        before.tree.get? n = some old ∧
                        (old.kind.tag = .methodInvocation ∧
                            old.element = some method ∨
                          ∃ dimensions initializer marked,
                            old.kind = .arrayCreation
                                dimensions initializer marked ∧
                              (marked = true ∨
                                HandedOver after.symbols
                                  before.tree root n)) := by
  have hTitled := hStart.titled hRun
  refine ⟨?_, ?_, ?_, ?_⟩
  · intro store target value component node hStores hNode
    refine ⟨hStart.persists hRun hStores.below
      hStores.untaken, ?_⟩
    intro m hEnds
    exact storedAs_of_ends hStart hRun hTitled hStores hNode
      hEnds
  · intro n node hNode
    exact marked_after hStart hRun hNode
  · intro m node hBelow hNode hMarked
    exact marked_below hStart hRun hBelow hNode hMarked
  · intro m node method hManual hBelow hNode hCalls hElement
      hStarts
    refine retained_below hStart hRun hTitled ?_ hBelow hNode
      hCalls hElement hStarts
    unfold Options.useArc
    rw [hManual]
    rfl

------------------------------------------------------------
-- An Object To Store
------------------------------------------------------------

/- The statement that stores a new object among some others. -/
def storeItem : Workspace where
  tree := ⟨#[
    { kind := .simpleName ⟨1⟩
      parent := some ⟨2⟩ },
    { kind := .numberLiteral 0
      parent := some ⟨2⟩ },
    { kind := .arrayAccess ⟨0⟩ ⟨1⟩
      ty := some ⟨12⟩
      parent := some ⟨4⟩ },
    { kind := .classInstanceCreation [] false
      ty := some ⟨12⟩
      parent := some ⟨4⟩ },
    { kind := .assignment .assign ⟨2⟩ ⟨3⟩
      ty := some ⟨12⟩ }]⟩
  cache := itemsSymbols.cache
  env := itemsSymbols.env

theorem reached_storeItem : storeItem.tree.Reached := by
  have hItems := Tree.Reached.empty.edit
    (.alloc (.simpleName ⟨1⟩) none none) rfl
  have hIndex := hItems.edit
    (.alloc (.numberLiteral 0) none none) rfl
  have hTarget := hIndex.edit
    (.alloc (.arrayAccess ⟨0⟩ ⟨1⟩) (some ⟨12⟩) none) rfl
  have hValue := hTarget.edit
    (.alloc (.classInstanceCreation [] false) (some ⟨12⟩) none)
    rfl
  exact hValue.edit
    (.alloc (.assignment .assign ⟨2⟩ ⟨3⟩) (some ⟨12⟩) none) rfl

theorem holds_storeItem :
    storeItem.tree.Holds (.node ⟨4⟩
      ⟨.assignment .assign () (), some ⟨12⟩, none⟩
      [.node ⟨2⟩ ⟨.arrayAccess () (), some ⟨12⟩, none⟩
          [.node ⟨0⟩ ⟨.simpleName ⟨1⟩, none, none⟩ [],
            .node ⟨1⟩ ⟨.numberLiteral 0, none, none⟩ []],
        .node ⟨3⟩
          ⟨.classInstanceCreation [] false, some ⟨12⟩, none⟩
          []]) := by
  have hItems : storeItem.tree.Holds
      (.node ⟨0⟩ ⟨.simpleName ⟨1⟩, none, none⟩ []) :=
    .node rfl rfl rfl (by simp) (by simp)
  have hIndex : storeItem.tree.Holds
      (.node ⟨1⟩ ⟨.numberLiteral 0, none, none⟩ []) :=
    .node rfl rfl rfl (by simp) (by simp)
  have hTarget : storeItem.tree.Holds
      (.node ⟨2⟩ ⟨.arrayAccess () (), some ⟨12⟩, none⟩
        [.node ⟨0⟩ ⟨.simpleName ⟨1⟩, none, none⟩ [],
          .node ⟨1⟩ ⟨.numberLiteral 0, none, none⟩ []]) := by
    refine .node rfl rfl rfl ?_ ?_
    · simp only [List.mem_cons, List.not_mem_nil, or_false,
        forall_eq_or_imp, forall_eq]
      exact ⟨rfl, rfl⟩
    · simp only [List.mem_cons, List.not_mem_nil, or_false,
        forall_eq_or_imp, forall_eq]
      exact ⟨hItems, hIndex⟩
  have hValue : storeItem.tree.Holds
      (.node ⟨3⟩
        ⟨.classInstanceCreation [] false, some ⟨12⟩, none⟩
        []) :=
    .node rfl rfl rfl (by simp) (by simp)
  refine .node rfl rfl rfl ?_ ?_
  · simp only [List.mem_cons, List.not_mem_nil, or_false,
      forall_eq_or_imp, forall_eq]
    exact ⟨rfl, rfl⟩
  · simp only [List.mem_cons, List.not_mem_nil, or_false,
      forall_eq_or_imp, forall_eq]
    exact ⟨hTarget, hValue⟩

/- Lowering can start at the statement. -/
theorem start_storeItem : Start ⟨#[]⟩ ⟨4⟩ storeItem where
  reached := reached_storeItem
  formed := holds_storeItem.wellFormed (by simp)
  session := start_readItem.session

theorem run_lower_storeItem :
    lower ⟨#[]⟩ {} ⟨4⟩ storeItem =
      .ok ⟨5⟩ (finalState (lower ⟨#[]⟩ {} ⟨4⟩ storeItem)) := by
  apply eq_ok_of_answer?
  decide +kernel

/- The new object is consumed by the call that stores it. -/
theorem stores_transfer_ownership_storeItem :
    ∃ after,
      lower ⟨#[]⟩ {} ⟨4⟩ storeItem = .ok ⟨5⟩ after ∧
        Persists ⟨#[]⟩ {} ⟨4⟩ ⟨5⟩ storeItem after ⟨4⟩ ∧
        ∀ m,
          Ends ⟨#[]⟩ {} ⟨4⟩ ⟨5⟩ storeItem after ⟨4⟩ m →
            ∃ view,
              after.tree.view? m = some view ∧
                StoredAs after.symbols ⟨12⟩
                  (.classInstanceCreation [] false) view := by
  refine ⟨_, run_lower_storeItem, ?_⟩
  have hStores : Stores
      (finalState (lower ⟨#[]⟩ {} ⟨4⟩ storeItem)).symbols
      storeItem.tree ⟨4⟩ ⟨4⟩ ⟨2⟩ ⟨3⟩ ⟨12⟩ :=
    ⟨Relation.ReflTransGen.refl, ⟨_, rfl, rfl⟩,
      ⟨_, rfl, rfl, rfl⟩, by decide +kernel⟩
  exact (stores_transfer_ownership start_storeItem
    run_lower_storeItem).1 ⟨4⟩ ⟨2⟩ ⟨3⟩ ⟨12⟩ _ hStores rfl

end Arrays

end Lowering
