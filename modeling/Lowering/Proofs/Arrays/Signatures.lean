import Lowering.Proofs.Arrays.InUse
import Lowering.Proofs.Arrays.Created
import Lowering.Proofs.Arrays.Consumed

/-
  This file proves what the methods take that lowered creations
  and type tests call.

  A method is made for the first call of its selector on a
  class, and all later calls share it. A selector tells the
  form of a creation, whether it is retained, and whether its
  component is a value primitive; it names the sort of given
  elements, but not their type. So each call has the parameters
  that its construct asks for, but for given elements: there,
  the first parameter is the pointer that was first asked for,
  to a component of the same sort.

  Key definitions include:
    * `Arrays.forms`
    * `Arrays.Signature`
    * `Arrays.InitializesOver`
    * `Arrays.Calls`
    * `Arrays.FactoryMethod`

  Main results:
    * `Arrays.selector_inj`
    * `Arrays.signature_of_answers`
    * `Arrays.calls_share_signatures`
-/

namespace Lowering

namespace Arrays

open Symbols

------------------------------------------------------------
-- Selectors
------------------------------------------------------------

/- The plurals of all sorts of elements. -/
def categories : List String :=
  "Objects" :: PrimitiveKind.all.map (·.category)

/- The forms of all factories. -/
def forms : List CreationForm :=
  .length :: .lengths :: categories.map .elements

/- A selector tells all that it is made of. -/
theorem selector_inj :
    ∀ form ∈ forms, ∀ form' ∈ forms,
      ∀ retained primitive retained' primitive',
        form.selector retained primitive =
            form'.selector retained' primitive' →
          form = form' ∧ retained = retained' ∧
            primitive = primitive' := by
  decide +kernel

/- No factory has the selector of the type test. -/
theorem selector_ne_test :
    ∀ form ∈ forms, ∀ retained primitive,
      form.selector retained primitive ≠ "isInstance" := by
  decide +kernel

section Forms

variable {symbols : Symbols}
variable {component : TypeId}
variable {primitive : Bool}
variable {category : String}

theorem mem_categories
    (hCategory : category? symbols component primitive =
      some category) :
    category ∈ categories := by
  unfold category? at hCategory
  cases primitive with
  | false =>
      cases hCategory
      exact List.mem_cons_self
  | true =>
      rcases Option.bind_eq_some_iff.mp hCategory with
        ⟨kind, _, hKind⟩
      rcases Option.map_eq_some_iff.mp hKind with
        ⟨primitive, _, rfl⟩
      apply List.mem_cons_of_mem
      apply List.mem_map_of_mem
      cases primitive <;> decide

theorem elements_mem_forms
    (hCategory : category? symbols component primitive =
      some category) :
    .elements category ∈ forms :=
  List.mem_cons_of_mem _ (List.mem_cons_of_mem _
    (List.mem_map_of_mem (mem_categories hCategory)))

theorem HasForm.mem_forms
    {array : TypeId}
    {dimensions : Nat}
    {initialized : Bool}
    {form : CreationForm}
    (hForm : HasForm symbols array dimensions initialized form
      component) :
    form ∈ forms := by
  cases hForm with
  | elements _ _ _ hCategory =>
      exact elements_mem_forms hCategory
  | length => exact List.mem_cons_self
  | lengths =>
      exact List.mem_cons_of_mem _ List.mem_cons_self

end Forms

------------------------------------------------------------
-- Signatures
------------------------------------------------------------

/-
  The types of the parameters of the factory of a form, where
  given elements are of a type that was asked for.
-/
inductive Signature
    (symbols : Symbols)
    (asked : TypeId → Prop) :
    CreationForm → Bool → List TypeId → Prop
  | elements
      {component values int : TypeId}
      {primitive : Bool}
      {category : String}
      {object : List TypeId}
      (was_asked : asked component)
      (primitive_eq : isPrimitive? symbols component =
        some primitive)
      (category_eq : category? symbols component primitive =
        some category)
      (values_eq : symbols.synthetic? (.pointer component) =
        some values)
      (int_eq : symbols.primitiveType? .int = some int)
      (object_eq : objectTypes? symbols primitive =
        some object) :
      Signature symbols asked (.elements category) primitive
        ([values, int] ++ object)
  | length
      {int : TypeId}
      {primitive : Bool}
      {object : List TypeId}
      (int_eq : symbols.primitiveType? .int = some int)
      (object_eq : objectTypes? symbols primitive =
        some object) :
      Signature symbols asked .length primitive
        ([int] ++ object)
  | lengths
      {int ints : TypeId}
      {primitive : Bool}
      {object : List TypeId}
      (int_eq : symbols.primitiveType? .int = some int)
      (ints_eq : symbols.synthetic? (.pointer int) =
        some ints)
      (object_eq : objectTypes? symbols primitive =
        some object) :
      Signature symbols asked .lengths primitive
        ([int, ints] ++ object)

section Signatures

variable {symbols : Symbols}
variable {want : Wanted → Prop}
variable {asked asked' : TypeId → Prop}

theorem Signature.mono
    {form : CreationForm}
    {primitive : Bool}
    {types : List TypeId}
    (hAsked : ∀ component,
      asked component →
        asked' component)
    (hSignature : Signature symbols asked form primitive
      types) :
    Signature symbols asked' form primitive types := by
  cases hSignature with
  | elements hFirst hPrimitive hCategory hValues hInt hObject =>
      exact .elements (hAsked _ hFirst) hPrimitive hCategory
        hValues hInt hObject
  | length hInt hObject => exact .length hInt hObject
  | lengths hInt hInts hObject =>
      exact .lengths hInt hInts hObject

/- Arrays of elements of a component are wanted. -/
def ElementsWanted
    (symbols : Symbols)
    (want : Wanted → Prop)
    (retained : Bool)
    (component : TypeId) : Prop :=
  ∃ array,
    component? symbols array = some component ∧
      want (.elements array retained)

/- What a request for a factory asks for besides its form. -/
private theorem eq_of_factoryRequest?
    {component : TypeId}
    {form : CreationForm}
    {retained primitive : Bool}
    {types : List TypeId}
    {request : Request}
    (hRequest : factoryRequest? symbols component form retained
      primitive types = some request) :
    ∃ object,
      objectTypes? symbols primitive = some object ∧
        request.selector = form.selector retained primitive ∧
        request.types = types ++ object := by
  rcases Option.bind_eq_some_iff.mp hRequest with
    ⟨cls, _, hRequest⟩
  rcases Option.bind_eq_some_iff.mp hRequest with
    ⟨object, hObject, hRequest⟩
  cases hRequest
  exact ⟨object, hObject, rfl, rfl⟩

/- A request is for the type test, or for a factory. -/
private theorem signature_of_request?
    {wanted : Wanted}
    {request : Request}
    (hWanted : want wanted)
    (hRequest : wanted.request? symbols = some request) :
    (request.selector = "isInstance" ∧
        request.types = [symbols.env.idType]) ∨
      ∃ form ∈ forms, ∃ retained primitive,
        request.selector = form.selector retained primitive ∧
          Signature symbols
            (ElementsWanted symbols want retained)
            form primitive request.types := by
  cases wanted with
  | elements array retained =>
      rcases Option.bind_eq_some_iff.mp hRequest with
        ⟨component, hComponent, hRequest⟩
      rcases Option.bind_eq_some_iff.mp hRequest with
        ⟨primitive, hPrimitive, hRequest⟩
      rcases Option.bind_eq_some_iff.mp hRequest with
        ⟨category, hCategory, hRequest⟩
      rcases Option.bind_eq_some_iff.mp hRequest with
        ⟨values, hValues, hRequest⟩
      rcases Option.bind_eq_some_iff.mp hRequest with
        ⟨int, hInt, hRequest⟩
      rcases eq_of_factoryRequest? hRequest with
        ⟨object, hObject, hSelector, hTypes⟩
      rw [hTypes]
      exact Or.inr ⟨_, elements_mem_forms hCategory, retained,
        primitive, hSelector,
        .elements ⟨array, hComponent, hWanted⟩ hPrimitive
          hCategory hValues hInt hObject⟩
  | length array retained =>
      rcases Option.bind_eq_some_iff.mp hRequest with
        ⟨component, _, hRequest⟩
      rcases Option.bind_eq_some_iff.mp hRequest with
        ⟨primitive, _, hRequest⟩
      rcases Option.bind_eq_some_iff.mp hRequest with
        ⟨int, hInt, hRequest⟩
      rcases eq_of_factoryRequest? hRequest with
        ⟨object, hObject, hSelector, hTypes⟩
      rw [hTypes]
      exact Or.inr ⟨_, by decide, retained, primitive,
        hSelector, .length hInt hObject⟩
  | lengths array dimensions retained =>
      rcases Option.bind_eq_some_iff.mp hRequest with
        ⟨component, _, hRequest⟩
      rcases Option.bind_eq_some_iff.mp hRequest with
        ⟨primitive, _, hRequest⟩
      rcases Option.bind_eq_some_iff.mp hRequest with
        ⟨int, hInt, hRequest⟩
      rcases Option.bind_eq_some_iff.mp hRequest with
        ⟨ints, hInts, hRequest⟩
      rcases eq_of_factoryRequest? hRequest with
        ⟨object, hObject, hSelector, hTypes⟩
      rw [hTypes]
      exact Or.inr ⟨_, by decide, retained, primitive,
        hSelector, .lengths hInt hInts hObject⟩
  | test =>
      cases hRequest
      exact Or.inl ⟨rfl, rfl⟩

/- What a method takes is told by the form in its selector. -/
theorem signature_of_answers
    {cls method : ElementId}
    {name : Name}
    {form : CreationForm}
    {retained primitive : Bool}
    (hForm : form ∈ forms)
    (hText : symbols.text? name =
      some (form.selector retained primitive))
    (hAnswers : Answers want symbols cls name method) :
    ∃ types,
      symbols.cache.parameterTypes? method = some types ∧
        Signature symbols
          (ElementsWanted symbols want retained)
          form primitive types := by
  rcases hAnswers with
    ⟨wanted, request, hWanted, hRequest, _, hTitle, _, hTypes⟩
  rw [hText, Option.some.injEq] at hTitle
  refine ⟨request.types, hTypes, ?_⟩
  rcases signature_of_request? hWanted hRequest with
    ⟨hTest, _⟩ |
    ⟨form', hForm', retained', primitive', hSelector,
      hSignature⟩
  · rw [hTest] at hTitle
    exact absurd hTitle (selector_ne_test form hForm _ _)
  · rw [hSelector] at hTitle
    rcases selector_inj form hForm form' hForm' _ _ _ _ hTitle
      with ⟨rfl, rfl, rfl⟩
    exact hSignature

/- What the method of the type test takes. -/
theorem types_of_answers_test
    {cls method : ElementId}
    {name : Name}
    (hText : symbols.text? name = some "isInstance")
    (hAnswers : Answers want symbols cls name method) :
    symbols.cache.parameterTypes? method =
      some [symbols.env.idType] := by
  rcases hAnswers with
    ⟨wanted, request, hWanted, hRequest, _, hTitle, _, hTypes⟩
  rw [hText, Option.some.injEq] at hTitle
  rw [hTypes]
  rcases signature_of_request? hWanted hRequest with
    ⟨_, hTest⟩ | ⟨form, hForm, retained, primitive, hSelector, _⟩
  · rw [hTest]
  · rw [hSelector] at hTitle
    exact absurd hTitle.symm (selector_ne_test form hForm _ _)

end Signatures

------------------------------------------------------------
-- What Is Asked For
------------------------------------------------------------

/-
  Below a root, an array over a component is created from an
  initializer, and it is retained or not.
-/
def InitializesOver
    (symbols : Symbols)
    (options : Options)
    (tree : Tree)
    (root : NodeId)
    (retained : Bool)
    (component : TypeId) : Prop :=
  ∃ n node dimensions initializer marked array handed,
    tree.Below root n ∧
      tree.get? n = some node ∧
      node.kind =
        .arrayCreation dimensions (some initializer) marked ∧
      node.ty = some array ∧
      component? symbols array = some component ∧
      (handed = true ↔ HandedOver symbols tree root n) ∧
      retained = (marked || handed || options.useArc)

/- A method is recorded, with parameters of some types. -/
def Recorded
    (symbols : Symbols)
    (method : ElementId)
    (types : List TypeId) : Prop :=
  (∃ key,
    symbols.env.members.methods.lookup key = some method) ∧
      symbols.cache.parameterTypes? method = some types

section Asked

variable {symbols : Symbols}
variable {options : Options}
variable {tree : Tree}

/- Only an initialised creation wants given elements. -/
private theorem shape_of_wants?
    {label : Label}
    {array : TypeId}
    {retained : Bool}
    (hWants : wants? options label =
      some (.elements array retained)) :
    ∃ dimensions initializer marked,
      label.shape =
          .arrayCreation dimensions (some initializer) marked ∧
        label.ty = some array ∧
        retained = (marked || options.useArc) := by
  unfold wants? at hWants
  split at hWants
  · next hShape hTy =>
    cases hWants
    exact ⟨_, _, _, hShape, hTy, rfl⟩
  all_goals exact absurd hWants (by simp)

/- The mark of a creation is its own, or it is handed over. -/
private theorem kind_of_initialized
    {node : Node}
    {handed marked : Bool}
    {dimensions : List Unit}
    {initializer : Unit}
    (hShape : (node.label.retainIf handed).shape =
      .arrayCreation dimensions (some initializer) marked) :
    ∃ operands last flag,
      node.kind = .arrayCreation operands (some last) flag ∧
        marked = (flag || handed) := by
  rcases kind_of_creation hShape with
    ⟨operands, last, flag, hKind, _, hLast⟩
  rw [shape_of_creation hKind] at hShape
  injection hShape with _ _ hMarked
  cases last with
  | none => cases hLast
  | some last =>
      exact ⟨operands, last, flag, hKind, hMarked.symm⟩

/- What a run wants is what stands below its root. -/
private theorem initializesOver_of_wanted
    {top : Placed}
    {retained : Bool}
    {component : TypeId}
    (hFormed : tree.WellFormed top.id)
    (hHolds : tree.Holds top)
    (hWanted : ElementsWanted symbols
      (WantedIn options symbols top.view) retained component) :
    InitializesOver symbols options tree top.id retained
      component := by
  rcases hWanted with
    ⟨array, hComponent, view, hReaches, hWants⟩
  rcases @exists_below_of_reaches symbols tree top hFormed _ _
      hReaches top false hHolds Relation.ReflTransGen.refl
      (iff_of_false (by simp) (not_handedOver_root hFormed))
      rfl with
    ⟨⟨id, label, children⟩, handed, hFound, hBelow, hHanded,
      rfl⟩
  rcases hFound.stored with ⟨node, hNode, hLabel, _⟩
  rw [Placed.label_node] at hLabel
  subst hLabel
  rw [view_of_handed] at hWants
  rcases shape_of_wants? hWants with
    ⟨_, _, _, hShape, hTy, rfl⟩
  rcases kind_of_initialized hShape with
    ⟨dimensions, initializer, marked, hKind, rfl⟩
  have hArray : node.ty = some array := by
    cases handed <;> exact hTy
  exact ⟨id, node, dimensions, initializer, marked, array,
    handed, hBelow, hNode, hKind, hArray, hComponent, hHanded,
    rfl⟩

end Asked

------------------------------------------------------------
-- Calls
------------------------------------------------------------

/- A call of a method whose parameters are of some types. -/
structure Calls
    (symbols : Symbols)
    (view : View)
    (method : ElementId)
    (types : List TypeId) : Prop where
  tag : view.label.shape.tag = .methodInvocation
  element : view.label.element = some method
  takes : symbols.cache.parameterTypes? method = some types

/-
  The method that a creation calls: that of the runtime class
  of its component, by the selector of its form.
-/
structure FactoryMethod
    (symbols : Symbols)
    (array : TypeId)
    (dimensions : Nat)
    (initialized retained : Bool)
    (form : CreationForm)
    (component : TypeId)
    (primitive : Bool)
    (method : ElementId) : Prop where
  has_form : HasForm symbols array dimensions initialized form
    component
  primitive_eq : isPrimitive? symbols component =
    some primitive
  recorded : ∃ cls,
    symbols.arrayClass? component = some cls ∧
      symbols.method? cls (form.selector retained primitive) =
        some method

section Calls

variable {table : BindingTable}
variable {options : Options}
variable {root result n m : NodeId}
variable {before after : Workspace}
variable {part : Passage}

/-
  A method that a run looks up was recorded before, or answers
  what the run wants.
-/
private theorem answers_of_method?
    (hReached : before.tree.Reached)
    (hFormed : before.tree.WellFormed root)
    (hInUse : InUse table before.symbols)
    (hRun : lower table options root before =
      .ok result after)
    {cls method : ElementId}
    {selector : String}
    (hMethod : after.symbols.method? cls selector =
      some method) :
    ∃ name top,
      after.symbols.text? name = some selector ∧
        top.id = root ∧
        before.tree.Holds top ∧
        ((∃ types,
            Recorded before.symbols method types ∧
              after.symbols.cache.parameterTypes? method =
                some types ∧
              Answers (fun _ => True) after.symbols cls name
                method) ∨
          Answers (WantedIn options after.symbols top.view)
            after.symbols cls name method) := by
  rcases hFormed.standing hReached with ⟨top, hTop, hStanding⟩
  subst hTop
  have hEvolved := evolved_lower hStanding hInUse.session.ready
    hRun
  rcases recorded_of_method? hMethod with
    ⟨name, hText, hFound⟩
  refine ⟨name, top, hText, rfl, hStanding.holds, ?_⟩
  apply (hEvolved.methods cls name method hFound).imp_left
  intro hOld
  have hAnswers := hInUse.answered cls name method hOld
  have hLater := hAnswers.mono hEvolved.grown
    (fun _ => hEvolved.adds.parameterTypes?)
    fun _ hWanted => hWanted
  rcases hAnswers with ⟨_, request, _, _, _, _, _, hTypes⟩
  exact ⟨request.types, ⟨⟨(cls, name), hOld⟩, hTypes⟩,
    hEvolved.adds.parameterTypes? hTypes, hLater⟩

/- What the factories take that a run looks up. -/
private theorem signature_of_method?
    (hReached : before.tree.Reached)
    (hFormed : before.tree.WellFormed root)
    (hInUse : InUse table before.symbols)
    (hRun : lower table options root before =
      .ok result after)
    {cls method : ElementId}
    {form : CreationForm}
    {retained primitive : Bool}
    (hForm : form ∈ forms)
    (hMethod : after.symbols.method? cls
      (form.selector retained primitive) = some method) :
    ∃ types,
      after.symbols.cache.parameterTypes? method = some types ∧
        Signature after.symbols
          (fun component =>
            Recorded before.symbols method types ∨
              InitializesOver after.symbols options before.tree
                root retained component)
          form primitive types := by
  rcases answers_of_method? hReached hFormed hInUse hRun
      hMethod with
    ⟨name, top, hText, rfl, hHolds,
      ⟨known, hOld, hKnown, hAnswers⟩ | hNew⟩
  · rcases signature_of_answers hForm hText hAnswers with
      ⟨types, hTypes, hSignature⟩
    rw [hKnown] at hTypes
    cases hTypes
    exact ⟨known, hKnown, hSignature.mono fun _ _ =>
      Or.inl hOld⟩
  · rcases signature_of_answers hForm hText hNew with
      ⟨types, hTypes, hSignature⟩
    exact ⟨types, hTypes, hSignature.mono fun _ hWanted =>
      Or.inr (initializesOver_of_wanted hFormed hHolds
        hWanted)⟩

/- What the method of the type test takes in a run. -/
private theorem types_of_method?_test
    (hReached : before.tree.Reached)
    (hFormed : before.tree.WellFormed root)
    (hInUse : InUse table before.symbols)
    (hRun : lower table options root before =
      .ok result after)
    {cls method : ElementId}
    (hMethod : after.symbols.method? cls "isInstance" =
      some method) :
    after.symbols.cache.parameterTypes? method =
      some [after.symbols.env.idType] := by
  rcases answers_of_method? hReached hFormed hInUse hRun
      hMethod with
    ⟨name, top, hText, _, _, ⟨_, _, _, hAnswers⟩ | hNew⟩
  · exact types_of_answers_test hText hAnswers
  · exact types_of_answers_test hText hNew

/- The operands that are lowered are as many as there were. -/
private theorem HasForm.of_operands
    {symbols : Symbols}
    {array component : TypeId}
    {form : CreationForm}
    {lengths values : List Placed}
    {dimensions : List NodeId}
    {initializer : Option NodeId}
    {below : List View}
    (hDimensions : dimensions = lengths.map (·.id))
    (hInitializer : initializer.toList = values.map (·.id))
    (hCount : (lengths ++ values).length = below.length)
    (hForm : HasForm symbols array
      (below.take dimensions.length).length
      (initializer.bind fun _ =>
        below[dimensions.length]?).isSome form component) :
    HasForm symbols array dimensions.length
      initializer.isSome form component := by
  have hLengths := congrArg List.length hDimensions
  rw [List.length_map] at hLengths
  rw [List.length_append] at hCount
  rw [List.length_take, Nat.min_eq_left (by omega)] at hForm
  cases initializer with
  | none => exact hForm
  | some initializer =>
      have hValue : 1 = values.length := by
        simpa using congrArg List.length hInitializer
      rw [Option.bind_some,
        List.getElem?_eq_getElem (by omega)] at hForm
      exact hForm

/- What is yielded of a creation calls the factory it asks for. -/
private theorem Yields.calls_factory
    {node : Node}
    {dimensions : List NodeId}
    {initializer : Option NodeId}
    {marked : Bool}
    (hInUse : InUse table before.symbols)
    (hStart : Start table root before)
    (hRun : lower table options root before =
      .ok result after)
    (hYields : Yields table options root before after n m part)
    (hNode : before.tree.get? n = some node)
    (hKind : node.kind =
      .arrayCreation dimensions initializer marked) :
    ∃ array form component primitive method types,
      node.ty = some array ∧
        FactoryMethod after.symbols array dimensions.length
          initializer.isSome
          (marked || part.handed || options.useArc)
          form component primitive method ∧
        Calls after.symbols part.new.view method types ∧
        Signature after.symbols
          (fun first =>
            Recorded before.symbols method types ∨
              InitializesOver after.symbols options before.tree
                root (marked || part.handed || options.useArc)
                first)
          form primitive types := by
  rw [← hYields.old_id] at hNode
  rcases creation_of_lower? hYields.standing.holds hNode hKind
    hYields.valid with
    ⟨array, lengths, values, below, hTy, _, hDimensions,
      hInitializer, hEach, hCreation⟩
  rcases factory_of_creation? hCreation with
    ⟨form, component, primitive, factory, arguments, hForm,
      hPrimitive, hFactory, hCall⟩
  have hCount := hEach.length_eq
  rw [List.length_map] at hCount
  have hForm := hForm.of_operands hDimensions hInitializer hCount
  rcases eq_of_factory? hFactory with
    ⟨_, _, _, cls, hClass, _, hMethod⟩
  rcases signature_of_method? hStart.reached hStart.formed
    hInUse hRun hForm.mem_forms hMethod with
    ⟨types, hTypes, hSignature⟩
  rcases factory_view factory arguments with ⟨hTag, hElement⟩
  rw [← hCall] at hTag hElement
  exact ⟨array, form, component, primitive, factory.call.method,
    types, hTy, ⟨hForm, hPrimitive, cls, hClass, hMethod⟩,
    ⟨hTag, hElement, hTypes⟩, hSignature⟩

/- A type test stays, or calls the method of the test. -/
private theorem call_of_test
    {symbols : Symbols}
    {assigned handed : Bool}
    {label : Label}
    {children : List View}
    {view : View}
    (hShape : label.shape = .instanceOf () ())
    (hLowered : lower? symbols table options assigned handed
      (.node label children) = some view) :
    view.label = label ∨
      ∃ method,
        symbols.method? symbols.env.iosClass "isInstance" =
            some method ∧
          view.label.shape.tag = .methodInvocation ∧
          view.label.element = some method := by
  rcases finish?_of_lower? (by rw [hShape]; simp [NodeKind.tag])
    hLowered with ⟨below, _, hFinish⟩
  have hPlain : label.retainIf handed = label := by
    apply label.retainIf_eq_self handed
    rw [hShape]
    rfl
  rw [hPlain] at hFinish
  simp only [finish?, hShape] at hFinish
  split at hFinish
  all_goals try contradiction
  · rcases Option.bind_eq_some_iff.mp hFinish with
      ⟨ty, _, hTested⟩
    rcases Option.bind_eq_some_iff.mp hTested with
      ⟨array, _, hTested⟩
    cases array with
    | false =>
        cases hTested
        exact Or.inl rfl
    | true =>
        rcases Option.bind_eq_some_iff.mp hTested with
          ⟨test, hTest, hTested⟩
        rcases Option.bind_eq_some_iff.mp hTest with
          ⟨boolean, _, hTest⟩
        rcases Option.bind_eq_some_iff.mp hTest with
          ⟨method, hMethod, hTest⟩
        rcases Option.bind_eq_some_iff.mp hTest with
          ⟨object, _, hTest⟩
        cases hTest
        cases hTested
        exact Or.inr ⟨method, hMethod, rfl, rfl⟩
  · cases hFinish
    exact Or.inl rfl

/- What is yielded of a type test is the test, or a call. -/
private theorem Yields.calls_test
    {node : Node}
    {value tested : NodeId}
    (hInUse : InUse table before.symbols)
    (hStart : Start table root before)
    (hRun : lower table options root before =
      .ok result after)
    (hYields : Yields table options root before after n m part)
    (hNode : before.tree.get? n = some node)
    (hKind : node.kind = .instanceOf value tested) :
    part.new.view.label = node.label ∨
      ∃ method,
        Calls after.symbols part.new.view method
          [after.symbols.env.idType] := by
  have hValid := hYields.valid
  have hHolds := hYields.standing.holds
  rw [← hYields.old_id] at hNode
  rcases part with
    ⟨assigned, handed, ⟨id, label, children⟩, new⟩
  have hLabel := (hHolds.of_get? hNode).1
  rw [Placed.label_node] at hLabel
  subst hLabel
  unfold Passage.Valid at hValid
  rw [Placed.view_node] at hValid
  have hShape : node.label.shape = .instanceOf () () :=
    congrArg NodeKind.shape hKind
  refine (call_of_test hShape hValid).imp_right ?_
  rintro ⟨method, hMethod, hTag, hElement⟩
  exact ⟨method, hTag, hElement,
    types_of_method?_test hStart.reached hStart.formed hInUse
      hRun hMethod⟩

/- A call of a method was one, or it is of what is lowered. -/
private theorem called_below
    {node : Node}
    (hStart : Start table root before)
    (hRun : lower table options root before =
      .ok result after)
    (hBelow : after.tree.Below result m)
    (hNode : after.tree.get? m = some node)
    (hCalls : node.kind.tag = .methodInvocation) :
    ∃ n old,
      Becomes table options root result before after n m ∧
        before.tree.get? n = some old ∧
        (old.kind.tag = .methodInvocation ∧
            node.element = old.element ∨
          old.kind.tag = .arrayCreation ∨
          old.kind.tag = .instanceOf) := by
  rw [← NodeKind.tag_shape] at hCalls
  have hTag : node.label.shape.tag = .methodInvocation := hCalls
  cases hStart.cameOf hRun hBelow hNode with
  | @became n old part _ _ _ hBecomes hYields _ hForm hOld
      hOldLabel hLabel =>
      refine ⟨n, old, hBecomes, hOld, ?_⟩
      have hIs := hYields.tag_eq hOld
      rw [← hLabel] at hTag
      cases hForm.selected (hStart.titled hRun) hTag with
      | kept hWas hSame =>
          rw [hLabel, hOldLabel] at hSame
          exact Or.inl ⟨hIs.symm.trans hWas, hSame⟩
      | @factory _ _ _ _ hShape =>
          have hCreates := part.old.label.tag_retainIf part.handed
          rw [hShape] at hCreates
          exact Or.inr (Or.inl (hIs.symm.trans hCreates.symm))
      | test hTest =>
          exact Or.inr (Or.inr (hIs.symm.trans hTest))
  | plain hPlain =>
      rw [hTag] at hPlain
      exact absurd hPlain (by simp)
  | call hCall =>
      rw [hCall] at hTag
      exact absurd hTag (by simp [NodeKind.tag])

/-
  Each creation ends as a call of the factory of its form, and
  each type test as it was or as a call of the test, with the
  parameters of the form and of the test. All calls of methods
  below the result were there, or are these. Only the type of
  given elements is not that of the creation: it is of the same
  sort, and comes from the method as it was recorded before, or
  from some creation below the root that is initialised and
  retained alike.
-/
theorem calls_share_signatures
    (hReached : before.tree.Reached)
    (hFormed : before.tree.WellFormed root)
    (hInUse : InUse table before.symbols)
    (hRun : lower table options root before =
      .ok result after) :
    (∀ n node dimensions initializer marked,
      before.tree.Below root n →
        before.tree.get? n = some node →
          node.kind =
              .arrayCreation dimensions initializer marked →
            Persists table options root result before after
                n ∧
              ∀ m,
                Ends table options root result before after
                    n m →
                  ∃ array handed view form component primitive
                      method types,
                    node.ty = some array ∧
                      (Seat after.symbols before.tree
                          after.tree root result n m →
                        before.tree.size ≤ m.raw) ∧
                      Leaves table options root result before
                        after n m handed view ∧
                      FactoryMethod after.symbols array
                        dimensions.length initializer.isSome
                        (marked || handed || options.useArc)
                        form component primitive method ∧
                      Calls after.symbols view method types ∧
                      Signature after.symbols
                        (fun first =>
                          Recorded before.symbols method
                              types ∨
                            InitializesOver after.symbols
                              options before.tree root
                              (marked || handed ||
                                options.useArc)
                              first)
                        form primitive types) ∧
      (∀ n node value tested,
        before.tree.Below root n →
          before.tree.get? n = some node →
            node.kind = .instanceOf value tested →
              Persists table options root result before after
                  n ∧
                ∀ m,
                  Ends table options root result before after
                      n m →
                    ∃ handed view,
                      Leaves table options root result before
                          after n m handed view ∧
                        (view.label = node.label ∨
                          (Seat after.symbols before.tree
                              after.tree root result n m →
                            before.tree.size ≤ m.raw) ∧
                            ∃ method,
                              Calls after.symbols view method
                                [after.symbols.env.idType])) ∧
      ∀ m node,
        after.tree.Below result m →
          after.tree.get? m = some node →
            node.kind.tag = .methodInvocation →
              ∃ n old,
                Becomes table options root result before after
                    n m ∧
                  before.tree.get? n = some old ∧
                  (old.kind.tag = .methodInvocation ∧
                      node.element = old.element ∨
                    old.kind.tag = .arrayCreation ∨
                    old.kind.tag = .instanceOf) := by
  have hStart : Start table root before :=
    ⟨hReached, hFormed, hInUse.session⟩
  refine ⟨?_, ?_, ?_⟩
  · intro n node dimensions initializer marked hBelow hNode
      hKind
    refine ⟨hStart.persists hRun hBelow
      (not_stores_of_tag hNode (by
        rw [hKind]
        simp [NodeKind.tag])), ?_⟩
    intro m hEnds
    rcases hStart.yields hRun hEnds with ⟨part, hYields⟩
    rcases hYields.calls_factory hInUse hStart hRun hNode
      hKind with
      ⟨array, form, component, primitive, method, types, hTy,
        hMethod, hCalls, hSignature⟩
    refine ⟨array, part.handed, part.new.view, form, component,
      primitive, method, types, hTy, ?_, hYields.leaves hEnds,
      hMethod, hCalls, hSignature⟩
    intro hSeat
    apply hStart.fresh_of_seat hRun hSeat hYields hNode
    rw [hCalls.tag, hKind]
    simp [NodeKind.tag]
  · intro n node value tested hBelow hNode hKind
    refine ⟨hStart.persists hRun hBelow
      (not_stores_of_tag hNode (by
        rw [hKind]
        simp [NodeKind.tag])), ?_⟩
    intro m hEnds
    rcases hStart.yields hRun hEnds with ⟨part, hYields⟩
    refine ⟨part.handed, part.new.view, hYields.leaves hEnds,
      ?_⟩
    refine (hYields.calls_test hInUse hStart hRun hNode
      hKind).imp_right ?_
    rintro ⟨method, hCalls⟩
    refine ⟨?_, method, hCalls⟩
    intro hSeat
    apply hStart.fresh_of_seat hRun hSeat hYields hNode
    rw [hCalls.tag, hKind]
    simp [NodeKind.tag]
  · intro m node hBelow hNode hCalls
    exact called_below hStart hRun hBelow hNode hCalls

end Calls

------------------------------------------------------------
-- Two Arrays In One Environment
------------------------------------------------------------

theorem inUse_twoArrays : InUse ⟨#[]⟩ twoArrays.symbols :=
  InUse.of_create? reached_nestedCache create?_nestedCache

theorem below_second_twoArrays :
    twoArrays.tree.Below ⟨4⟩ ⟨3⟩ :=
  Relation.ReflTransGen.single ⟨1, _, rfl, rfl⟩

/- The second of two arrays calls a method that takes them. -/
theorem calls_share_signatures_twoArrays :
    ∃ after,
      lower ⟨#[]⟩ {} ⟨4⟩ twoArrays = .ok ⟨4⟩ after ∧
        Persists ⟨#[]⟩ {} ⟨4⟩ ⟨4⟩ twoArrays after ⟨3⟩ ∧
        ∀ m,
          Ends ⟨#[]⟩ {} ⟨4⟩ ⟨4⟩ twoArrays after ⟨3⟩ m →
            ∃ handed view form component primitive method types,
              Leaves ⟨#[]⟩ {} ⟨4⟩ ⟨4⟩ twoArrays after ⟨3⟩ m
                handed view ∧
              FactoryMethod after.symbols ⟨5⟩ 0 true
                (false || handed || ({} : Options).useArc)
                form component primitive method ∧
              Calls after.symbols view method types ∧
              Signature after.symbols
                (fun first =>
                  Recorded twoArrays.symbols method types ∨
                    InitializesOver after.symbols {}
                      twoArrays.tree ⟨4⟩
                      (false || handed ||
                        ({} : Options).useArc)
                      first)
                form primitive types := by
  rcases (calls_share_signatures reached_twoArrays
    formed_twoArrays inUse_twoArrays run_lower_twoArrays).1
      _ _ _ _ _ below_second_twoArrays rfl rfl with
    ⟨hPersists, hEach⟩
  refine ⟨_, run_lower_twoArrays, hPersists, fun m hEnds => ?_⟩
  rcases hEach m hEnds with
    ⟨array, handed, view, form, component, primitive, method,
      types, hTy, _, hLeaves, hMethod, hCalls, hSignature⟩
  cases hTy
  exact ⟨handed, view, form, component, primitive, method,
    types, hLeaves, hMethod, hCalls, hSignature⟩

/- What is known once the two arrays are lowered. -/
private theorem symbols_of_twoArrays :
    let last := (finalState
      (lower ⟨#[]⟩ {} ⟨4⟩ twoArrays)).symbols
    component? last ⟨5⟩ = some ⟨4⟩ ∧
      isPrimitive? last ⟨4⟩ = some false ∧
      last.arrayClass? ⟨4⟩ = some ⟨8⟩ ∧
      (∀ retained,
        last.method? ⟨8⟩
            ((CreationForm.elements "Objects").selector
              retained false) =
          if retained then none else some ⟨10⟩) ∧
      last.cache.parameterTypes? ⟨10⟩ =
        some [⟨17⟩, ⟨2⟩, ⟨15⟩] ∧
      last.synthetic? (.pointer ⟨3⟩) = some ⟨17⟩ ∧
      last.synthetic? (.pointer ⟨4⟩) = some ⟨18⟩ := by
  decide +kernel

/-
  The second array is of arrays of `int` arrays, but its call
  takes the pointer that the first one asked for, which is to
  arrays of `int`.
-/
theorem second_of_twoArrays_takes_the_first :
    ∃ after asked given,
      lower ⟨#[]⟩ {} ⟨4⟩ twoArrays = .ok ⟨4⟩ after ∧
        component? after.symbols ⟨5⟩ = some ⟨4⟩ ∧
        after.symbols.synthetic? (.pointer ⟨4⟩) =
          some asked ∧
        after.symbols.synthetic? (.pointer ⟨3⟩) =
          some given ∧
        given ≠ asked ∧
        Persists ⟨#[]⟩ {} ⟨4⟩ ⟨4⟩ twoArrays after ⟨3⟩ ∧
        ∀ m,
          Ends ⟨#[]⟩ {} ⟨4⟩ ⟨4⟩ twoArrays after ⟨3⟩ m →
            ∃ handed view method rest,
              Leaves ⟨#[]⟩ {} ⟨4⟩ ⟨4⟩ twoArrays after ⟨3⟩ m
                  handed view ∧
                Calls after.symbols view method
                  (given :: rest) := by
  rcases symbols_of_twoArrays with
    ⟨hComponent, hPlain, hClass, hRecorded, hTypes, hFirst,
      hSecond⟩
  refine ⟨_, _, _, run_lower_twoArrays, hComponent, hSecond,
    hFirst, by decide, ?_, ?_⟩
  · exact start_twoArrays.persists run_lower_twoArrays
      below_second_twoArrays (not_stores_of_tag rfl (by decide))
  intro m hEnds
  rcases start_twoArrays.yields run_lower_twoArrays hEnds with
    ⟨part, hYields⟩
  rcases hYields.calls_factory inUse_twoArrays start_twoArrays
    run_lower_twoArrays rfl rfl with
    ⟨array, form, component, primitive, method, types, hTy,
      hMethod, hCalls, _⟩
  cases hTy
  rcases hMethod with ⟨hForm, hPrimitive, cls, hCls, hFound⟩
  cases hForm with
  | elements _ hComponent' hPrimitive' hCategory =>
      rw [hComponent] at hComponent'
      cases hComponent'
      rw [hPlain] at hPrimitive hPrimitive'
      cases hPrimitive
      cases hPrimitive'
      cases hCategory
      rw [hClass] at hCls
      cases hCls
      rw [hRecorded] at hFound
      split at hFound
      · exact absurd hFound (by simp)
      · cases hFound
        have hTakes := hCalls.takes
        rw [hTypes] at hTakes
        cases hTakes
        exact ⟨_, _, _, _, hYields.leaves hEnds, hCalls⟩

end Arrays

end Lowering
