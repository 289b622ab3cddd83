import Lowering.Arrays.Pass
import Lowering.Proofs.Tree.Replace

/-
  This file defines how each piece of lowered array code looks
  and proves that building it makes a tree which looks so.

  A piece is described by the record of its symbols. Its view
  is a function of the record and of the views of its
  operands; which of them are copied and which are moved is
  told only by what building does to the old tree.

  Key definitions include:
    * `Arrays.StaticCall.view`
    * `Arrays.callView`
    * `Arrays.ElementAccess.view`
    * `Arrays.SizeAccess.view`
    * `Arrays.TypeTest.view`
    * `Arrays.Factory.initializedView`
    * `Arrays.Factory.lengthView`
    * `Arrays.NestedFactory.view`

  Main results:
    * `Arrays.makes_elementAccess`
    * `Arrays.makes_sizeAccess`
    * `Arrays.makes_typeTest`
    * `Arrays.makes_initialized`
    * `Arrays.makes_ofLength`
    * `Arrays.makes_nested`
-/

namespace Lowering

namespace Arrays

open Lowering.Tree (Building)

------------------------------------------------------------
-- Views Of Pieces
------------------------------------------------------------

/- The places of some children, with the children left out. -/
def places {α : Type} (children : List α) : List Unit :=
  children.map fun _ => ()

/- An integer literal. -/
def numberView (value : Int) (ty : TypeId) : View :=
  .node ⟨.numberLiteral value, some ty, none⟩ []

/- A list of expressions in braces. -/
def listView (ty : TypeId) (expressions : List View) : View :=
  .node
    ⟨.arrayInitializer (places expressions), some ty, none⟩
    expressions

/- The name of a runtime class. -/
def ClassName.view (receiver : ClassName) : View :=
  .node
    ⟨.simpleName receiver.name, some receiver.ty,
      some receiver.cls⟩
    []

/- The class object of a type. -/
def ClassObject.view (object : ClassObject) : View :=
  .node ⟨.typeLiteral object.literal, some object.ty, none⟩ []

/- The call of a static method of a runtime class. -/
def StaticCall.view
    (call : StaticCall)
    (arguments : List View) : View :=
  .node
    ⟨.methodInvocation (some ()) (places arguments),
      some call.ty, some call.method⟩
    (call.receiver.view :: arguments)

/- The call of a plain function of the runtime. -/
def callView
    (function : FunctionRef)
    (ty : TypeId)
    (arguments : List View) : View :=
  .node
    ⟨.functionInvocation function (places arguments) false,
      some ty, none⟩
    arguments

/- The access to an element. -/
def ElementAccess.view
    (access : ElementAccess)
    (array index : View) : View :=
  let call := callView access.function access.ty [array, index]
  match access.target with
  | some component =>
    .node
      ⟨.prefixOperation .dereference (), some component, none⟩
      [call]
  | none => call

/- The access to the size of an array. -/
def SizeAccess.view
    (access : SizeAccess)
    (array : View) : View :=
  .node ⟨.fieldAccess () (), some access.int, some access.field⟩
    [array,
      .node
        ⟨.simpleName access.name, some access.int,
          some access.field⟩
        []]

/- The test of a value against an array of objects. -/
def TypeTest.view (test : TypeTest) (value : View) : View :=
  .node
    ⟨.methodInvocation (some ()) [()], some test.boolean,
      some test.method⟩
    [test.object.view, value]

/- The call of a factory. -/
def Factory.view
    (factory : Factory)
    (arguments : List View) : View :=
  match factory.object with
  | some object =>
    factory.call.view (arguments ++ [object.view])
  | none => factory.call.view arguments

/- An array of given elements. -/
def Factory.initializedView
    (factory : Factory)
    (elements : List View) : View :=
  factory.view
    [listView factory.call.ty elements,
      numberView elements.length factory.int]

/- An array of one length. -/
def Factory.lengthView
    (factory : Factory)
    (length : View) : View :=
  factory.view [length]

/- Nested arrays of several lengths. -/
def NestedFactory.view
    (factory : NestedFactory)
    (dimensions : List View) : View :=
  factory.toFactory.view
    [numberView dimensions.length factory.int,
      listView factory.lengths dimensions]

/- An access to an element has the type of what it answers. -/
theorem ElementAccess.ty_view
    (access : ElementAccess)
    (array index : View) :
    (access.view array index).ty =
      some (access.target.getD access.ty) := by
  unfold ElementAccess.view
  cases access.target <;> rfl

/- The call of a factory has the type that is given for it. -/
theorem Factory.ty_view
    (factory : Factory)
    (arguments : List View) :
    (factory.view arguments).ty = some factory.call.ty := by
  unfold Factory.view
  cases factory.object <;> rfl

------------------------------------------------------------
-- Making
------------------------------------------------------------

variable {before now : Tree}
variable {moved moved' : List NodeId}
variable {trees made : List Placed}

/-
  A step makes one more tree with a new root, which looks as
  is said, and moves some places of the old tree into it.
-/
def Makes
    (build : TreeM NodeId)
    (before now : Tree)
    (moved : List NodeId)
    (trees : List Placed)
    (view : View) : Prop :=
  ∃ after new,
    build now = .ok new.id after ∧
      new.view = view ∧
      before.size ≤ new.id.raw ∧
      Building before after moved (trees ++ [new])

/- Making a node over the trees that were built last. -/
theorem makes_alloc
    (kind : NodeKind NodeId)
    {shape : NodeKind Unit}
    (ty : Option TypeId)
    (element : Option ElementId)
    (hBuilding : Building before now moved (trees ++ made))
    (hChildren : kind.children = made.map (·.id))
    (hShape : kind.shape = shape) :
    Makes (Tree.alloc kind ty element) before now moved trees
      (.node ⟨shape, ty, element⟩ (made.map (·.view))) := by
  rcases hBuilding.alloc kind ty element hChildren with
    ⟨after, id, hRun, hFresh, hAfter⟩
  refine ⟨after, .node id _ made, hRun, ?_, hFresh, hAfter⟩
  rw [Placed.view_node, hShape]

/- Making a node without children. -/
theorem makes_leaf
    (kind : NodeKind NodeId)
    {shape : NodeKind Unit}
    (ty : Option TypeId)
    (element : Option ElementId)
    (hBuilding : Building before now moved trees)
    (hChildren : kind.children = [])
    (hShape : kind.shape = shape) :
    Makes (Tree.alloc kind ty element) before now moved trees
      (.node ⟨shape, ty, element⟩ []) := by
  have hNone : Building before now moved (trees ++ []) := by
    rw [List.append_nil]
    exact hBuilding
  exact makes_alloc kind ty element hNone hChildren hShape

------------------------------------------------------------
-- Calls
------------------------------------------------------------

private theorem map_places
    (made : List Placed) :
    (made.map (·.id)).map (fun _ => ()) =
      places (made.map (·.view)) := by
  simp [places]

theorem makes_functionCall
    (function : FunctionRef)
    (ty : TypeId)
    (hBuilding : Building before now moved (trees ++ made)) :
    Makes (functionCall function ty (made.map (·.id)))
      before now moved trees
      (callView function ty (made.map (·.view))) := by
  apply makes_alloc _ (some ty) none hBuilding rfl
  exact congrArg (NodeKind.functionInvocation function · false)
    (map_places made)

theorem makes_className
    (receiver : ClassName)
    (hBuilding : Building before now moved trees) :
    Makes receiver.build before now moved trees
      receiver.view :=
  makes_leaf _ (some receiver.ty) (some receiver.cls) hBuilding
    rfl rfl

theorem makes_classObject
    (object : ClassObject)
    (hBuilding : Building before now moved trees) :
    Makes object.build before now moved trees object.view :=
  makes_leaf _ (some object.ty) none hBuilding rfl rfl

/-
  The receiver is built after the arguments, but stands before
  them.
-/
theorem makes_staticCall
    (call : StaticCall)
    (hBuilding : Building before now moved (trees ++ made)) :
    Makes (call.build (made.map (·.id))) before now moved trees
      (call.view (made.map (·.view))) := by
  rcases makes_className call.receiver hBuilding with
    ⟨after, receiver, hRun, hView, _, hAfter⟩
  have hOrdered : Building before after moved
      (trees ++ receiver :: made) := by
    apply hAfter.perm
    rw [List.append_assoc]
    exact List.perm_append_singleton receiver made
      |>.append_left trees
  have hMakes : Makes
      (Tree.alloc
        (.methodInvocation (some receiver.id)
          (made.map (·.id)))
        (some call.ty) (some call.method))
      before after moved trees
      (call.view (made.map (·.view))) := by
    have hShape : (NodeKind.methodInvocation (some receiver.id)
        (made.map (·.id))).shape =
          .methodInvocation (some ())
            (places (made.map (·.view))) :=
      congrArg (NodeKind.methodInvocation (some ()))
        (map_places made)
    have hNode := makes_alloc
      (.methodInvocation (some receiver.id)
        (made.map (·.id)))
      (some call.ty) (some call.method) hOrdered rfl hShape
    rw [List.map_cons, hView] at hNode
    exact hNode
  rcases hMakes with
    ⟨after', new, hRun', hView', hFresh, hAfter'⟩
  refine ⟨after', new, ?_, hView', hFresh, hAfter'⟩
  unfold StaticCall.build
  rw [run_bind_ok hRun]
  exact hRun'

theorem makes_factory
    (factory : Factory)
    (hBuilding : Building before now moved (trees ++ made)) :
    Makes (factory.build (made.map (·.id)))
      before now moved trees
      (factory.view (made.map (·.view))) := by
  unfold Factory.build Factory.view
  cases factory.object with
  | none => exact makes_staticCall factory.call hBuilding
  | some object =>
      rcases makes_classObject object hBuilding with
        ⟨after, last, hRun, hView, _, hAfter⟩
      rw [List.append_assoc] at hAfter
      have hMakes := makes_staticCall factory.call hAfter
      simp only [List.map_append, List.map_cons,
        List.map_nil, hView] at hMakes
      simp only []
      rcases hMakes with
        ⟨after', new, hRun', hView', hFresh, hAfter'⟩
      refine ⟨after', new, ?_, hView', hFresh, hAfter'⟩
      rw [run_bind_ok hRun]
      exact hRun'

------------------------------------------------------------
-- Constructs
------------------------------------------------------------

section Constructs

variable {array index value length : Placed}
variable {sources : List Placed}

theorem makes_number
    (number : Int)
    (ty : TypeId)
    (hBuilding : Building before now moved trees) :
    Makes (Tree.numberLiteral number ty) before now moved trees
      (numberView number ty) :=
  makes_leaf _ (some ty) none hBuilding rfl rfl

theorem makes_list
    (ty : TypeId)
    (hBuilding : Building before now moved (trees ++ made)) :
    Makes
      (Tree.alloc (.arrayInitializer (made.map (·.id)))
        (some ty) none)
      before now moved trees
      (listView ty (made.map (·.view))) :=
  makes_alloc _ (some ty) none hBuilding rfl
    (congrArg NodeKind.arrayInitializer (map_places made))

/- An access to an element copies the array and the index. -/
theorem makes_elementAccess
    (access : ElementAccess)
    (hArray : now.Standing array)
    (hIndex : now.Standing index) :
    Makes (access.build array.id index.id) now now [] []
      (access.view array.view index.view) := by
  rcases (Building.start now).copy hArray.holds hArray.nodup
      (by simp) with
    ⟨first, array', hRun, hView, hFirst⟩
  rcases hFirst.copy hIndex.holds hIndex.nodup (by simp) with
    ⟨second, index', hRun', hView', hSecond⟩
  have hOperands : Building now second []
      ([] ++ [array', index']) := hSecond
  rcases makes_functionCall access.function access.ty
      hOperands with
    ⟨third, call, hCall, hCallView, hFresh, hThird⟩
  have hCallView' : call.view =
      callView access.function access.ty
        [array.view, index.view] := by
    rw [hCallView, ← hView, ← hView']
    rfl
  have hSteps : access.build array.id index.id now =
      (match access.target with
        | some component =>
          Tree.alloc (.prefixOperation .dereference call.id)
            (some component) none
        | none => pure call.id) third := by
    unfold ElementAccess.build
    rw [run_bind_ok hRun, run_bind_ok hRun']
    exact run_bind_ok hCall
  unfold Makes
  rw [hSteps]
  unfold ElementAccess.view
  cases access.target with
  | none => exact ⟨third, call, rfl, hCallView', hFresh, hThird⟩
  | some component =>
      have hMakes := makes_alloc
        (.prefixOperation .dereference call.id)
        (some component) none hThird rfl rfl
      rw [List.map_cons, hCallView'] at hMakes
      exact hMakes

/- An access to the size of an array moves the array. -/
theorem makes_sizeAccess
    (access : SizeAccess)
    (hArray : now.Standing array) :
    Makes (access.build array.id) now now array.ids []
      (access.view array.view) := by
  rcases (Building.start now).take hArray.holds hArray.nodup
      (by simp) with
    ⟨first, hRun, hFirst⟩
  rcases makes_leaf (.simpleName access.name) (some access.int)
      (some access.field) hFirst rfl rfl with
    ⟨second, name, hName, hView, _, hSecond⟩
  have hOperands : Building now second array.ids
      ([] ++ [array, name]) := hSecond
  have hMakes := makes_alloc (.fieldAccess array.id name.id)
    (some access.int) (some access.field) hOperands rfl rfl
  rw [List.map_cons, List.map_cons, hView] at hMakes
  unfold Makes SizeAccess.build
  rw [run_bind_ok hRun]
  unfold Tree.simpleName
  rw [run_bind_ok hName]
  exact hMakes

/- A type test moves the value that is tested. -/
theorem makes_typeTest
    (test : TypeTest)
    (hValue : now.Standing value) :
    Makes (test.build value.id) now now value.ids []
      (test.view value.view) := by
  rcases makes_classObject test.object (Building.start now)
    with ⟨first, object, hRun, hView, _, hFirst⟩
  rcases hFirst.take hValue.holds hValue.nodup (by simp) with
    ⟨second, hTake, hSecond⟩
  have hOperands : Building now second value.ids
      ([] ++ [object, value]) := hSecond
  have hMakes := makes_alloc
    (.methodInvocation (some object.id) [value.id])
    (some test.boolean) (some test.method) hOperands rfl rfl
  rw [List.map_cons, hView] at hMakes
  unfold Makes TypeTest.build
  rw [run_bind_ok hRun, run_bind_ok hTake]
  exact hMakes

/- An array of given elements copies the elements. -/
theorem makes_initialized
    (factory : Factory)
    (hSources : ∀ source ∈ sources, now.Holds source)
    (hNodup : (Placed.idsAll sources).Nodup) :
    Makes (factory.buildInitialized (sources.map (·.id)))
      now now [] []
      (factory.initializedView (sources.map (·.view))) := by
  rcases (Building.start now).copies hSources hNodup
      (by simp) with
    ⟨first, copies, hRun, hViews, hFirst⟩
  rcases makes_list factory.call.ty hFirst with
    ⟨second, values, hList, hValues, _, hSecond⟩
  rcases makes_number sources.length factory.int hSecond with
    ⟨third, count, hNumber, hCount, _, hThird⟩
  have hArguments : Building now third []
      ([] ++ [values, count]) := hThird
  have hMakes := makes_factory factory hArguments
  rw [List.map_cons, List.map_cons, List.map_cons,
    List.map_cons, hValues, hCount, hViews] at hMakes
  unfold Makes Factory.buildInitialized
  rw [run_bind_ok hRun, run_bind_ok hList, List.length_map,
    run_bind_ok hNumber]
  unfold Factory.initializedView
  rw [List.length_map]
  exact hMakes

/- An array of one length copies the length. -/
theorem makes_ofLength
    (factory : Factory)
    (hLength : now.Standing length) :
    Makes (factory.buildOfLength length.id) now now [] []
      (factory.lengthView length.view) := by
  rcases (Building.start now).copy hLength.holds
      hLength.nodup (by simp) with
    ⟨first, copy, hRun, hView, hFirst⟩
  have hMakes := makes_factory factory hFirst
  rw [List.map_cons, List.map_cons, hView] at hMakes
  unfold Makes Factory.buildOfLength
  rw [run_bind_ok hRun]
  exact hMakes

/- Nested arrays of several lengths copy the lengths. -/
theorem makes_nested
    (factory : NestedFactory)
    (hSources : ∀ source ∈ sources, now.Holds source)
    (hNodup : (Placed.idsAll sources).Nodup) :
    Makes (factory.build (sources.map (·.id))) now now [] []
      (factory.view (sources.map (·.view))) := by
  rcases makes_number sources.length factory.int
      (Building.start now) with
    ⟨first, count, hNumber, hCount, _, hFirst⟩
  rcases hFirst.copies hSources hNodup (by simp) with
    ⟨second, copies, hRun, hViews, hSecond⟩
  rcases makes_list factory.lengths hSecond with
    ⟨third, lengths, hList, hLengths, _, hThird⟩
  have hArguments : Building now third []
      ([] ++ [count, lengths]) := hThird
  have hMakes := makes_factory factory.toFactory hArguments
  rw [List.map_cons, List.map_cons, List.map_cons,
    List.map_cons, hCount, hLengths, hViews] at hMakes
  unfold Makes NestedFactory.build
  rw [List.length_map, run_bind_ok hNumber, run_bind_ok hRun,
    run_bind_ok hList]
  unfold NestedFactory.view
  rw [List.length_map]
  exact hMakes

end Constructs

end Arrays

end Lowering
