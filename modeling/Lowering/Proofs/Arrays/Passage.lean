import Lowering.Proofs.Arrays.Creations

/-
  This file tells where the operands of a construct go.

  A passage is a subtree with the subtree that it was lowered
  to. Each passage is of one form: the node stayed as it is, or
  it was a construct on arrays and calls were made of it. The
  form tells which operands are passed on, as passages of their
  own, which nodes are made beside them, and which places of
  the old subtree are left behind.

  Key definitions include:
    * `Arrays.Passage`
    * `Arrays.FactoryCall`
    * `Arrays.Form`

  Main results:
    * `Arrays.form_of_valid`
-/

namespace Lowering

@[simp] theorem NodeKind.canRetain_retained
    {α : Type}
    (kind : NodeKind α) :
    kind.retained.canRetain = kind.canRetain := by
  cases kind <;> rfl

namespace Label

/- A shape that cannot retain is not changed. -/
theorem shape_of_retainIf
    {handed : Bool}
    {label : Label}
    {shape : NodeKind Unit}
    (hShape : (label.retainIf handed).shape = shape)
    (hCannot : shape.canRetain = false) :
    label.shape = shape := by
  cases handed with
  | false => exact hShape
  | true =>
      have hRetain : label.shape.retain = shape := hShape
      unfold NodeKind.retain at hRetain
      split at hRetain
      · next hCan =>
        rw [← hRetain, NodeKind.canRetain_retained, hCan]
          at hCannot
        exact absurd hCannot (by simp)
      · exact hRetain

/- A label that cannot retain is not changed. -/
theorem retainIf_eq_self
    {label : Label}
    (handed : Bool)
    (hCannot : label.shape.canRetain = false) :
    label.retainIf handed = label := by
  cases handed with
  | false => rfl
  | true =>
      unfold Label.retainIf Label.retain NodeKind.retain
      rw [if_pos rfl, hCannot, if_neg Bool.false_ne_true]

/- What cannot retain keeps its shape. -/
theorem shape_retainIf
    {label : Label}
    {shape : NodeKind Unit}
    (handed : Bool)
    (hShape : label.shape = shape)
    (hCannot : shape.canRetain = false) :
    (label.retainIf handed).shape = shape := by
  rw [label.retainIf_eq_self handed (hShape ▸ hCannot), hShape]

theorem ty_retainIf (handed : Bool) (label : Label) :
    (label.retainIf handed).ty = label.ty := by
  cases handed <;> rfl

theorem tag_retainIf (handed : Bool) (label : Label) :
    (label.retainIf handed).shape.tag = label.shape.tag := by
  cases handed with
  | false => rfl
  | true => exact NodeKind.tag_retain label.shape

theorem assignsFirst_retainIf (handed : Bool) (label : Label) :
    (label.retainIf handed).shape.assignsFirst =
      label.shape.assignsFirst := by
  cases handed with
  | false => rfl
  | true =>
      rcases label with ⟨shape, ty, element⟩
      unfold Label.retainIf Label.retain NodeKind.retain
      cases shape <;> (simp only [if_true]; split <;> rfl)

end Label

/- A placed tree with a view has its label and its children. -/
theorem Placed.eq_of_view
    {placed : Placed}
    {label : Label}
    {views : List View}
    (hView : placed.view = .node label views) :
    ∃ id children,
      placed = .node id label children ∧
        children.map (·.view) = views := by
  rcases placed with ⟨id, found, children⟩
  rw [Placed.view_node] at hView
  cases hView
  exact ⟨id, children, rfl, rfl⟩

namespace Arrays

open Symbols

------------------------------------------------------------
-- Passages
------------------------------------------------------------

/- A subtree, how it is used, and what it was lowered to. -/
structure Passage where
  assigned : Bool
  handed : Bool
  old : Placed
  new : Placed

namespace Passage

/- The new subtree looks as the old one is lowered. -/
def Valid
    (symbols : Symbols)
    (table : BindingTable)
    (options : Options)
    (passage : Passage) : Prop :=
  lower? symbols table options passage.assigned passage.handed
    passage.old.view = some passage.new.view

end Passage

/-
  The passages of operands, one by one. The first of them may
  be assigned to.
-/
def along (first : Bool) :
    List Placed → List Placed → List Passage
  | old :: olds, new :: news =>
    ⟨first, false, old, new⟩ :: along false olds news
  | _, _ => []

theorem mem_along
    {first : Bool}
    {olds news : List Placed}
    {passage : Passage}
    (hMem : passage ∈ along first olds news) :
    passage.handed = false ∧
      passage.old ∈ olds ∧
      passage.new ∈ news := by
  induction olds generalizing first news with
  | nil => exact absurd hMem (by simp [along])
  | cons old olds ih =>
      rcases news with _ | ⟨new, news⟩
      · exact absurd hMem (by simp [along])
      · rcases List.mem_cons.mp hMem with rfl | hRest
        · exact ⟨rfl, List.mem_cons_self, List.mem_cons_self⟩
        · rcases ih hRest with ⟨hHanded, hOld, hNew⟩
          exact ⟨hHanded, List.mem_cons_of_mem _ hOld,
            List.mem_cons_of_mem _ hNew⟩

theorem map_old_along
    {olds news : List Placed}
    (first : Bool)
    (hLength : olds.length = news.length) :
    (along first olds news).map (·.old) = olds := by
  induction olds generalizing first news with
  | nil => rfl
  | cons old olds ih =>
      rcases news with _ | ⟨new, news⟩
      · exact absurd hLength (by simp)
      · simp [along, ih false (Nat.succ.inj hLength)]

theorem map_new_along
    {olds news : List Placed}
    (first : Bool)
    (hLength : olds.length = news.length) :
    (along first olds news).map (·.new) = news := by
  induction olds generalizing first news with
  | nil =>
      rcases news with _ | ⟨new, news⟩
      · rfl
      · exact absurd hLength (by simp)
  | cons old olds ih =>
      rcases news with _ | ⟨new, news⟩
      · exact absurd hLength (by simp)
      · simp [along, ih false (Nat.succ.inj hLength)]

/- A passage of operands leads from a slot to the same slot. -/
theorem exists_slot_of_along
    {first : Bool}
    {olds news : List Placed}
    {passage : Passage}
    (hMem : passage ∈ along first olds news) :
    ∃ front back front' back',
      olds = front ++ passage.old :: back ∧
        news = front' ++ passage.new :: back' ∧
        front.length = front'.length ∧
        passage.assigned = (first && front.isEmpty) := by
  induction olds generalizing first news with
  | nil => exact absurd hMem (by simp [along])
  | cons old olds ih =>
      rcases news with _ | ⟨new, news⟩
      · exact absurd hMem (by simp [along])
      · rcases List.mem_cons.mp hMem with rfl | hRest
        · exact ⟨[], olds, [], news, rfl, rfl, rfl, by simp⟩
        · rcases ih hRest with
            ⟨front, back, front', back', rfl, rfl, hLength,
              hAssigned⟩
          refine ⟨old :: front, back, new :: front', back',
            rfl, rfl, by simp [hLength], ?_⟩
          simpa using hAssigned

section Operands

variable {symbols : Symbols}
variable {table : BindingTable}
variable {options : Options}

/- Operands that are lowered one by one pass on one by one. -/
structure Operands
    (symbols : Symbols)
    (table : BindingTable)
    (options : Options)
    (first : Bool)
    (olds news : List Placed) : Prop where
  length_eq : olds.length = news.length
  valid : ∀ passage ∈ along first olds news,
    passage.Valid symbols table options

theorem operands_of_lowerAll?
    {first : Bool}
    {olds news : List Placed}
    (hLowered : lowerAll? symbols table options first
      (olds.map (·.view)) = some (news.map (·.view))) :
    Operands symbols table options first olds news := by
  induction olds generalizing first news with
  | nil =>
      rw [List.map_nil, lowerAll?] at hLowered
      have hNone := Option.some.inj hLowered
      rw [eq_comm, List.map_eq_nil_iff] at hNone
      subst hNone
      exact ⟨rfl, by simp [along]⟩
  | cons old olds ih =>
      rw [List.map_cons, lowerAll?] at hLowered
      rcases Option.bind_eq_some_iff.mp hLowered with
        ⟨view, hView, hRest⟩
      rcases Option.bind_eq_some_iff.mp hRest with
        ⟨views, hViews, hLast⟩
      have hEq := Option.some.inj hLast
      rcases news with _ | ⟨new, news⟩
      · exact absurd hEq (by simp)
      · rw [List.map_cons, List.cons.injEq] at hEq
        rw [hEq.1] at hView
        rw [hEq.2] at hViews
        have hOthers := ih hViews
        refine ⟨by simp [hOthers.length_eq], ?_⟩
        intro passage hMem
        rcases List.mem_cons.mp hMem with rfl | hMem
        · exact hView
        · exact hOthers.valid passage hMem

theorem Operands.lowered
    {first : Bool}
    {olds news : List Placed}
    (hOperands : Operands symbols table options first olds
      news) :
    lowerAll? symbols table options first (olds.map (·.view)) =
      some (news.map (·.view)) := by
  rcases hOperands with ⟨hLength, hValid⟩
  induction olds generalizing first news with
  | nil =>
      rcases news with _ | ⟨new, news⟩
      · rw [List.map_nil, lowerAll?]
      · exact absurd hLength (by simp)
  | cons old olds ih =>
      rcases news with _ | ⟨new, news⟩
      · exact absurd hLength (by simp)
      · have hFirst : lower? symbols table options first false
            old.view = some new.view :=
          hValid _ List.mem_cons_self
        have hRest := ih (Nat.succ.inj hLength)
          fun passage hMem =>
            hValid passage (List.mem_cons_of_mem _ hMem)
        rw [List.map_cons, List.map_cons, lowerAll?, hFirst,
          hRest]
        rfl

theorem operands_of_forall₂
    {olds news : List Placed}
    (hLowered : List.Forall₂
      (fun view new =>
        lower? symbols table options false false view =
          some new)
      (olds.map (·.view)) (news.map (·.view))) :
    Operands symbols table options false olds news := by
  rw [List.forall₂_map_left_iff, List.forall₂_map_right_iff]
    at hLowered
  refine ⟨hLowered.length_eq, ?_⟩
  induction hLowered with
  | nil => simp [along]
  | cons hFirst _ ih =>
      intro passage hMem
      rcases List.mem_cons.mp hMem with rfl | hRest
      · exact hFirst
      · exact ih passage hRest

end Operands

------------------------------------------------------------
-- Placed Calls
------------------------------------------------------------

/- A placed call of a factory, and the nodes around arguments. -/
inductive FactoryCall
    (factory : Factory)
    (arguments : List Placed) :
    Placed → List Placed → Prop
  | plain
      {id : NodeId}
      {receiver : Placed}
      (object_eq : factory.object = none)
      (receiver_view :
        receiver.view = factory.call.receiver.view) :
      FactoryCall factory arguments
        (.node id
          (factory.call.view (arguments.map (·.view))).label
          (receiver :: arguments))
        [receiver]
  | typed
      {id : NodeId}
      {receiver last : Placed}
      {object : ClassObject}
      (object_eq : factory.object = some object)
      (receiver_view :
        receiver.view = factory.call.receiver.view)
      (last_view : last.view = object.view) :
      FactoryCall factory arguments
        (.node id
          (factory.call.view
            ((arguments ++ [last]).map (·.view))).label
          (receiver :: (arguments ++ [last])))
        [receiver, last]

/- What looks like the call of a factory is one. -/
theorem factoryCall_of_view
    {factory : Factory}
    {views : List View}
    {call : Placed}
    (hView : call.view = factory.view views) :
    ∃ arguments made,
      arguments.map (·.view) = views ∧
        FactoryCall factory arguments call made := by
  unfold Factory.view at hView
  cases hObject : factory.object with
  | none =>
      rw [hObject] at hView
      rcases Placed.eq_of_view hView with
        ⟨id, children, rfl, hChildren⟩
      rcases List.map_eq_cons_iff.mp hChildren with
        ⟨receiver, arguments, rfl, hReceiver, rfl⟩
      exact ⟨arguments, [receiver], rfl,
        .plain hObject hReceiver⟩
  | some object =>
      rw [hObject] at hView
      rcases Placed.eq_of_view hView with
        ⟨id, children, rfl, hChildren⟩
      rcases List.map_eq_cons_iff.mp hChildren with
        ⟨receiver, rest, rfl, hReceiver, hRest⟩
      rcases List.map_eq_append_iff.mp hRest with
        ⟨arguments, lasts, rfl, rfl, hLasts⟩
      rcases List.map_eq_cons_iff.mp hLasts with
        ⟨last, none, rfl, hLast, hNone⟩
      rw [List.map_eq_nil_iff] at hNone
      subst hNone
      refine ⟨arguments, [receiver, last], rfl, ?_⟩
      rw [← hLast, ← List.map_singleton, ← List.map_append]
      exact .typed hObject hReceiver hLast

------------------------------------------------------------
-- Forms
------------------------------------------------------------

/- The expressions that a placed initializer lists. -/
def expressions (initializer : Placed) : List Placed :=
  match initializer.label.shape with
  | .arrayInitializer _ => initializer.children
  | _ => []

/- The places of an initializer but for what it lists. -/
def around (initializer : Placed) : List NodeId :=
  match initializer.label.shape with
  | .arrayInitializer _ => [initializer.id]
  | _ => initializer.ids

section Forms

variable (symbols : Symbols)
variable (table : BindingTable)
variable (options : Options)

/-
  The forms of a passage. Each comes with the passages of the
  operands, the nodes that are made beside the new root, and
  the places that are left behind.
-/
inductive Form :
    Passage → List Passage → List Placed → List NodeId → Prop
  /- A node that stays, with its operands in their places. -/
  | kept
      {assigned handed : Bool}
      {id id' : NodeId}
      {label : Label}
      {children lowered : List Placed}
      (other : label.shape.tag ≠ .arrayCreation ∧
        label.shape.tag ≠ .arrayAccess)
      (none_stored : stored? symbols label
        (children.map (·.view)) = some none)
      (passed : Operands symbols table options
        label.shape.assignsFirst children lowered) :
      Form
        ⟨assigned, handed, .node id label children,
          .node id' (label.retainIf handed) lowered⟩
        (along label.shape.assignsFirst children lowered)
        [] []
  /-
    A store, which takes the operands of the access and the
    value; the access itself is left behind.
  -/
  | stored
      {assigned handed : Bool}
      {id id' target : NodeId}
      {label outer : Label}
      {operands lowered : List Placed}
      {value last : Placed}
      {store : Store}
      {function : FunctionRef}
      (stored : stored? symbols label
        [.node outer (operands.map (·.view)), value.view] =
          some (some store))
      (function_eq : storeFunction? symbols store.consumes =
        some function)
      (passed : Operands symbols table options false
        operands lowered)
      (handed_over : Passage.Valid symbols table options
        ⟨false, true, value, last⟩) :
      Form
        ⟨assigned, handed,
          .node id label [.node target outer operands, value],
          .node id'
            (callView function store.component
              ((lowered ++ [last]).map (·.view))).label
            (lowered ++ [last])⟩
        (along false operands lowered ++
          [⟨false, true, value, last⟩])
        [] [target]
  /- An element that is read. -/
  | read
      {handed : Bool}
      {id id' : NodeId}
      {label : Label}
      {children lowered : List Placed}
      {component : TypeId}
      {access : ElementAccess}
      (shape : label.shape = .arrayAccess () ())
      (ty : label.ty = some component)
      (access_eq : elementAccess? symbols component false =
        some access)
      (passed : Operands symbols table options false
        children lowered) :
      Form
        ⟨false, handed, .node id label children,
          .node id'
            (callView access.function access.ty
              (lowered.map (·.view))).label
            lowered⟩
        (along false children lowered) [] []
  /- An element that is reached through a pointer. -/
  | pointer
      {handed : Bool}
      {id id' call : NodeId}
      {label : Label}
      {children lowered : List Placed}
      {component : TypeId}
      {access : ElementAccess}
      (shape : label.shape = .arrayAccess () ())
      (ty : label.ty = some component)
      (access_eq : elementAccess? symbols component true =
        some access)
      (passed : Operands symbols table options false
        children lowered) :
      Form
        ⟨true, handed, .node id label children,
          .node id'
            ⟨.prefixOperation .dereference (), some component,
              none⟩
            [.node call
              (callView access.function access.ty
                (lowered.map (·.view))).label
              lowered]⟩
        (along false children lowered)
        [.node call
          (callView access.function access.ty
            (lowered.map (·.view))).label
          lowered]
        []
  /- An array of one length. -/
  | length
      {assigned handed marked : Bool}
      {id : NodeId}
      {label : Label}
      {length lowered call : Placed}
      {made : List Placed}
      {array : TypeId}
      {factory : Factory}
      (shape : (label.retainIf handed).shape =
        .arrayCreation [()] none marked)
      (ty : label.ty = some array)
      (factory_eq : lengthFactory? symbols array
        (marked || options.useArc) = some factory)
      (passed : Operands symbols table options false
        [length] [lowered])
      (calls : FactoryCall factory [lowered] call made) :
      Form ⟨assigned, handed, .node id label [length], call⟩
        (along false [length] [lowered]) made []
  /- Nested arrays of several lengths. -/
  | lengths
      {assigned handed marked : Bool}
      {id list : NodeId}
      {label listed : Label}
      {dimensions : List Unit}
      {lengths lowered : List Placed}
      {count call : Placed}
      {made : List Placed}
      {array : TypeId}
      {factory : NestedFactory}
      (shape : (label.retainIf handed).shape =
        .arrayCreation dimensions none marked)
      (several : 2 ≤ dimensions.length)
      (length_eq : lengths.length = dimensions.length)
      (ty : label.ty = some array)
      (factory_eq : lengthsFactory? symbols table array
        dimensions.length (marked || options.useArc) =
          some factory)
      (passed : Operands symbols table options false
        lengths lowered)
      (count_view : count.view =
        numberView lowered.length factory.int)
      (list_view : (Placed.node list listed lowered).view =
        listView factory.lengths (lowered.map (·.view)))
      (calls : FactoryCall factory.toFactory
        [count, .node list listed lowered] call made) :
      Form ⟨assigned, handed, .node id label lengths, call⟩
        (along false lengths lowered)
        (count :: .node list listed lowered :: made) []
  /-
    An array of given elements. Lengths that stand beside the
    elements are left behind, and so is what holds them.
  -/
  | elements
      {assigned handed marked : Bool}
      {id list : NodeId}
      {label listed : Label}
      {dimensions : List Unit}
      {lengths lowered : List Placed}
      {initializer count call : Placed}
      {made : List Placed}
      {array : TypeId}
      {factory : Factory}
      (shape : (label.retainIf handed).shape =
        .arrayCreation dimensions (some ()) marked)
      (length_eq : lengths.length = dimensions.length)
      (ty : label.ty = some array)
      (factory_eq : initializedFactory? symbols array
        (marked || options.useArc) = some factory)
      (passed : Operands symbols table options false
        (expressions initializer) lowered)
      (count_view : count.view =
        numberView lowered.length factory.int)
      (list_view : (Placed.node list listed lowered).view =
        listView factory.call.ty (lowered.map (·.view)))
      (calls : FactoryCall factory
        [.node list listed lowered, count] call made) :
      Form
        ⟨assigned, handed,
          .node id label (lengths ++ [initializer]), call⟩
        (along false (expressions initializer) lowered)
        (.node list listed lowered :: count :: made)
        (Placed.idsAll lengths ++ around initializer)
  /- The size of an array; the name `length` is left behind. -/
  | size
      {assigned handed : Bool}
      {id id' : NodeId}
      {label : Label}
      {operand name lowered field : Placed}
      {named : View}
      {component : TypeId}
      {access : SizeAccess}
      (shape : label.shape = .fieldAccess () () ∨
        label.shape = .qualifiedName () ())
      (name_lowered : lower? symbols table options false false
        name.view = some named)
      (length : isLength? symbols named = some true)
      (component_eq : arrayOperand? symbols lowered.view =
        some (some component))
      (access_eq : sizeAccess? symbols component =
        some access)
      (passed : Operands symbols table options false
        [operand] [lowered])
      (field_view : field.view =
        .node
          ⟨.simpleName access.name, some access.int,
            some access.field⟩
          []) :
      Form
        ⟨assigned, handed, .node id label [operand, name],
          .node id' (access.view lowered.view).label
            [lowered, field]⟩
        (along false [operand] [lowered]) [field] name.ids
  /- A type test; the type is left behind. -/
  | test
      {assigned handed : Bool}
      {id id' : NodeId}
      {label : Label}
      {value tested lowered object : Placed}
      {named : View}
      {ty : TypeId}
      {test : TypeTest}
      (shape : label.shape = .instanceOf () ())
      (tested_lowered : lower? symbols table options false false
        tested.view = some named)
      (ty_eq : named.ty = some ty)
      (object_array : isObjectArray? symbols ty = some true)
      (test_eq : typeTest? symbols ty = some test)
      (passed : Operands symbols table options false
        [value] [lowered])
      (object_view : object.view = test.object.view) :
      Form
        ⟨assigned, handed, .node id label [value, tested],
          .node id' (test.view lowered.view).label
            [object, lowered]⟩
        (along false [value] [lowered]) [object] tested.ids

end Forms

------------------------------------------------------------
-- Each Passage Is Of A Form
------------------------------------------------------------

section Forming

variable {symbols : Symbols}
variable {table : BindingTable}
variable {options : Options}
variable {assigned handed : Bool}
variable {id : NodeId}
variable {label : Label}
variable {children : List Placed}
variable {new : Placed}

/- What is told by the symbols of an access. -/
theorem eq_of_elementAccess?
    {component : TypeId}
    {access : ElementAccess}
    (hAccess : elementAccess? symbols component assigned =
      some access) :
    access.target = if assigned then some component else none
      := by
  unfold elementAccess? at hAccess
  simp only [Option.bind_eq_bind, Option.bind_eq_some_iff]
    at hAccess
  rcases hAccess with
    ⟨_, _, _, _, _, _, _, _, _, _, _, _, _, _, hLast⟩
  cases hLast
  rfl

/- A passage has some form. -/
private def Formed
    (symbols : Symbols)
    (table : BindingTable)
    (options : Options)
    (passage : Passage) : Prop :=
  ∃ parts made lost,
    Form symbols table options passage parts made lost

private theorem formed_kept
    (hOther : label.shape.tag ≠ .arrayCreation ∧
      label.shape.tag ≠ .arrayAccess)
    (hNone : stored? symbols label (children.map (·.view)) =
      some none)
    {lowered : List View}
    (hLowered : lowerAll? symbols table options
      label.shape.assignsFirst (children.map (·.view)) =
        some lowered)
    (hNew : new.view = .node (label.retainIf handed) lowered) :
    Formed symbols table options
      ⟨assigned, handed, .node id label children, new⟩ := by
  rcases Placed.eq_of_view hNew with ⟨id', below, rfl, rfl⟩
  exact ⟨_, _, _,
    .kept hOther hNone (operands_of_lowerAll? hLowered)⟩

private theorem formed_stored
    {store : Store}
    (hStored : stored? symbols label
      (children.map (·.view)) = some (some store))
    {operands : List View}
    (hOperands : lowerStored? symbols table options
      (children.map (·.view)) = some operands)
    (hNew : store? symbols store operands = some new.view) :
    Formed symbols table options
      ⟨assigned, handed, .node id label children, new⟩ := by
  rcases eq_of_stored? hStored with
    ⟨_, _, hPair, _, hAccess, _, _⟩
  rcases children with
    _ | ⟨target, _ | ⟨value, _ | ⟨third, rest⟩⟩⟩
  · simp at hPair
  · simp at hPair
  · cases hPair
    rcases target with ⟨target, outer, below⟩
    simp only [List.map_cons, List.map_nil, Placed.view_node]
      at hStored hOperands hAccess
    rw [View.label] at hAccess
    simp only [lowerStored?, lowerOperands?, hAccess,
      NodeKind.assignsFirst] at hOperands
    rcases Option.bind_eq_some_iff.mp hOperands with
      ⟨lowered, hLowered, hOperands⟩
    rcases Option.bind_eq_some_iff.mp hOperands with
      ⟨last, hLast, hOperands⟩
    cases hOperands
    rcases Option.bind_eq_some_iff.mp hNew with
      ⟨function, hFunction, hNew⟩
    rcases Placed.eq_of_view (Option.some.inj hNew).symm with
      ⟨id', arguments, rfl, hArguments⟩
    rcases List.map_eq_append_iff.mp hArguments with
      ⟨news, lasts, rfl, rfl, hLasts⟩
    rcases List.map_eq_singleton_iff.mp hLasts with
      ⟨there, rfl, rfl⟩
    have hForm := @Form.stored symbols table options assigned
      handed id id' target label outer below news value there
      store function hStored hFunction
      (operands_of_lowerAll? hLowered) hLast
    rw [List.map_append, List.map_singleton] at hForm
    exact ⟨_, _, _, hForm⟩
  · simp at hPair

private theorem formed_access
    (hShape : label.shape = .arrayAccess () ())
    {component : TypeId}
    (hTy : label.ty = some component)
    {access : ElementAccess}
    (hAccess : elementAccess? symbols component assigned =
      some access)
    {array index : View}
    (hLowered : lowerAll? symbols table options false
      (children.map (·.view)) = some [array, index])
    (hNew : access.view array index = new.view) :
    Formed symbols table options
      ⟨assigned, handed, .node id label children, new⟩ := by
  have hTarget := eq_of_elementAccess? hAccess
  unfold ElementAccess.view at hNew
  cases assigned with
  | false =>
      rw [hTarget] at hNew
      rcases Placed.eq_of_view hNew.symm with
        ⟨id', below, rfl, hBelow⟩
      rw [← hBelow] at hLowered ⊢
      exact ⟨_, _, _, .read hShape hTy hAccess
        (operands_of_lowerAll? hLowered)⟩
  | true =>
      rw [hTarget] at hNew
      rcases Placed.eq_of_view hNew.symm with
        ⟨id', below, rfl, hBelow⟩
      rcases List.map_eq_singleton_iff.mp hBelow with
        ⟨call, rfl, hCall⟩
      rcases Placed.eq_of_view hCall with
        ⟨id'', below, rfl, hOperands⟩
      rw [← hOperands] at hLowered ⊢
      exact ⟨_, _, _, .pointer hShape hTy hAccess
        (operands_of_lowerAll? hLowered)⟩

/- Two operands are lowered one by one. -/
private theorem of_lowerAll?_pair
    {first second first' second' : View}
    (hLowered : lowerAll? symbols table options false
      [first, second] = some [first', second']) :
    lower? symbols table options false false first =
        some first' ∧
      lower? symbols table options false false second =
        some second' := by
  have hEach := forall₂_of_lowerAll? hLowered
  rcases List.forall₂_cons_left_iff.mp hEach with
    ⟨_, _, hFirst, hRest, hEq⟩
  cases hEq
  rcases List.forall₂_cons_left_iff.mp hRest with
    ⟨_, _, hSecond, _, hEq⟩
  cases hEq
  exact ⟨hFirst, hSecond⟩

/- What is lowered to two views are two. -/
private theorem pair_of_lowerAll?
    {first second : View}
    (hLowered : lowerAll? symbols table options false
      (children.map (·.view)) = some [first, second]) :
    ∃ one two, children = [one, two] := by
  have hCount := (forall₂_of_lowerAll? hLowered).length_eq
  rw [List.length_map] at hCount
  exact List.length_eq_two.mp hCount

/- One operand passes on by itself. -/
private theorem operands_of_one
    {old new : Placed}
    (hLowered : lower? symbols table options false false
      old.view = some new.view) :
    Operands symbols table options false [old] [new] := by
  refine ⟨rfl, ?_⟩
  intro passage hMem
  rcases List.mem_singleton.mp hMem with rfl
  exact hLowered

private theorem formed_length
    {marked : Bool}
    {array : TypeId}
    {length : Placed}
    {factory : Factory}
    {lowered : View}
    (hShape : (label.retainIf handed).shape =
      .arrayCreation [()] none marked)
    (hTy : label.ty = some array)
    (hLowered : lowerAll? symbols table options false
      [length.view] = some [lowered])
    (hFactory : lengthFactory? symbols array
      (marked || options.useArc) = some factory)
    (hNew : new.view = factory.lengthView lowered) :
    Formed symbols table options
      ⟨assigned, handed, .node id label [length], new⟩ := by
  rcases factoryCall_of_view hNew with
    ⟨arguments, made, hArguments, hCalls⟩
  rcases List.map_eq_singleton_iff.mp hArguments with
    ⟨there, rfl, hThere⟩
  rw [← hThere] at hLowered
  have hPassed := @operands_of_lowerAll? symbols table options
    false [length] [there] hLowered
  exact ⟨_, _, _, .length hShape hTy hFactory hPassed hCalls⟩

private theorem formed_lengths
    {marked : Bool}
    {array : TypeId}
    {dimensions : List Unit}
    {lengths : List Placed}
    {factory : NestedFactory}
    {lowered : List View}
    (hShape : (label.retainIf handed).shape =
      .arrayCreation dimensions none marked)
    (hSeveral : 2 ≤ dimensions.length)
    (hLength : lengths.length = dimensions.length)
    (hTy : label.ty = some array)
    (hLowered : lowerAll? symbols table options false
      (lengths.map (·.view)) = some lowered)
    (hFactory : lengthsFactory? symbols table array
      dimensions.length (marked || options.useArc) =
        some factory)
    (hNew : new.view = factory.view lowered) :
    Formed symbols table options
      ⟨assigned, handed, .node id label lengths, new⟩ := by
  rcases factoryCall_of_view hNew with
    ⟨arguments, made, hArguments, hCalls⟩
  rcases List.map_eq_cons_iff.mp hArguments with
    ⟨count, rest, rfl, hCount, hRest⟩
  rcases List.map_eq_singleton_iff.mp hRest with
    ⟨list, rfl, hList⟩
  rcases Placed.eq_of_view hList with
    ⟨id', below, rfl, rfl⟩
  rw [List.length_map] at hCount
  exact ⟨_, _, _, .lengths hShape hSeveral hLength hTy hFactory
    (operands_of_lowerAll? hLowered) hCount hList hCalls⟩

/- What an initializer lists is lowered one by one. -/
private theorem operands_of_expressions
    {initializer : Placed}
    {lowered : View}
    {below : List Placed}
    (hLowered : lower? symbols table options false false
      initializer.view = some lowered)
    (hBelow : below.map (·.view) = elements lowered) :
    Operands symbols table options false
      (expressions initializer) below := by
  have hEach := forall₂_elements hLowered
  have hOld : elements initializer.view =
      (expressions initializer).map (·.view) := by
    rcases initializer with ⟨id, label, children⟩
    rw [Placed.view_node]
    unfold elements expressions
    simp only [View.label, View.children, Placed.label_node,
      Placed.children_node]
    cases label.shape <;> rfl
  rw [hOld, ← hBelow] at hEach
  exact operands_of_forall₂ hEach

private theorem formed_elements
    {marked : Bool}
    {array : TypeId}
    {dimensions : List Unit}
    {lengths : List Placed}
    {initializer : Placed}
    {factory : Factory}
    {lowered : View}
    (hShape : (label.retainIf handed).shape =
      .arrayCreation dimensions (some ()) marked)
    (hLength : lengths.length = dimensions.length)
    (hTy : label.ty = some array)
    (hLowered : lower? symbols table options false false
      initializer.view = some lowered)
    (hFactory : initializedFactory? symbols array
      (marked || options.useArc) = some factory)
    (hNew : new.view =
      factory.initializedView (elements lowered)) :
    Formed symbols table options
      ⟨assigned, handed,
        .node id label (lengths ++ [initializer]), new⟩ := by
  rcases factoryCall_of_view hNew with
    ⟨arguments, made, hArguments, hCalls⟩
  rcases List.map_eq_cons_iff.mp hArguments with
    ⟨list, rest, rfl, hList, hRest⟩
  rcases List.map_eq_singleton_iff.mp hRest with
    ⟨count, rfl, hCount⟩
  rcases Placed.eq_of_view hList with
    ⟨id', below, rfl, hBelow⟩
  have hPassed := operands_of_expressions hLowered hBelow
  rw [← hBelow, List.length_map] at hCount
  rw [← hBelow] at hList hCalls
  exact ⟨_, _, _, .elements hShape hLength hTy hFactory hPassed
    hCount hList hCalls⟩

/- A creation in the store is one that its label tells. -/
theorem kind_of_creation
    {handed : Bool}
    {node : Node}
    {dimensions : List Unit}
    {initializer : Option Unit}
    {marked : Bool}
    (hShape : (node.label.retainIf handed).shape =
      .arrayCreation dimensions initializer marked) :
    ∃ dimensions' initializer' marked',
      node.kind = .arrayCreation dimensions' initializer'
          marked' ∧
        dimensions = dimensions'.map (fun _ => ()) ∧
        initializer = initializer'.map fun _ => () := by
  have hTag := (node.label.tag_retainIf handed).trans
    (NodeKind.tag_shape node.kind)
  rw [hShape] at hTag
  cases hKind : node.kind
  case arrayCreation dimensions' initializer' marked' =>
    rw [shape_of_creation hKind] at hShape
    cases hShape
    exact ⟨_, _, _, rfl, rfl, rfl⟩
  all_goals
    rw [hKind] at hTag
    exact absurd hTag (by simp [NodeKind.tag])

private theorem formed_creation
    {tree : Tree}
    (hHolds : tree.Holds (.node id label children))
    {dimensions : List Unit}
    {initializer : Option Unit}
    {marked : Bool}
    (hShape : (label.retainIf handed).shape =
      .arrayCreation dimensions initializer marked)
    {array : TypeId}
    (hTy : label.ty = some array)
    {lowered : List View}
    (hLowered : lowerAll? symbols table options false
      (children.map (·.view)) = some lowered)
    (hNew : creation? symbols table array
      (marked || options.useArc)
      (lowered.take dimensions.length)
      (initializer.bind fun _ => lowered[dimensions.length]?) =
        some new.view) :
    Formed symbols table options
      ⟨assigned, handed, .node id label children, new⟩ := by
  rcases hHolds.stored with ⟨node, _, hLabel, hListed⟩
  rw [Placed.label_node] at hLabel
  subst hLabel
  rcases kind_of_creation hShape with
    ⟨dimensions', initializer', _, hKind, rfl, rfl⟩
  rw [hKind] at hListed
  rcases dimension_children hListed with
    ⟨lengths, values, hChildren, rfl, hValues⟩
  rw [Placed.children_node] at hChildren
  subst hChildren
  have hEach := forall₂_of_lowerAll? hLowered
  have hCount := hEach.length_eq
  rw [List.length_map, List.length_map] at hNew
  rw [List.length_map, List.length_append] at hCount
  cases initializer' with
  | some initializer =>
      rcases List.map_eq_singleton_iff.mp hValues.symm with
        ⟨value, rfl, rfl⟩
      have hLast := List.forall₂_drop lengths.length hEach
      rw [← List.map_drop, List.drop_left' rfl] at hLast
      rcases List.forall₂_cons_left_iff.mp hLast with
        ⟨below, none, hBelow, hNone, hDrop⟩
      cases hNone
      have hAt : lowered[lengths.length]? = some below := by
        have hHead := congrArg (·[0]?) hDrop
        simpa using hHead
      rw [Option.map_some, Option.bind_some, hAt] at hNew
      rcases Option.bind_eq_some_iff.mp hNew with
        ⟨factory, hFactory, hNew⟩
      exact formed_elements hShape (by simp) hTy hBelow hFactory
        (Option.some.inj hNew).symm
  | none =>
      rw [Option.toList_none, eq_comm, List.map_eq_nil_iff]
        at hValues
      subst hValues
      rw [List.append_nil] at hLowered ⊢
      rw [Option.map_none, Option.bind_none,
        List.take_of_length_le (by simp at hCount; omega)]
        at hNew
      rcases lowered with _ | ⟨first, _ | ⟨second, rest⟩⟩
      · exact absurd hNew (by simp [creation?])
      · rcases lengths with _ | ⟨length, _ | ⟨other, others⟩⟩
        · simp at hCount
        · rcases Option.bind_eq_some_iff.mp hNew with
            ⟨factory, hFactory, hNew⟩
          exact formed_length hShape hTy hLowered hFactory
            (Option.some.inj hNew).symm
        · simp at hCount
      · have hLength : lengths.length =
            (first :: second :: rest).length := by
          simpa using hCount
        rcases Option.bind_eq_some_iff.mp hNew with
          ⟨factory, hFactory, hNew⟩
        rw [← hLength] at hFactory
        refine formed_lengths hShape ?_ (by simp) hTy hLowered
          ?_ (Option.some.inj hNew).symm
        · simp [hLength]
        · simpa using hFactory

private theorem formed_member
    {operand name : Placed}
    (hShape : label.shape = .fieldAccess () () ∨
      label.shape = .qualifiedName () ())
    (hNone : stored? symbols label [operand.view, name.view] =
      some none)
    {operand' name' : View}
    (hLowered : lowerAll? symbols table options false
      [operand.view, name.view] = some [operand', name'])
    (hNew : member? symbols (label.retainIf handed) operand'
      name' = some new.view) :
    Formed symbols table options
      ⟨assigned, handed, .node id label [operand, name],
        new⟩ := by
  have hFirst : label.shape.assignsFirst = false := by
    rcases hShape with hShape | hShape <;> rw [hShape] <;> rfl
  have hKept (hSame : (View.node (label.retainIf handed)
      [operand', name']) = new.view) :
      Formed symbols table options
        ⟨assigned, handed, .node id label [operand, name],
          new⟩ := by
    rw [← hFirst] at hLowered
    refine formed_kept ?_ hNone hLowered hSame.symm
    rcases hShape with hShape | hShape <;>
      simp [hShape, NodeKind.tag]
  rcases Option.bind_eq_some_iff.mp hNew with
    ⟨length, hLength, hNew⟩
  cases length with
  | false => exact hKept (Option.some.inj hNew)
  | true =>
      rcases Option.bind_eq_some_iff.mp hNew with
        ⟨component, hComponent, hNew⟩
      cases component with
      | none => exact hKept (Option.some.inj hNew)
      | some component =>
          rcases Option.bind_eq_some_iff.mp hNew with
            ⟨access, hAccess, hNew⟩
          rcases Placed.eq_of_view (Option.some.inj hNew).symm
            with ⟨id', below, rfl, hBelow⟩
          rcases List.map_eq_cons_iff.mp hBelow with
            ⟨there, rest, rfl, rfl, hRest⟩
          rcases List.map_eq_singleton_iff.mp hRest with
            ⟨field, rfl, hField⟩
          rcases of_lowerAll?_pair hLowered with
            ⟨hOperand, hName⟩
          exact ⟨_, _, _, .size hShape hName hLength hComponent
            hAccess (operands_of_one hOperand) hField⟩

private theorem formed_tested
    {value tested : Placed}
    (hShape : label.shape = .instanceOf () ())
    (hNone : stored? symbols label [value.view, tested.view] =
      some none)
    {value' tested' : View}
    (hLowered : lowerAll? symbols table options false
      [value.view, tested.view] = some [value', tested'])
    (hNew : tested? symbols (label.retainIf handed) value'
      tested' = some new.view) :
    Formed symbols table options
      ⟨assigned, handed, .node id label [value, tested],
        new⟩ := by
  have hFirst : label.shape.assignsFirst = false := by
    rw [hShape]
    rfl
  rcases Option.bind_eq_some_iff.mp hNew with
    ⟨ty, hTy, hNew⟩
  rcases Option.bind_eq_some_iff.mp hNew with
    ⟨array, hArray, hNew⟩
  cases array with
  | false =>
      rw [← hFirst] at hLowered
      exact formed_kept (by simp [hShape, NodeKind.tag]) hNone
        hLowered (Option.some.inj hNew).symm
  | true =>
      rcases Option.bind_eq_some_iff.mp hNew with
        ⟨test, hTest, hNew⟩
      rcases Placed.eq_of_view (Option.some.inj hNew).symm
        with ⟨id', below, rfl, hBelow⟩
      rcases List.map_eq_cons_iff.mp hBelow with
        ⟨object, rest, rfl, hObject, hRest⟩
      rcases List.map_eq_singleton_iff.mp hRest with
        ⟨there, rfl, rfl⟩
      rcases of_lowerAll?_pair hLowered with
        ⟨hValue, hTested⟩
      exact ⟨_, _, _, .test hShape hTested hTy hArray hTest
        (operands_of_one hValue) hObject⟩

/- Each passage from a subtree of a store is of some form. -/
theorem form_of_valid
    {tree : Tree}
    {whole : Passage}
    (hHolds : tree.Holds whole.old)
    (hValid : whole.Valid symbols table options) :
    ∃ parts made lost,
      Form symbols table options whole parts made lost := by
  rcases whole with ⟨assigned, handed, ⟨id, label, children⟩, new⟩
  unfold Passage.Valid at hValid
  rw [Placed.view_node, lower?] at hValid
  rcases Option.bind_eq_some_iff.mp hValid with
    ⟨store, hStore, hRest⟩
  cases store with
  | some store =>
      rcases Option.bind_eq_some_iff.mp hRest with
        ⟨operands, hOperands, hNew⟩
      exact formed_stored hStore hOperands hNew
  | none =>
      rcases Option.bind_eq_some_iff.mp hRest with
        ⟨lowered, hLowered, hFinish⟩
      have hFirst := label.assignsFirst_retainIf handed
      unfold finish? at hFinish
      split at hFinish
      · next hShape =>
        rcases Option.bind_eq_some_iff.mp hFinish with
          ⟨array, hTy, hNew⟩
        rw [label.ty_retainIf handed] at hTy
        rw [← hFirst, hShape] at hLowered
        exact formed_creation hHolds hShape hTy hLowered hNew
      · next hShape =>
        rcases Option.bind_eq_some_iff.mp hFinish with
          ⟨component, hTy, hNew⟩
        rcases Option.bind_eq_some_iff.mp hNew with
          ⟨access, hAccess, hNew⟩
        rw [label.ty_retainIf handed] at hTy
        rw [← hFirst, hShape] at hLowered
        exact formed_access (Label.shape_of_retainIf hShape rfl)
          hTy hAccess hLowered (Option.some.inj hNew)
      · exact absurd hFinish (by simp)
      · next hShape =>
        rw [← hFirst, hShape] at hLowered
        rcases pair_of_lowerAll? hLowered with ⟨_, _, rfl⟩
        exact formed_member
          (Or.inl (Label.shape_of_retainIf hShape rfl)) hStore
          hLowered hFinish
      · next hShape =>
        rw [← hFirst, hShape] at hLowered
        rcases pair_of_lowerAll? hLowered with ⟨_, _, rfl⟩
        exact formed_member
          (Or.inr (Label.shape_of_retainIf hShape rfl)) hStore
          hLowered hFinish
      · next hShape =>
        rw [← hFirst, hShape] at hLowered
        rcases pair_of_lowerAll? hLowered with ⟨_, _, rfl⟩
        exact formed_tested (Label.shape_of_retainIf hShape rfl)
          hStore hLowered hFinish
      · next hCreation hAccess _ _ _ _ =>
        refine formed_kept ?_ hStore hLowered
          (Option.some.inj hFinish).symm
        rw [← label.tag_retainIf handed]
        constructor
        · intro hTag
          cases hShape : (label.retainIf handed).shape
          case arrayCreation => exact hCreation _ _ _ hShape
          all_goals
            rw [hShape] at hTag
            exact absurd hTag (by simp [NodeKind.tag])
        · intro hTag
          cases hShape : (label.retainIf handed).shape
          case arrayAccess => exact hAccess _ _ hShape
          all_goals
            rw [hShape] at hTag
            exact absurd hTag (by simp [NodeKind.tag])

end Forming

end Arrays

end Lowering
