import Lowering.Proofs.Arrays.Lookup
import Lowering.Proofs.Arrays.Pieces

/-
  This file defines what the lowering of arrays means: a
  function on views, by recursion on the view, that knows
  nothing of stores, owners or replacements.

  A view is lowered from the leaves on. The children of a node
  are lowered first, and then the construct that the node is,
  if it is one on arrays. A plain assignment to an element of
  an array of objects is lowered as a whole instead: the
  operands of the access are lowered, but not the access.

  The function has no answer where lowering is refused or
  where a symbol is missing. It reads symbols and makes none,
  so it has the same answer in all later symbols.

  Key definitions include:
    * `Arrays.stored?`
    * `Arrays.finish?`
    * `Arrays.Finishes`
    * `Arrays.lower?`

  Main results:
    * `Arrays.stable_lower?`
    * `Arrays.lower?_retain`
-/

namespace Lowering

/- Views are built from the leaves on. -/
@[elab_as_elim, induction_eliminator]
theorem View.induct
    {motive : View → Prop}
    (node : ∀ label children,
      (∀ child ∈ children, motive child) →
        motive (.node label children))
    (view : View) : motive view := by
  refine @View.rec motive
    (fun children => ∀ child ∈ children, motive child)
    ?_ ?_ ?_ view
  · intro label children ih
    exact node label children ih
  · intro child hChild
    exact absurd hChild List.not_mem_nil
  · intro first rest hFirst hRest child hChild
    rcases List.mem_cons.mp hChild with hEq | hMem
    · rw [hEq]
      exact hFirst
    · exact hRest child hMem

namespace Arrays

open Symbols

------------------------------------------------------------
-- Constructs
------------------------------------------------------------

section Constructs

variable (symbols : Symbols) (table : BindingTable)

/- An assignment that is lowered as a whole. -/
structure Store where
  component : TypeId
  /- Whether the value can be handed over retained. -/
  consumes : Bool
  deriving DecidableEq, Inhabited, Repr

/- The operator of an assignment to an element of an array. -/
def elementOperator? (label target : Label) : Option AssignOp :=
  match label.shape, target.shape with
  | .assignment op _ _, .arrayAccess _ _ => some op
  | _, _ => none

/-
  Whether a node is a plain assignment to an element that is
  no value primitive.
-/
def stored?
    (label : Label) : List View → Option (Option Store)
  | [target, value] =>
    match elementOperator? label target.label with
    | some op => do
      let component ← target.ty
      let primitive ← isPrimitive? symbols component
      if primitive || op ≠ .assign then
        some none
      else
        some (some ⟨component, value.label.shape.canRetain⟩)
    | none => some none
  | _ => some none

/- Whether a node is the simple name `length`. -/
def isLength? (name : View) : Option Bool :=
  match name.label.shape with
  | .simpleName identifier =>
    (symbols.text? identifier).map (· = "length")
  | _ => some false

/- The component of the array that a node denotes, if any. -/
def arrayOperand?
    (operand : View) : Option (Option TypeId) :=
  match operand.ty with
  | some ty => componentType? symbols ty
  | none => some none

/- The expressions that an initializer lists. -/
def elements (initializer : View) : List View :=
  match initializer.label.shape with
  | .arrayInitializer _ => initializer.children
  | _ => []

/- The call that creates an array, by what it is made of. -/
def creation?
    (array : TypeId)
    (retained : Bool)
    (dimensions : List View) :
    Option View → Option View
  | some initializer => do
    let factory ← initializedFactory? symbols array retained
    some (factory.initializedView (elements initializer))
  | none =>
    match dimensions with
    | [] => none
    | [length] => do
      let factory ← lengthFactory? symbols array retained
      some (factory.lengthView length)
    | dimensions => do
      let factory ← lengthsFactory? symbols table array
        dimensions.length retained
      some (factory.view dimensions)

/- A member access, which may be one to a length. -/
def member?
    (label : Label)
    (operand name : View) : Option View := do
  let length ← isLength? symbols name
  if length then
    match ← arrayOperand? symbols operand with
    | some component => do
      let access ← sizeAccess? symbols component
      some (access.view operand)
    | none => some (.node label [operand, name])
  else
    some (.node label [operand, name])

/- A type test, which may be one against an array of objects. -/
def tested?
    (label : Label)
    (value tested : View) : Option View := do
  let ty ← tested.ty
  let array ← isObjectArray? symbols ty
  if array then do
    let test ← typeTest? symbols ty
    some (test.view value)
  else
    some (.node label [value, tested])

/-
  What becomes of a node whose children have been lowered. The
  places of its shape tell which child is which.
-/
def finish?
    (options : Options)
    (assigned : Bool)
    (label : Label)
    (children : List View) : Option View :=
  match label.shape, children with
  | .arrayCreation dimensions initializer marked, _ => do
    let array ← label.ty
    creation? symbols table array (marked || options.useArc)
      (children.take dimensions.length)
      (initializer.bind fun _ =>
        children[dimensions.length]?)
  | .arrayAccess _ _, [array, index] => do
    let component ← label.ty
    let access ← elementAccess? symbols component assigned
    some (access.view array index)
  | .arrayAccess _ _, _ => none
  | .fieldAccess _ _, [operand, name] =>
    member? symbols label operand name
  | .qualifiedName _ _, [operand, name] =>
    member? symbols label operand name
  | .instanceOf _ _, [value, tested] =>
    tested? symbols label value tested
  | _, _ => some (.node label children)

/- The call that stores an element. -/
def store?
    (store : Store)
    (operands : List View) : Option View := do
  let function ← storeFunction? symbols store.consumes
  some (callView function store.component operands)

end Constructs

/- Field accesses and qualified names are member accesses. -/
theorem memberAccess?_of_shape
    {kind : NodeKind NodeId}
    (hShape : kind.shape = .fieldAccess () () ∨
      kind.shape = .qualifiedName () ()) :
    ∃ operand name,
      memberAccess? kind = some (operand, name) ∧
        kind.children = [operand, name] := by
  rcases hShape with hField | hQualified
  · rcases NodeKind.eq_fieldAccess_of_shape hField with
      ⟨operand, name, rfl⟩
    exact ⟨operand, name, rfl, rfl⟩
  · rcases NodeKind.eq_qualifiedName_of_shape hQualified with
      ⟨operand, name, rfl⟩
    exact ⟨operand, name, rfl, rfl⟩

theorem elementOperator?_eq_some
    {label target : Label}
    {op : AssignOp} :
    elementOperator? label target = some op ↔
      label.shape = .assignment op () () ∧
        target.shape = .arrayAccess () () := by
  unfold elementOperator?
  split
  · next hLabel hTarget =>
    rw [hLabel, hTarget]
    simp
  · next hNeither =>
    constructor
    · intro hNone
      exact absurd hNone (by simp)
    · intro hBoth
      exact absurd hBoth.2 (hNeither _ _ _ _ _ hBoth.1)

/- Nothing is stored where no element is assigned to. -/
theorem stored?_eq_none
    {symbols : Symbols}
    {label : Label}
    {children : List View}
    (hNone : ∀ target value, children = [target, value] →
      elementOperator? label target.label = none) :
    stored? symbols label children = some none := by
  unfold stored?
  split
  · next target value =>
    rw [hNone target value rfl]
  · rfl

/- Only an assignment stores an element. -/
theorem stored?_of_tag
    {symbols : Symbols}
    {label : Label}
    (hOther : label.shape.tag ≠ .assignment)
    (children : List View) :
    stored? symbols label children = some none := by
  apply stored?_eq_none
  intro target value _
  rw [Option.eq_none_iff_forall_ne_some]
  intro op hSome
  rw [(elementOperator?_eq_some.mp hSome).1] at hOther
  exact hOther rfl

/- What is stored is the value of a plain assignment. -/
theorem eq_of_stored?
    {symbols : Symbols}
    {label : Label}
    {children : List View}
    {store : Store}
    (hStored : stored? symbols label children =
      some (some store)) :
    ∃ target value,
      children = [target, value] ∧
        label.shape = .assignment .assign () () ∧
        target.label.shape = .arrayAccess () () ∧
        target.ty = some store.component ∧
        isPrimitive? symbols store.component = some false := by
  unfold stored? at hStored
  split at hStored
  · next target value =>
    split at hStored
    · next op hOperator =>
      rcases elementOperator?_eq_some.mp hOperator with
        ⟨hShape, hTarget⟩
      rcases Option.bind_eq_some_iff.mp hStored with
        ⟨component, hTy, hRest⟩
      rcases Option.bind_eq_some_iff.mp hRest with
        ⟨primitive, hPrimitive, hLast⟩
      split at hLast
      · exact absurd hLast (by simp)
      · next hPlain =>
        cases hLast
        have hFalse : primitive = false := by
          cases primitive <;> simp_all
        have hAssign : op = .assign := by
          by_contra hOther
          exact hPlain (by simp [hOther])
        rw [hFalse] at hPrimitive
        rw [hAssign] at hShape
        exact ⟨target, value, rfl, hShape, hTarget, hTy,
          hPrimitive⟩
    · exact absurd hStored (by simp)
  · exact absurd hStored (by simp)

------------------------------------------------------------
-- What Becomes Of A Node
------------------------------------------------------------

section Finishing

variable (symbols : Symbols)
variable (table : BindingTable)
variable (options : Options)

/- What becomes of a node above lowered children. -/
inductive Finishes
    (assigned : Bool)
    (label : Label)
    (children : List View) : View → Prop
  /- An array is created. -/
  | creation
      {dimensions : List Unit}
      {initializer : Option Unit}
      {marked : Bool}
      {array : TypeId}
      {view : View}
      (shape : label.shape =
        .arrayCreation dimensions initializer marked)
      (ty : label.ty = some array)
      (creation : creation? symbols table array
        (marked || options.useArc)
        (children.take dimensions.length)
        (initializer.bind fun _ =>
          children[dimensions.length]?) = some view) :
      Finishes assigned label children view
  /- An element is reached. -/
  | access
      {array index : View}
      {component : TypeId}
      {access : ElementAccess}
      (shape : label.shape = .arrayAccess () ())
      (children_eq : children = [array, index])
      (ty : label.ty = some component)
      (access_eq : elementAccess? symbols component assigned =
        some access) :
      Finishes assigned label children (access.view array index)
  /- The size of an array is read. -/
  | size
      {operand name : View}
      {component : TypeId}
      {access : SizeAccess}
      (shape : label.shape = .fieldAccess () () ∨
        label.shape = .qualifiedName () ())
      (children_eq : children = [operand, name])
      (length : isLength? symbols name = some true)
      (component_eq : arrayOperand? symbols operand =
        some (some component))
      (access_eq : sizeAccess? symbols component =
        some access) :
      Finishes assigned label children (access.view operand)
  /- A value is tested against an array type. -/
  | test
      {value tested : View}
      {ty : TypeId}
      {test : TypeTest}
      (shape : label.shape = .instanceOf () ())
      (children_eq : children = [value, tested])
      (ty_eq : tested.ty = some ty)
      (object_array : isObjectArray? symbols ty = some true)
      (test_eq : typeTest? symbols ty = some test) :
      Finishes assigned label children (test.view value)
  /- The node stays. -/
  | node :
      Finishes assigned label children (.node label children)

variable {symbols} {table} {options}

private theorem finishes_of_member?
    {assigned : Bool}
    {label : Label}
    {operand name view : View}
    (hShape : label.shape = .fieldAccess () () ∨
      label.shape = .qualifiedName () ())
    (hMember : member? symbols label operand name =
      some view) :
    Finishes symbols table options assigned label
      [operand, name] view := by
  rcases Option.bind_eq_some_iff.mp hMember with
    ⟨length, hLength, hMember⟩
  cases length with
  | false =>
      cases hMember
      exact .node
  | true =>
      rcases Option.bind_eq_some_iff.mp hMember with
        ⟨component, hComponent, hMember⟩
      cases component with
      | none =>
          cases hMember
          exact .node
      | some component =>
          rcases Option.bind_eq_some_iff.mp hMember with
            ⟨access, hAccess, hMember⟩
          cases hMember
          exact .size hShape rfl hLength hComponent hAccess

/- The function on views does one of these things. -/
theorem finishes_of_finish?
    {assigned : Bool}
    {label : Label}
    {children : List View}
    {view : View}
    (hFinish : finish? symbols table options assigned label
      children = some view) :
    Finishes symbols table options assigned label children
      view := by
  unfold finish? at hFinish
  split at hFinish
  · next hShape =>
    rcases Option.bind_eq_some_iff.mp hFinish with
      ⟨array, hTy, hCreation⟩
    exact .creation hShape hTy hCreation
  · next hShape =>
    rcases Option.bind_eq_some_iff.mp hFinish with
      ⟨component, hTy, hRest⟩
    rcases Option.bind_eq_some_iff.mp hRest with
      ⟨access, hAccess, hLast⟩
    cases hLast
    exact .access hShape rfl hTy hAccess
  · exact absurd hFinish (by simp)
  · next hShape =>
    exact finishes_of_member? (Or.inl hShape) hFinish
  · next hShape =>
    exact finishes_of_member? (Or.inr hShape) hFinish
  · next hShape =>
    rcases Option.bind_eq_some_iff.mp hFinish with
      ⟨ty, hTy, hTested⟩
    rcases Option.bind_eq_some_iff.mp hTested with
      ⟨array, hArray, hTested⟩
    cases array with
    | false =>
        cases hTested
        exact .node
    | true =>
        rcases Option.bind_eq_some_iff.mp hTested with
          ⟨test, hTest, hTested⟩
        cases hTested
        exact .test hShape rfl hTy hArray hTest
  · cases hFinish
    exact .node

end Finishing

------------------------------------------------------------
-- Lowering Of Views
------------------------------------------------------------

section Lowering

variable (symbols : Symbols)
variable (table : BindingTable)
variable (options : Options)

mutual

/-
  Lower a view, given whether its node is assigned to and
  whether its result is to be handed over retained.
-/
def lower? (assigned consumed : Bool) : View → Option View
  | .node label children => do
    match ← stored? symbols label children with
    | some store =>
      let operands ← lowerStored? children
      store? symbols store operands
    | none =>
      let lowered ← lowerAll? label.shape.assignsFirst children
      finish? symbols table options assigned
        (if consumed then label.retain else label) lowered

/- Lower the operands of a node, but not the node. -/
def lowerOperands? : View → Option (List View)
  | .node label children =>
    lowerAll? label.shape.assignsFirst children

/-
  Lower what a stored element is reached by, and the value
  that is stored.
-/
def lowerStored? : List View → Option (List View)
  | [target, value] => do
    let operands ← lowerOperands? target
    let value ← lower? false true value
    some (operands ++ [value])
  | _ => none

/- Lower views, of which the first may be assigned to. -/
def lowerAll? (first : Bool) : List View → Option (List View)
  | [] => some []
  | view :: views => do
    let lowered ← lower? first false view
    let rest ← lowerAll? false views
    some (lowered :: rest)

end

end Lowering

/- What stores nothing is lowered after its children. -/
theorem finish?_of_lower?
    {symbols : Symbols}
    {table : BindingTable}
    {options : Options}
    {assigned consumed : Bool}
    {label : Label}
    {children : List View}
    {view : View}
    (hOther : label.shape.tag ≠ .assignment)
    (hLowered : lower? symbols table options assigned consumed
      (.node label children) = some view) :
    ∃ below,
      lowerAll? symbols table options
          label.shape.assignsFirst children = some below ∧
        finish? symbols table options assigned
            (label.retainIf consumed) below = some view := by
  rw [lower?, stored?_of_tag hOther] at hLowered
  exact Option.bind_eq_some_iff.mp hLowered

/- Views that are not assigned to are lowered one by one. -/
theorem forall₂_of_lowerAll?
    {symbols : Symbols}
    {table : BindingTable}
    {options : Options}
    {views lowered : List View}
    (hLowered : lowerAll? symbols table options false views =
      some lowered) :
    List.Forall₂
      (fun view new =>
        lower? symbols table options false false view =
          some new)
      views lowered := by
  induction views generalizing lowered with
  | nil =>
      rw [lowerAll?] at hLowered
      rw [← Option.some.inj hLowered]
      exact .nil
  | cons view views ih =>
      rw [lowerAll?] at hLowered
      rcases Option.bind_eq_some_iff.mp hLowered with
        ⟨first, hFirst, hRest⟩
      rcases Option.bind_eq_some_iff.mp hRest with
        ⟨rest, hRest, hLast⟩
      rw [← Option.some.inj hLast]
      exact .cons hFirst (ih hRest)

------------------------------------------------------------
-- Stability
------------------------------------------------------------

section Stability

variable {before after : Symbols}

theorem stable_stored? (label : Label) (children : List View) :
    Stable (stored? · label children) := by
  intro before after found hGrown hFound
  unfold stored? at hFound ⊢
  split at hFound
  · next target value =>
    split at hFound
    · next op _ =>
      have hStable := (stable_pure target.ty).bind
        fun component =>
          (stable_isPrimitive? component).bind
            fun primitive => stable_pure
              (if primitive || op ≠ .assign then
                some none
              else
                some (some (⟨component,
                  value.label.shape.canRetain⟩ : Store)))
      exact hStable _ _ _ hGrown hFound
    · exact hFound
  · exact hFound

theorem stable_isLength? (name : View) :
    Stable (isLength? · name) := by
  intro before after found hGrown hFound
  unfold isLength? at hFound ⊢
  split at hFound
  · next identifier _ =>
    exact (stable_text? identifier).map _ _ _ _ hGrown hFound
  · exact hFound

theorem stable_arrayOperand? (operand : View) :
    Stable (arrayOperand? · operand) := by
  unfold arrayOperand?
  cases operand.ty with
  | none => exact stable_pure _
  | some ty => exact stable_componentType? ty

theorem stable_creation?
    (table : BindingTable)
    (array : TypeId)
    (retained : Bool)
    (dimensions : List View)
    (initializer : Option View) :
    Stable (creation? · table array retained dimensions
      initializer) := by
  cases initializer with
  | some initializer =>
      exact (stable_initializedFactory? array retained).bind
        fun _ => stable_pure _
  | none =>
      rcases dimensions with _ | ⟨length, _ | ⟨second, rest⟩⟩
      · exact stable_pure _
      · exact (stable_lengthFactory? array retained).bind
          fun _ => stable_pure _
      · exact (stable_lengthsFactory? table array _
          retained).bind fun _ => stable_pure _

theorem stable_member?
    (label : Label)
    (operand name : View) :
    Stable (member? · label operand name) := by
  apply (stable_isLength? name).bind
  intro length
  cases length with
  | false => exact stable_pure _
  | true =>
      apply (stable_arrayOperand? operand).bind
      intro component
      cases component with
      | none => exact stable_pure _
      | some component =>
          exact (stable_sizeAccess? component).bind
            fun _ => stable_pure _

theorem stable_tested?
    (label : Label)
    (value tested : View) :
    Stable (tested? · label value tested) := by
  apply (stable_pure tested.ty).bind
  intro ty
  apply (stable_isObjectArray? ty).bind
  intro array
  cases array with
  | false => exact stable_pure _
  | true =>
      exact (stable_typeTest? ty).bind fun _ => stable_pure _

theorem stable_finish?
    (table : BindingTable)
    (options : Options)
    (assigned : Bool)
    (label : Label)
    (children : List View) :
    Stable (finish? · table options assigned label
      children) := by
  intro before after found hGrown hFound
  unfold finish? at hFound ⊢
  split at hFound
  · next views _ _ dimensions initializer marked _ =>
    have hStable := (stable_pure label.ty).bind fun array =>
      stable_creation? table array (marked || options.useArc)
        (views.take dimensions.length)
        (initializer.bind fun _ =>
          views[dimensions.length]?)
    exact hStable _ _ _ hGrown hFound
  · next array index _ =>
    have hStable := (stable_pure label.ty).bind
      fun component =>
        (stable_elementAccess? component assigned).bind
          fun access =>
            stable_pure (some (access.view array index))
    exact hStable _ _ _ hGrown hFound
  · exact absurd hFound (by simp)
  · exact stable_member? _ _ _ _ _ _ hGrown hFound
  · exact stable_member? _ _ _ _ _ _ hGrown hFound
  · exact stable_tested? _ _ _ _ _ _ hGrown hFound
  · exact hFound

theorem stable_store? (store : Store) (operands : List View) :
    Stable (store? · store operands) :=
  (stable_storeFunction? store.consumes).bind
    fun _ => stable_pure _

variable {table : BindingTable} {options : Options}

/- Whatever holds of some views holds of all their lowering. -/
private theorem stable_lowerAll?_of
    (views : List View)
    (hEach : ∀ view ∈ views, ∀ assigned consumed,
      Stable (lower? · table options assigned consumed view))
    (first : Bool) :
    Stable (lowerAll? · table options first views) := by
  induction views generalizing first with
  | nil =>
      simp only [lowerAll?]
      exact stable_pure _
  | cons view views ih =>
      simp only [lowerAll?]
      apply (hEach view (by simp) first false).bind
      intro lowered
      apply (ih (fun other hMem => hEach other
        (by simp [hMem])) false).bind
      intro rest
      exact stable_pure _

private theorem stable_both (view : View) :
    (∀ assigned consumed,
      Stable (lower? · table options assigned consumed view)) ∧
        Stable (lowerOperands? · table options view) := by
  induction view with
  | node label children ih =>
      have hAll := stable_lowerAll?_of children
        fun child hMem => (ih child hMem).1
      refine ⟨?_, ?_⟩
      · intro assigned consumed
        simp only [lower?]
        apply (stable_stored? label children).bind
        intro found
        cases found with
        | none =>
            apply (hAll label.shape.assignsFirst).bind
            intro lowered
            exact stable_finish? _ _ _ _ _
        | some store =>
            have hStored : Stable
                (lowerStored? · table options children) := by
              rcases children with
                _ | ⟨target, _ | ⟨value, _ | ⟨third, rest⟩⟩⟩
              · simp only [lowerStored?]
                exact stable_pure _
              · simp only [lowerStored?]
                exact stable_pure _
              · simp only [lowerStored?]
                apply (ih target (by simp)).2.bind
                intro operands
                apply ((ih value (by simp)).1 false true).bind
                intro lowered
                exact stable_pure _
              · simp only [lowerStored?]
                exact stable_pure _
            apply hStored.bind
            intro operands
            exact stable_store? store operands
      · simp only [lowerOperands?]
        exact hAll label.shape.assignsFirst

/- A view is lowered to the same in all later symbols. -/
theorem stable_lower?
    (assigned consumed : Bool)
    (view : View) :
    Stable (lower? · table options assigned consumed view) :=
  (stable_both view).1 assigned consumed

theorem stable_lowerAll? (first : Bool) (views : List View) :
    Stable (lowerAll? · table options first views) :=
  stable_lowerAll?_of views
    (fun view _ assigned consumed =>
      stable_lower? assigned consumed view) first

end Stability

------------------------------------------------------------
-- Retained Results
------------------------------------------------------------

section Retained

variable {symbols : Symbols}
variable {table : BindingTable} {options : Options}

theorem elementOperator?_retain
    (label target : Label) :
    elementOperator? label.retain target =
      elementOperator? label target := by
  rcases label with ⟨shape, ty, element⟩
  unfold Label.retain NodeKind.retain
  cases shape <;> (split <;> rfl)

private theorem assignsFirst_retain (label : Label) :
    label.retain.shape.assignsFirst =
      label.shape.assignsFirst := by
  rcases label with ⟨shape, ty, element⟩
  unfold Label.retain NodeKind.retain
  cases shape <;> (split <;> rfl)

theorem stored?_retain (label : Label) (children : List View) :
    stored? symbols label.retain children =
      stored? symbols label children := by
  unfold stored?
  simp only [elementOperator?_retain]

/-
  To hand over a result retained is to lower the view that was
  asked for it.
-/
theorem lower?_retain (assigned : Bool) (view : View) :
    lower? symbols table options assigned false view.retain =
      lower? symbols table options assigned true view := by
  cases view with
  | node label children =>
      simp only [View.retain, lower?, stored?_retain,
        assignsFirst_retain, if_true]
      rfl

end Retained

------------------------------------------------------------
-- Stored Elements
------------------------------------------------------------

section Stored

variable {symbols : Symbols}
variable {table : BindingTable} {options : Options}

/- A call of a plain function keeps its form. -/
theorem lower?_callView
    (assigned : Bool)
    (function : FunctionRef)
    (ty : TypeId)
    (array index value : View) :
    lower? symbols table options assigned false
        (callView function ty [array, index, value]) =
      (lowerAll? symbols table options false
        [array, index, value]).map (callView function ty) := by
  have hStored : stored? symbols
      ⟨.functionInvocation function
        (places [array, index, value]) false, some ty, none⟩
      [array, index, value] = some none := rfl
  rw [callView, lower?, hStored]
  simp only [Option.bind_eq_bind, Option.bind_some, lowerAll?,
    NodeKind.assignsFirst, Bool.false_eq_true, if_false]
  cases lower? symbols table options false false array <;>
    cases lower? symbols table options false false index <;>
    cases lower? symbols table options false false value <;>
    rfl

/-
  A stored element is lowered as the call that takes the value
  retained.
-/
theorem lower?_stored
    (assigned consumed : Bool)
    {label outer : Label}
    {array index value : View}
    {store : Store}
    {function : FunctionRef}
    (hOuter : outer.shape = .arrayAccess () ())
    (hStored : stored? symbols label
      [.node outer [array, index], value] = some (some store))
    (hFunction : storeFunction? symbols store.consumes =
      some function) :
    lower? symbols table options assigned consumed
        (.node label [.node outer [array, index], value]) =
      lower? symbols table options false false
        (callView function store.component
          [array, index, value.retain]) := by
  rw [lower?_callView, lower?, hStored]
  simp only [Option.bind_eq_bind, Option.bind_some,
    lowerStored?, lowerOperands?, lowerAll?, hOuter,
    NodeKind.assignsFirst, lower?_retain, store?, hFunction]
  cases lower? symbols table options false false array <;>
    cases lower? symbols table options false false index <;>
    cases lower? symbols table options false true value <;>
    rfl

end Stored

end Arrays

end Lowering
