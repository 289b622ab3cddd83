import Lowering.Proofs.Arrays.Reference

/-
  This file proves that lowering reaches a normal form: in what
  it makes of a view, nothing is left that it would change.

  A node rests if it is no construct on arrays that is lowered;
  a view is settled if each of its nodes rests. Whatever
  lowering builds over settled operands is settled, so its
  result is settled by induction on the view.

  Key definitions include:
    * `Arrays.Rests`
    * `Arrays.Settled`

  Main results:
    * `Arrays.Settled.mono`
    * `Arrays.settled_lower?`
-/

namespace Lowering

namespace Arrays

open Symbols

variable {symbols : Symbols}
variable {label : Label}
variable {children : List View}

------------------------------------------------------------
-- Normal Form
------------------------------------------------------------

/- Whether a shape is one of the constructs that are lowered. -/
def mayLower (tag : NodeTag) : Bool :=
  match tag with
  | .arrayCreation => true
  | .arrayAccess => true
  | .fieldAccess => true
  | .qualifiedName => true
  | .instanceOf => true
  | _ => false

/- Nothing is lowered at a node above some children. -/
structure Rests
    (symbols : Symbols)
    (label : Label)
    (children : List View) : Prop where
  no_creation : label.shape.tag ≠ .arrayCreation
  no_access : label.shape.tag ≠ .arrayAccess
  /- A member access is not one to the length of an array. -/
  no_length : ∀ operand name,
    label.shape.tag = .fieldAccess ∨
      label.shape.tag = .qualifiedName →
    children = [operand, name] →
      isLength? symbols name = some false ∨
        isLength? symbols name = some true ∧
          arrayOperand? symbols operand = some none
  /- A test is not one against an array of objects. -/
  no_test : ∀ value tested,
    label.shape.tag = .instanceOf →
    children = [value, tested] →
      ∃ ty, tested.ty = some ty ∧
        isObjectArray? symbols ty = some false

/- Nothing is lowered at any node of a view. -/
inductive Settled (symbols : Symbols) : View → Prop
  | node
      {label : Label}
      {children : List View}
      (rests : Rests symbols label children)
      (below : ∀ child ∈ children, Settled symbols child) :
      Settled symbols (.node label children)

/- A node of another shape rests. -/
theorem Rests.of_tag
    (hTag : mayLower label.shape.tag = false) :
    Rests symbols label children where
  no_creation := by
    intro hEq
    rw [hEq] at hTag
    exact absurd hTag (by decide)
  no_access := by
    intro hEq
    rw [hEq] at hTag
    exact absurd hTag (by decide)
  no_length := by
    intro operand name hEither
    rcases hEither with hEq | hEq <;>
      (rw [hEq] at hTag; exact absurd hTag (by decide))
  no_test := by
    intro value tested hEq
    rw [hEq] at hTag
    exact absurd hTag (by decide)

/- A node that rests does so in all later symbols. -/
theorem Rests.mono
    {later : Symbols}
    (hRests : Rests symbols label children)
    (hGrown : symbols.Grown later) :
    Rests later label children where
  no_creation := hRests.no_creation
  no_access := hRests.no_access
  no_length := by
    intro operand name hTag hPair
    rcases hRests.no_length operand name hTag hPair with
      hOther | ⟨hLength, hOperand⟩
    · exact Or.inl
        (stable_isLength? name _ _ _ hGrown hOther)
    · exact Or.inr
        ⟨stable_isLength? name _ _ _ hGrown hLength,
          stable_arrayOperand? operand _ _ _ hGrown hOperand⟩
  no_test := by
    intro value tested hTag hPair
    rcases hRests.no_test value tested hTag hPair with
      ⟨ty, hTy, hArray⟩
    exact ⟨ty, hTy,
      stable_isObjectArray? ty _ _ _ hGrown hArray⟩

theorem Settled.mono
    {later : Symbols}
    {view : View}
    (hSettled : Settled symbols view)
    (hGrown : symbols.Grown later) :
    Settled later view := by
  induction hSettled with
  | node hRests _ ih => exact .node (hRests.mono hGrown) ih

theorem Settled.child
    {child : View}
    (hSettled : Settled symbols (.node label children))
    (hMem : child ∈ children) :
    Settled symbols child := by
  cases hSettled with
  | node _ hBelow => exact hBelow child hMem

theorem Settled.rests
    (hSettled : Settled symbols (.node label children)) :
    Rests symbols label children := by
  cases hSettled with
  | node hRests _ => exact hRests

------------------------------------------------------------
-- Pieces
------------------------------------------------------------

section Pieces

private theorem settled_leaf
    (hTag : mayLower label.shape.tag = false) :
    Settled symbols (.node label []) :=
  .node (.of_tag hTag) (by simp)

private theorem settled_callView
    (function : FunctionRef)
    (ty : TypeId)
    {arguments : List View}
    (hArguments : ∀ argument ∈ arguments,
      Settled symbols argument) :
    Settled symbols (callView function ty arguments) :=
  .node (.of_tag rfl) hArguments

private theorem settled_list
    (ty : TypeId)
    {expressions : List View}
    (hEach : ∀ expression ∈ expressions,
      Settled symbols expression) :
    Settled symbols (listView ty expressions) :=
  .node (.of_tag rfl) hEach

private theorem settled_staticCall
    (call : StaticCall)
    {arguments : List View}
    (hArguments : ∀ argument ∈ arguments,
      Settled symbols argument) :
    Settled symbols (call.view arguments) := by
  refine .node (.of_tag rfl) ?_
  intro child hMem
  rcases List.mem_cons.mp hMem with rfl | hMem
  · exact settled_leaf rfl
  · exact hArguments child hMem

private theorem settled_factory
    (factory : Factory)
    {arguments : List View}
    (hArguments : ∀ argument ∈ arguments,
      Settled symbols argument) :
    Settled symbols (factory.view arguments) := by
  unfold Factory.view
  cases factory.object with
  | none => exact settled_staticCall factory.call hArguments
  | some object =>
      apply settled_staticCall factory.call
      intro argument hMem
      rcases List.mem_append.mp hMem with hMem | hMem
      · exact hArguments argument hMem
      · rw [List.mem_singleton] at hMem
        rw [hMem]
        exact settled_leaf rfl

private theorem settled_elementAccess
    (access : ElementAccess)
    {array index : View}
    (hArray : Settled symbols array)
    (hIndex : Settled symbols index) :
    Settled symbols (access.view array index) := by
  have hCall : Settled symbols
      (callView access.function access.ty [array, index]) := by
    apply settled_callView
    intro argument hMem
    simp only [List.mem_cons, List.not_mem_nil, or_false]
      at hMem
    rcases hMem with rfl | rfl
    · exact hArray
    · exact hIndex
  unfold ElementAccess.view
  cases access.target with
  | none => exact hCall
  | some component =>
      refine .node (.of_tag rfl) ?_
      intro child hMem
      rw [List.mem_singleton] at hMem
      rw [hMem]
      exact hCall

/- The field for the size of an array is not named `length`. -/
private theorem settled_sizeAccess
    (hReady : symbols.Ready)
    {component : TypeId}
    {access : SizeAccess}
    (hAccess : sizeAccess? symbols component = some access)
    {array : View}
    (hArray : Settled symbols array) :
    Settled symbols (access.view array) := by
  unfold sizeAccess? at hAccess
  simp only [Option.bind_eq_bind, Option.bind_eq_some_iff]
    at hAccess
  rcases hAccess with
    ⟨cls, _, field, hField, int, _, name, hName, hLast⟩
  rw [← Option.some.inj hLast]
  rcases hReady.sizeFields cls field hField with
    ⟨data, hData, hText⟩
  rcases Option.map_eq_some_iff.mp hName with
    ⟨data', hData', rfl⟩
  rw [hData] at hData'
  cases hData'
  have hSize : symbols.text? data.name = some "size" := hText
  refine .node ⟨by nofun, by nofun, ?_, by nofun⟩ ?_
  · intro operand accessName _ hPair
    rw [List.cons.injEq, List.cons.injEq] at hPair
    rw [← hPair.2.1]
    apply Or.inl
    show (symbols.text? data.name).map _ = some false
    rw [hSize]
    rfl
  · intro child hMem
    simp only [List.mem_cons, List.not_mem_nil, or_false]
      at hMem
    rcases hMem with rfl | rfl
    · exact hArray
    · exact settled_leaf rfl

private theorem settled_typeTest
    (test : TypeTest)
    {value : View}
    (hValue : Settled symbols value) :
    Settled symbols (test.view value) := by
  refine .node (.of_tag rfl) ?_
  intro child hMem
  simp only [List.mem_cons, List.not_mem_nil, or_false] at hMem
  rcases hMem with rfl | rfl
  · exact settled_leaf rfl
  · exact hValue

end Pieces

------------------------------------------------------------
-- Constructs
------------------------------------------------------------

section Constructs

variable {table : BindingTable} {options : Options}
variable {view : View}

private theorem settled_elements
    {initializer : View}
    (hSettled : Settled symbols initializer) :
    ∀ element ∈ elements initializer,
      Settled symbols element := by
  intro element hMem
  unfold elements at hMem
  rcases initializer with ⟨label, children⟩
  split at hMem
  · exact hSettled.child hMem
  · exact absurd hMem (by simp)

private theorem settled_creation?
    {array : TypeId}
    {retained : Bool}
    {dimensions : List View}
    {initializer : Option View}
    (hDimensions : ∀ dimension ∈ dimensions,
      Settled symbols dimension)
    (hInitializer : ∀ found, initializer = some found →
      Settled symbols found)
    (hView : creation? symbols table array retained dimensions
      initializer = some view) :
    Settled symbols view := by
  unfold creation? at hView
  split at hView
  · next initializer =>
    rcases Option.bind_eq_some_iff.mp hView with
      ⟨factory, _, hLast⟩
    rw [← Option.some.inj hLast]
    apply settled_factory
    intro argument hMem
    simp only [List.mem_cons, List.not_mem_nil, or_false]
      at hMem
    rcases hMem with rfl | rfl
    · exact settled_list _
        (settled_elements (hInitializer initializer rfl))
    · exact settled_leaf rfl
  · split at hView
    · exact absurd hView (by simp)
    · next length =>
      rcases Option.bind_eq_some_iff.mp hView with
        ⟨factory, _, hLast⟩
      rw [← Option.some.inj hLast]
      exact settled_factory factory hDimensions
    · rcases Option.bind_eq_some_iff.mp hView with
        ⟨factory, _, hLast⟩
      rw [← Option.some.inj hLast]
      apply settled_factory
      intro argument hMem
      simp only [List.mem_cons, List.not_mem_nil, or_false]
        at hMem
      rcases hMem with rfl | rfl
      · exact settled_leaf rfl
      · exact settled_list _ hDimensions

/- A member access that stays has been looked into. -/
private theorem settled_member?
    (hReady : symbols.Ready)
    (hShape : label.shape = .fieldAccess () () ∨
      label.shape = .qualifiedName () ())
    {operand name : View}
    (hOperand : Settled symbols operand)
    (hName : Settled symbols name)
    (hView : member? symbols label operand name = some view) :
    Settled symbols view := by
  have hStays
      (hRests : isLength? symbols name = some false ∨
        isLength? symbols name = some true ∧
          arrayOperand? symbols operand = some none) :
      Settled symbols (.node label [operand, name]) := by
    refine .node ⟨?_, ?_, ?_, ?_⟩ ?_
    · rcases hShape with hShape | hShape <;>
        simp [hShape, NodeKind.tag]
    · rcases hShape with hShape | hShape <;>
        simp [hShape, NodeKind.tag]
    · intro operand' name' _ hPair
      rw [List.cons.injEq, List.cons.injEq] at hPair
      rw [← hPair.1, ← hPair.2.1]
      exact hRests
    · rcases hShape with hShape | hShape <;>
        simp [hShape, NodeKind.tag]
    · intro child hMem
      simp only [List.mem_cons, List.not_mem_nil, or_false]
        at hMem
      rcases hMem with rfl | rfl
      · exact hOperand
      · exact hName
  unfold member? at hView
  rcases Option.bind_eq_some_iff.mp hView with
    ⟨length, hLength, hView⟩
  cases length with
  | false =>
      simp only [Bool.false_eq_true, if_false] at hView
      rw [← Option.some.inj hView]
      exact hStays (Or.inl hLength)
  | true =>
      simp only [if_true] at hView
      rcases Option.bind_eq_some_iff.mp hView with
        ⟨component, hComponent, hView⟩
      cases component with
      | none =>
          rw [← Option.some.inj hView]
          exact hStays (Or.inr ⟨hLength, hComponent⟩)
      | some component =>
          rcases Option.bind_eq_some_iff.mp hView with
            ⟨access, hAccess, hLast⟩
          rw [← Option.some.inj hLast]
          exact settled_sizeAccess hReady hAccess hOperand

/- A type test that stays has been looked into. -/
private theorem settled_tested?
    (hShape : label.shape = .instanceOf () ())
    {value tested : View}
    (hValue : Settled symbols value)
    (hTested : Settled symbols tested)
    (hView : tested? symbols label value tested = some view) :
    Settled symbols view := by
  unfold tested? at hView
  rcases Option.bind_eq_some_iff.mp hView with
    ⟨ty, hTy, hView⟩
  rcases Option.bind_eq_some_iff.mp hView with
    ⟨array, hArray, hView⟩
  cases array with
  | true =>
      simp only [if_true] at hView
      rcases Option.bind_eq_some_iff.mp hView with
        ⟨test, _, hLast⟩
      rw [← Option.some.inj hLast]
      exact settled_typeTest test hValue
  | false =>
      simp only [Bool.false_eq_true, if_false] at hView
      rw [← Option.some.inj hView]
      refine .node ⟨?_, ?_, ?_, ?_⟩ ?_
      · simp [hShape, NodeKind.tag]
      · simp [hShape, NodeKind.tag]
      · simp [hShape, NodeKind.tag]
      · intro value' tested' _ hPair
        rw [List.cons.injEq, List.cons.injEq] at hPair
        rw [← hPair.2.1]
        exact ⟨ty, hTy, hArray⟩
      · intro child hMem
        simp only [List.mem_cons, List.not_mem_nil, or_false]
          at hMem
        rcases hMem with rfl | rfl
        · exact hValue
        · exact hTested

/- What becomes of a node above settled children is settled. -/
private theorem settled_finish?
    (hReady : symbols.Ready)
    {assigned : Bool}
    (hChildren : ∀ child ∈ children, Settled symbols child)
    (hView : finish? symbols table options assigned label
      children = some view) :
    Settled symbols view := by
  unfold finish? at hView
  split at hView
  · rcases Option.bind_eq_some_iff.mp hView with
      ⟨array, _, hView⟩
    apply settled_creation? ?_ ?_ hView
    · intro dimension hMem
      exact hChildren dimension (List.mem_of_mem_take hMem)
    · intro found hFound
      rcases Option.bind_eq_some_iff.mp hFound with
        ⟨_, _, hAt⟩
      exact hChildren found (List.mem_of_getElem? hAt)
  · rcases Option.bind_eq_some_iff.mp hView with
      ⟨component, _, hView⟩
    rcases Option.bind_eq_some_iff.mp hView with
      ⟨access, _, hLast⟩
    rw [← Option.some.inj hLast]
    exact settled_elementAccess access
      (hChildren _ (by simp)) (hChildren _ (by simp))
  · exact absurd hView (by simp)
  · next hShape =>
    exact settled_member? hReady (Or.inl hShape)
      (hChildren _ (by simp)) (hChildren _ (by simp)) hView
  · next hShape =>
    exact settled_member? hReady (Or.inr hShape)
      (hChildren _ (by simp)) (hChildren _ (by simp)) hView
  · next hShape =>
    exact settled_tested? hShape
      (hChildren _ (by simp)) (hChildren _ (by simp)) hView
  · next hCreation hAccess _ hField hQualified hTest =>
    rw [← Option.some.inj hView]
    refine .node ?_ hChildren
    cases hShape : label.shape
    case arrayCreation dimensions initializer marked =>
      exact (hCreation _ _ _ hShape).elim
    case arrayAccess array index =>
      exact (hAccess _ _ hShape).elim
    case fieldAccess =>
      refine ⟨by simp [hShape, NodeKind.tag],
        by simp [hShape, NodeKind.tag], ?_,
        by simp [hShape, NodeKind.tag]⟩
      intro operand name _ hPair
      exact (hField _ _ _ _ hShape hPair).elim
    case qualifiedName =>
      refine ⟨by simp [hShape, NodeKind.tag],
        by simp [hShape, NodeKind.tag], ?_,
        by simp [hShape, NodeKind.tag]⟩
      intro operand name _ hPair
      exact (hQualified _ _ _ _ hShape hPair).elim
    case instanceOf =>
      refine ⟨by simp [hShape, NodeKind.tag],
        by simp [hShape, NodeKind.tag],
        by simp [hShape, NodeKind.tag], ?_⟩
      intro value tested _ hPair
      exact (hTest _ _ _ _ hShape hPair).elim
    all_goals
      apply Rests.of_tag
      rw [hShape]
      rfl

end Constructs

------------------------------------------------------------
-- Whole Views
------------------------------------------------------------

section Whole

variable {table : BindingTable} {options : Options}

/- Whatever is made of some views is settled if each is. -/
private theorem settled_lowerAll?_of
    (views : List View)
    (hEach : ∀ view ∈ views, ∀ assigned consumed lowered,
      lower? symbols table options assigned consumed view =
        some lowered →
          Settled symbols lowered)
    {first : Bool}
    {lowered : List View}
    (hLowered : lowerAll? symbols table options first views =
      some lowered) :
    ∀ view ∈ lowered, Settled symbols view := by
  induction views generalizing first lowered with
  | nil =>
      rw [lowerAll?] at hLowered
      rw [← Option.some.inj hLowered]
      simp
  | cons view views ih =>
      rw [lowerAll?] at hLowered
      rcases Option.bind_eq_some_iff.mp hLowered with
        ⟨head, hHead, hLowered⟩
      rcases Option.bind_eq_some_iff.mp hLowered with
        ⟨tail, hTail, hLast⟩
      rw [← Option.some.inj hLast]
      intro found hMem
      rcases List.mem_cons.mp hMem with rfl | hMem
      · exact hEach view (by simp) _ _ _ hHead
      · exact ih (fun other hOther => hEach other
          (by simp [hOther])) hTail found hMem

private theorem settled_both
    (hReady : symbols.Ready)
    (view : View) :
    (∀ assigned consumed lowered,
      lower? symbols table options assigned consumed view =
        some lowered →
          Settled symbols lowered) ∧
      ∀ operands,
        lowerOperands? symbols table options view =
          some operands →
            ∀ operand ∈ operands, Settled symbols operand := by
  induction view with
  | node label children ih =>
      have hAll := fun first lowered =>
        @settled_lowerAll?_of symbols table options children
          (fun child hMem => (ih child hMem).1) first lowered
      refine ⟨?_, ?_⟩
      · intro assigned consumed lowered hLowered
        rw [lower?] at hLowered
        rcases Option.bind_eq_some_iff.mp hLowered with
          ⟨found, hFound, hLowered⟩
        cases found with
        | none =>
            rcases Option.bind_eq_some_iff.mp hLowered with
              ⟨below, hBelow, hLast⟩
            exact settled_finish? hReady (hAll _ _ hBelow)
              hLast
        | some store =>
            rcases Option.bind_eq_some_iff.mp hLowered with
              ⟨operands, hOperands, hStore⟩
            rcases Option.bind_eq_some_iff.mp hStore with
              ⟨function, _, hLast⟩
            rw [← Option.some.inj hLast]
            apply settled_callView
            rcases children with
              _ | ⟨target, _ | ⟨value, _ | ⟨third, rest⟩⟩⟩
            · simp [lowerStored?] at hOperands
            · simp [lowerStored?] at hOperands
            · rw [lowerStored?] at hOperands
              rcases Option.bind_eq_some_iff.mp hOperands with
                ⟨front, hFront, hOperands⟩
              rcases Option.bind_eq_some_iff.mp hOperands with
                ⟨last, hLast, hBoth⟩
              rw [← Option.some.inj hBoth]
              intro operand hMem
              rcases List.mem_append.mp hMem with hMem | hMem
              · exact (ih target (by simp)).2 front hFront
                  operand hMem
              · rw [List.mem_singleton] at hMem
                rw [hMem]
                exact (ih value (by simp)).1 _ _ _ hLast
            · simp [lowerStored?] at hOperands
      · intro operands hOperands
        rw [lowerOperands?] at hOperands
        exact hAll _ _ hOperands

/-
  Lowering reaches a normal form: what a view is lowered to is
  settled.
-/
theorem settled_lower?
    (hReady : symbols.Ready)
    {view lowered : View}
    {assigned consumed : Bool}
    (hLowered : lower? symbols table options assigned consumed
      view = some lowered) :
    Settled symbols lowered :=
  (settled_both hReady view).1 assigned consumed lowered
    hLowered

end Whole

end Arrays

end Lowering
