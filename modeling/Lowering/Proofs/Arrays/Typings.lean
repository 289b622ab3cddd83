import Lowering.Proofs.Arrays.Flaws
import Lowering.Proofs.Arrays.Types

/-
  This file tells of each node, before anything is lowered,
  what type it will have when it has been lowered.

  What a run looks up about live types and known names is the
  same all through the run, so that it can be told in the
  symbols at its start. Only the symbols that the run makes
  are not known then: the type of what becomes of a length or
  of a test is told by its kind.

  Key definitions include:
    * `Arrays.Typing`
    * `Arrays.typing`
    * `Arrays.Retyped`

  Main results:
    * `Arrays.retyped_of_finish?`
-/

namespace Lowering

/- What a stable lookup has found is what it finds. -/
theorem Symbols.Stable.eq
    {α : Type}
    {lookup : Symbols → Option α}
    {before after : Symbols}
    (hStable : Stable lookup)
    (hGrown : before.Grown after)
    (hFound : (lookup before).isSome) :
    lookup after = lookup before := by
  rcases Option.isSome_iff_exists.mp hFound with
    ⟨answer, hAnswer⟩
  rw [hAnswer]
  exact hStable _ _ _ hGrown hAnswer

namespace Arrays

open Symbols

------------------------------------------------------------
-- What Is Known From The Start
------------------------------------------------------------

section Known

variable {symbols later : Symbols}
variable {ty : TypeId}

theorem componentType?_eq
    (hGrown : symbols.Grown later)
    (hLive : symbols.cache.Live ty) :
    componentType? later ty = componentType? symbols ty := by
  apply (stable_componentType? ty).eq hGrown
  rw [componentType?_of_live hLive]
  rfl

theorem component?_eq
    (hGrown : symbols.Grown later)
    (hLive : symbols.cache.Live ty) :
    component? later ty = component? symbols ty := by
  unfold component?
  rw [componentType?_eq hGrown hLive]

theorem innermost?_eq
    (hGrown : symbols.Grown later)
    (hLive : symbols.cache.Live ty)
    (depth : Nat) :
    innermost? later ty depth = innermost? symbols ty depth := by
  induction depth with
  | zero => rfl
  | succ depth ih =>
      unfold innermost?
      rw [ih]
      cases hOuter : innermost? symbols ty depth with
      | none => rfl
      | some outer =>
          exact component?_eq hGrown
            (live_innermost? hLive depth hOuter)

theorem isPrimitive?_of_live
    (hLive : symbols.cache.Live ty) :
    (isPrimitive? symbols ty).isSome := by
  rcases hLive.typed with ⟨data, hType⟩
  unfold isPrimitive?
  rw [kind?_eq_some hType]
  rfl

theorem isObjectArray?_of_live
    (hLive : symbols.cache.Live ty) :
    (isObjectArray? symbols ty).isSome := by
  unfold isObjectArray?
  rw [componentType?_of_live hLive]
  cases hComponent : component? symbols ty with
  | none => rfl
  | some component =>
      rcases Option.isSome_iff_exists.mp (isPrimitive?_of_live
        (live_component? hLive hComponent)) with
        ⟨primitive, hPrimitive⟩
      simp [hPrimitive]

theorem isObjectArray?_eq
    (hGrown : symbols.Grown later)
    (hLive : symbols.cache.Live ty) :
    isObjectArray? later ty = isObjectArray? symbols ty :=
  (stable_isObjectArray? ty).eq hGrown
    (isObjectArray?_of_live hLive)

/- Only an array can be an array of objects. -/
theorem isObjectArray?_eq_false
    (hNone : componentType? symbols ty = some none) :
    isObjectArray? symbols ty = some false := by
  unfold isObjectArray?
  rw [hNone]
  rfl

/- Whether a safe view is the name `length` is known. -/
theorem isLength?_of_safe
    {name : View}
    (hSafe : name.Safe symbols.cache) :
    (isLength? symbols name).isSome := by
  unfold isLength?
  split
  · next identifier hShape =>
    have hNamed := hSafe.label.named identifier hShape
    rw [Option.isSome_map]
    exact hNamed
  · rfl

theorem isLength?_eq
    {name : View}
    (hGrown : symbols.Grown later)
    (hSafe : name.Safe symbols.cache) :
    isLength? later name = isLength? symbols name :=
  (stable_isLength? name).eq hGrown (isLength?_of_safe hSafe)

/- Whether safe operands are stored is known. -/
theorem stored?_eq
    {label : Label}
    {children : List View}
    (hGrown : symbols.Grown later)
    (hSafe : ∀ child ∈ children, child.Safe symbols.cache) :
    stored? later label children =
      stored? symbols label children := by
  unfold stored?
  split
  · next target value =>
    split
    · cases hTy : target.ty with
      | none => rfl
      | some component =>
          have hLive := (hSafe target (by simp)).label.live
            component hTy
          simp only [Option.bind_eq_bind, Option.bind_some,
            (stable_isPrimitive? component).eq hGrown
              (isPrimitive?_of_live hLive)]
    · rfl
  · rfl

end Known

------------------------------------------------------------
-- Typings
------------------------------------------------------------

/- What type a node has once it has been lowered. -/
inductive Typing
  | untyped
  | known (ty : TypeId)
  /- The type of a primitive, which may not be there yet. -/
  | primitive (kind : PrimitiveKind)
  deriving DecidableEq, Inhabited, Repr

namespace Typing

/- The typing of a node that keeps its type. -/
def ofType : Option TypeId → Typing
  | none => untyped
  | some ty => known ty

/- Whether a node is typed as an array. -/
def isArray (symbols : Symbols) : Typing → Bool
  | known ty => (Arrays.component? symbols ty).isSome
  | _ => false

/- Whether a node is typed as an array of objects. -/
def isObjectArray (symbols : Symbols) : Typing → Bool
  | known ty => isObjectArray? symbols ty = some true
  | _ => false

/- A type is as it was told. -/
inductive Fits (symbols : Symbols) : Typing → Option TypeId → Prop
  | untyped : Fits symbols untyped none
  | known (ty : TypeId) : Fits symbols (known ty) (some ty)
  | primitive
      {kind : PrimitiveKind}
      {ty : TypeId}
      (primitive_eq : symbols.primitiveType? kind = some ty) :
      Fits symbols (primitive kind) (some ty)

theorem fits_ofType (symbols : Symbols) (ty : Option TypeId) :
    (ofType ty).Fits symbols ty := by
  cases ty with
  | none => exact .untyped
  | some ty => exact .known ty

end Typing

section Typings

variable (symbols : Symbols)

/-
  What type a node has in the end if nothing is stored by it,
  by what its children will have.
-/
def finishedTyping
    (label : Label)
    (children : List View)
    (below : List Typing) : Typing :=
  match label.shape, children, below with
  | .fieldAccess _ _, [_, name], [operand, _] =>
    ofMember label name operand
  | .qualifiedName _ _, [_, name], [operand, _] =>
    ofMember label name operand
  | .instanceOf _ _, _, [_, tested] =>
    if tested.isObjectArray symbols then
      .primitive .boolean
    else
      .ofType label.ty
  | _, _, _ => .ofType label.ty
where
  /- The typing of a member access. -/
  ofMember (label : Label) (name : View) (operand : Typing) :
      Typing :=
    if isLength? symbols name = some true ∧
        operand.isArray symbols then
      .primitive .int
    else
      .ofType label.ty

mutual

/- What type a view has once it has been lowered. -/
def typing : View → Typing
  | .node label children =>
    match stored? symbols label children with
    | some (some store) => .known store.component
    | _ =>
      finishedTyping symbols label children (typings children)

/- What types views have once they have been lowered. -/
def typings : List View → List Typing
  | [] => []
  | view :: views => typing view :: typings views

end

end Typings

/- A view is as it was told before it was lowered. -/
structure Retyped
    (symbols later : Symbols)
    (old new : View) : Prop where
  fits : (typing symbols old).Fits later new.ty
  length : isLength? later new = isLength? symbols old

section Typings

variable {symbols later : Symbols}
variable {table : BindingTable}
variable {options : Options}

@[simp] theorem typings_eq_map (views : List View) :
    typings symbols views = views.map (typing symbols) := by
  induction views with
  | nil => rw [typings, List.map_nil]
  | cons view views ih => rw [typings, List.map_cons, ih]

/- The typing of what stores nothing. -/
theorem typing_of_none
    {label : Label}
    {children : List View}
    (hNone : stored? symbols label children = some none) :
    typing symbols (.node label children) =
      finishedTyping symbols label children
        (children.map (typing symbols)) := by
  rw [typing, hNone, typings_eq_map]

/- Only a member access or a test may change its type. -/
theorem finishedTyping_eq
    {label : Label}
    (hOther : label.shape.tag ∉
      [.fieldAccess, .qualifiedName, .instanceOf])
    (children : List View)
    (below : List Typing) :
    finishedTyping symbols label children below =
      .ofType label.ty := by
  unfold finishedTyping
  split
  · next hShape => simp [hShape, NodeKind.tag] at hOther
  · next hShape => simp [hShape, NodeKind.tag] at hOther
  · next hShape => simp [hShape, NodeKind.tag] at hOther
  · rfl

/- A type that is told of a safe view is live. -/
private theorem live_typing
    {view : View}
    {ty : TypeId}
    (hSafe : view.Safe symbols.cache)
    (hTyping : typing symbols view = .known ty) :
    symbols.cache.Live ty := by
  rcases view with ⟨label, children⟩
  have hOwn (hIs : Typing.ofType label.ty = .known ty) :
      symbols.cache.Live ty := by
    apply hSafe.label.live
    cases hTy : label.ty with
    | none =>
        rw [hTy] at hIs
        exact absurd hIs (by simp [Typing.ofType])
    | some own =>
        rw [hTy] at hIs
        cases hIs
        exact hTy
  have hMember {name : View} {operand : Typing}
      (hIs : finishedTyping.ofMember symbols label name
        operand = .known ty) : symbols.cache.Live ty := by
    unfold finishedTyping.ofMember at hIs
    split at hIs
    · cases hIs
    · exact hOwn hIs
  rw [typing] at hTyping
  split at hTyping
  · next store hStored =>
    cases hTyping
    rcases eq_of_stored? hStored with
      ⟨target, value, rfl, _, _, hTy, _⟩
    exact (hSafe.child List.mem_cons_self).label.live _ hTy
  · unfold finishedTyping at hTyping
    split at hTyping
    · exact hMember hTyping
    · exact hMember hTyping
    · split at hTyping
      · cases hTyping
      · exact hOwn hTyping
    · exact hOwn hTyping

/- Primitives are no arrays. -/
private theorem componentType?_of_primitive
    {kind : PrimitiveKind}
    {ty : TypeId}
    (hReady : later.Ready)
    (hPrimitive : later.primitiveType? kind = some ty) :
    componentType? later ty = some none := by
  rcases hReady.kind?_of_primitiveType? hPrimitive with
    ⟨data, hType, hKind, _⟩
  unfold componentType?
  rw [kind?_eq_some hType, hKind]
  rfl

/- Whether a lowered operand is an array was told. -/
theorem Retyped.isArray
    {old new : View}
    (hGrown : symbols.Grown later)
    (hReady : later.Ready)
    (hSafe : old.Safe symbols.cache)
    (hRetyped : Retyped symbols later old new)
    {component : Option TypeId}
    (hOperand : arrayOperand? later new = some component) :
    (typing symbols old).isArray symbols = component.isSome := by
  have hFits := hRetyped.fits
  unfold arrayOperand? at hOperand
  cases hTyping : typing symbols old with
  | untyped =>
      rw [hTyping] at hFits
      generalize new.ty = ty at hFits hOperand
      cases hFits
      cases hOperand
      rfl
  | known ty =>
      rw [hTyping] at hFits
      generalize new.ty = ty' at hFits hOperand
      cases hFits
      have hLive := live_typing hSafe hTyping
      simp only [componentType?_eq hGrown hLive,
        componentType?_of_live hLive, Option.some.injEq]
        at hOperand
      rw [← hOperand]
      rfl
  | primitive kind =>
      rw [hTyping] at hFits
      generalize new.ty = ty at hFits hOperand
      cases hFits with
      | primitive hPrimitive =>
          simp only [componentType?_of_primitive hReady
            hPrimitive, Option.some.injEq] at hOperand
          rw [← hOperand]
          rfl

/- Whether a lowered type is an array of objects was told. -/
theorem Retyped.isObjectArray
    {old new : View}
    (hGrown : symbols.Grown later)
    (hReady : later.Ready)
    (hSafe : old.Safe symbols.cache)
    (hRetyped : Retyped symbols later old new)
    {ty : TypeId}
    {array : Bool}
    (hTy : new.ty = some ty)
    (hArray : isObjectArray? later ty = some array) :
    (typing symbols old).isObjectArray symbols = array := by
  have hFits := hRetyped.fits
  rw [hTy] at hFits
  cases hTyping : typing symbols old with
  | untyped =>
      rw [hTyping] at hFits
      cases hFits
  | known own =>
      rw [hTyping] at hFits
      cases hFits
      have hLive := live_typing hSafe hTyping
      rw [isObjectArray?_eq hGrown hLive] at hArray
      simp [Typing.isObjectArray, hArray]
  | primitive kind =>
      rw [hTyping] at hFits
      cases hFits with
      | primitive hPrimitive =>
          rw [isObjectArray?_eq_false
            (componentType?_of_primitive hReady hPrimitive)]
            at hArray
          cases hArray
          rfl

/- What a member access is lowered to has the type told. -/
private theorem fits_member?
    {label lowered : Label}
    {operand name operand' name' new : View}
    (hGrown : symbols.Grown later)
    (hReady : later.Ready)
    (hSafe : operand.Safe symbols.cache)
    (hOperand : Retyped symbols later operand operand')
    (hName : Retyped symbols later name name')
    (hLabel : lowered.ty = label.ty)
    (hMember : member? later lowered operand' name' =
      some new) :
    (finishedTyping.ofMember symbols label name
      (typing symbols operand)).Fits later new.ty := by
  have hKeeps : (Typing.ofType label.ty).Fits later
      lowered.ty := by
    rw [hLabel]
    exact Typing.fits_ofType later label.ty
  rcases Option.bind_eq_some_iff.mp hMember with
    ⟨length, hLength, hMember⟩
  rw [hName.length] at hLength
  unfold finishedTyping.ofMember
  cases length with
  | false =>
      cases hMember
      rw [if_neg (by simp [hLength])]
      exact hKeeps
  | true =>
      rcases Option.bind_eq_some_iff.mp hMember with
        ⟨component, hComponent, hMember⟩
      have hArray := hOperand.isArray hGrown hReady hSafe
        hComponent
      cases component with
      | none =>
          cases hMember
          rw [if_neg (by simp [hArray])]
          exact hKeeps
      | some component =>
          rcases Option.bind_eq_some_iff.mp hMember with
            ⟨access, hAccess, hMember⟩
          cases hMember
          rw [if_pos ⟨hLength, hArray⟩]
          unfold sizeAccess? at hAccess
          simp only [Option.bind_eq_bind,
            Option.bind_eq_some_iff] at hAccess
          rcases hAccess with
            ⟨_, _, _, _, int, hInt, _, _, hLast⟩
          cases hLast
          exact .primitive hInt

/- What a test is lowered to has the type told. -/
private theorem fits_tested?
    {label lowered : Label}
    {tested value' tested' new : View}
    (hGrown : symbols.Grown later)
    (hReady : later.Ready)
    (hSafe : tested.Safe symbols.cache)
    (hRetyped : Retyped symbols later tested tested')
    (hLabel : lowered.ty = label.ty)
    (hTested : tested? later lowered value' tested' =
      some new) :
    Typing.Fits later
      (if (typing symbols tested).isObjectArray symbols then
        .primitive .boolean
      else
        .ofType label.ty) new.ty := by
  rcases Option.bind_eq_some_iff.mp hTested with
    ⟨ty, hTy, hTested⟩
  rcases Option.bind_eq_some_iff.mp hTested with
    ⟨array, hArray, hTested⟩
  rw [hRetyped.isObjectArray hGrown hReady hSafe hTy hArray]
  cases array with
  | false =>
      cases hTested
      rw [if_neg (by simp), ← hLabel]
      exact Typing.fits_ofType later _
  | true =>
      rcases Option.bind_eq_some_iff.mp hTested with
        ⟨test, hTest, hTested⟩
      cases hTested
      rw [if_pos rfl]
      rcases Option.bind_eq_some_iff.mp hTest with
        ⟨boolean, hBoolean, hTest⟩
      rcases Option.bind_eq_some_iff.mp hTest with
        ⟨_, _, hTest⟩
      rcases Option.bind_eq_some_iff.mp hTest with
        ⟨_, _, hLast⟩
      cases hLast
      exact .primitive hBoolean

section Finished

variable {handed : Bool}
variable {label : Label}
variable {children lowered : List View}
variable {new : View}

/- What becomes of a member access has the type told. -/
private theorem fits_finished_member
    {operand name : View}
    (hGrown : symbols.Grown later)
    (hReady : later.Ready)
    (hSafe : ∀ child ∈ children, child.Safe symbols.cache)
    (hBelow : List.Forall₂ (Retyped symbols later) children
      [operand, name])
    (hShape : label.shape = .fieldAccess () () ∨
      label.shape = .qualifiedName () ())
    (hMember : member? later (label.retainIf handed) operand
      name = some new) :
    (finishedTyping symbols label children
      (children.map (typing symbols))).Fits later new.ty := by
  rcases List.forall₂_cons_right_iff.mp hBelow with
    ⟨old, _, hOperand, hRest, rfl⟩
  rcases List.forall₂_cons_right_iff.mp hRest with
    ⟨oldName, _, hName, hNone, rfl⟩
  cases hNone
  have hFits := fits_member? hGrown hReady
    (hSafe old (by simp)) hOperand hName
    (label.ty_retainIf handed) hMember
  rcases hShape with hShape | hShape
  · simpa [finishedTyping, hShape] using hFits
  · simpa [finishedTyping, hShape] using hFits

/- What becomes of a test has the type told. -/
private theorem fits_finished_test
    {value tested : View}
    (hGrown : symbols.Grown later)
    (hReady : later.Ready)
    (hSafe : ∀ child ∈ children, child.Safe symbols.cache)
    (hBelow : List.Forall₂ (Retyped symbols later) children
      [value, tested])
    (hShape : label.shape = .instanceOf () ())
    (hTested : tested? later (label.retainIf handed) value
      tested = some new) :
    (finishedTyping symbols label children
      (children.map (typing symbols))).Fits later new.ty := by
  rcases List.forall₂_cons_right_iff.mp hBelow with
    ⟨_, _, _, hRest, rfl⟩
  rcases List.forall₂_cons_right_iff.mp hRest with
    ⟨old, _, hOld, hNone, rfl⟩
  cases hNone
  have hFits := fits_tested? hGrown hReady
    (hSafe old (by simp)) hOld (label.ty_retainIf handed)
    hTested
  simpa [finishedTyping, hShape] using hFits

/- With other children than a construct has, nothing is done. -/
private theorem fits_untouched
    (hLength : children.length = lowered.length)
    (hField : ∀ first second,
      label.shape = .fieldAccess () () →
        lowered ≠ [first, second])
    (hQualified : ∀ first second,
      label.shape = .qualifiedName () () →
        lowered ≠ [first, second])
    (hTest : ∀ first second,
      label.shape = .instanceOf () () →
        lowered ≠ [first, second]) :
    (finishedTyping symbols label children
      (children.map (typing symbols))).Fits later label.ty := by
  have hPair {first second : Typing}
      (hIs : children.map (typing symbols) = [first, second]) :
      ∃ first second, lowered = [first, second] := by
    rw [← List.length_map (typing symbols), hIs] at hLength
    exact List.length_eq_two.mp hLength.symm
  unfold finishedTyping
  split
  · next hShape hIs =>
    rcases hPair hIs with ⟨_, _, hTwo⟩
    exact absurd hTwo (hField _ _ hShape)
  · next hShape hIs =>
    rcases hPair hIs with ⟨_, _, hTwo⟩
    exact absurd hTwo (hQualified _ _ hShape)
  · next hShape hIs =>
    rcases hPair hIs with ⟨_, _, hTwo⟩
    exact absurd hTwo (hTest _ _ hShape)
  · exact Typing.fits_ofType later label.ty

/- What becomes of a node has the type told. -/
private theorem fits_finish?
    {assigned : Bool}
    (hGrown : symbols.Grown later)
    (hReady : later.Ready)
    (hSafe : ∀ child ∈ children, child.Safe symbols.cache)
    (hBelow : List.Forall₂ (Retyped symbols later) children
      lowered)
    (hFinish : finish? later table options assigned
      (label.retainIf handed) lowered = some new) :
    (finishedTyping symbols label children
      (children.map (typing symbols))).Fits later new.ty := by
  have hTy := label.ty_retainIf handed
  have hOther
      (hTag : (label.retainIf handed).shape.tag ∉
        [.fieldAccess, .qualifiedName, .instanceOf]) :
      finishedTyping symbols label children
          (children.map (typing symbols)) =
        .ofType (label.retainIf handed).ty := by
    rw [label.tag_retainIf handed] at hTag
    rw [finishedTyping_eq hTag, hTy]
  unfold finish? at hFinish
  split at hFinish
  · next hShape =>
    rcases Option.bind_eq_some_iff.mp hFinish with
      ⟨array, hArray, hCreation⟩
    rw [hOther (by simp [hShape, NodeKind.tag]), hArray,
      ty_of_creation? hCreation]
    exact .known array
  · next hShape =>
    rcases Option.bind_eq_some_iff.mp hFinish with
      ⟨component, hComponent, hRest⟩
    rcases Option.bind_eq_some_iff.mp hRest with
      ⟨access, hAccess, hLast⟩
    cases hLast
    rw [hOther (by simp [hShape, NodeKind.tag]), hComponent,
      ty_view_of_elementAccess? hAccess]
    exact .known component
  · exact absurd hFinish (by simp)
  · next hShape =>
    exact fits_finished_member hGrown hReady hSafe hBelow
      (Or.inl (Label.shape_of_retainIf hShape rfl)) hFinish
  · next hShape =>
    exact fits_finished_member hGrown hReady hSafe hBelow
      (Or.inr (Label.shape_of_retainIf hShape rfl)) hFinish
  · next hShape =>
    exact fits_finished_test hGrown hReady hSafe hBelow
      (Label.shape_of_retainIf hShape rfl) hFinish
  · next hField hQualified hTest =>
    cases hFinish
    rw [View.ty, View.label, hTy]
    exact fits_untouched hBelow.length_eq
      (fun _ _ hShape => hField _ _ _ _
        (Label.shape_retainIf handed hShape rfl))
      (fun _ _ hShape => hQualified _ _ _ _
        (Label.shape_retainIf handed hShape rfl))
      (fun _ _ hShape => hTest _ _ _ _
        (Label.shape_retainIf handed hShape rfl))

end Finished

/- A view that is no simple name is no length. -/
private theorem isLength?_of_tag
    {view : View}
    (hTag : view.label.shape.tag ≠ .simpleName) :
    isLength? symbols view = some false := by
  unfold isLength?
  split
  · next hShape => simp [hShape, NodeKind.tag] at hTag
  · rfl

/- What becomes of a node is `length` if the node is. -/
private theorem isLength?_finish?
    {assigned handed : Bool}
    {label : Label}
    {children lowered : List View}
    {new : View}
    (hFinish : finish? later table options assigned
      (label.retainIf handed) lowered = some new) :
    isLength? later new =
      isLength? later (.node label children) := by
  by_cases hTag : label.shape.tag = .simpleName
  · have hKeeps : mayLower (label.retainIf handed).shape.tag =
        false := by
      rw [label.tag_retainIf handed, hTag]
      rfl
    have hCannot : label.shape.canRetain = false := by
      cases hShape : label.shape <;>
        first
        | rfl
        | simp [hShape, NodeKind.tag] at hTag
    rw [finish?_eq_node hKeeps] at hFinish
    cases hFinish
    unfold isLength?
    rw [View.label, View.label,
      label.shape_retainIf handed rfl hCannot]
  · have hNew : new.label.shape.tag ≠ .simpleName := by
      rcases (finishes_of_finish? hFinish).tag with
        rfl | hCall
      · rw [View.label, label.tag_retainIf handed]
        exact hTag
      · intro hIs
        rw [hIs] at hCall
        simp at hCall
    have hOld : (View.node label children).label.shape.tag ≠
        .simpleName := hTag
    rw [isLength?_of_tag hNew, isLength?_of_tag hOld]

/-
  What becomes of a node whose children are as they were told,
  in the symbols at the end, is as it was told in the symbols
  at the start.
-/
theorem retyped_of_finish?
    {assigned handed : Bool}
    {label : Label}
    {children lowered : List View}
    {new : View}
    (hGrown : symbols.Grown later)
    (hReady : later.Ready)
    (hSafe : View.Safe symbols.cache (.node label children))
    (hNone : stored? symbols label children = some none)
    (hBelow : List.Forall₂ (Retyped symbols later) children
      lowered)
    (hFinish : finish? later table options assigned
      (label.retainIf handed) lowered = some new) :
    Retyped symbols later (.node label children) new where
  fits := by
    rw [typing_of_none hNone]
    exact fits_finish? hGrown hReady
      (fun child hMem => hSafe.child hMem) hBelow hFinish
  length := by
    rw [← isLength?_eq hGrown hSafe]
    exact isLength?_finish? hFinish

/-
  The call for a store has the type that was told, and so has
  what becomes of the call.
-/
theorem Retyped.ofCall
    {label outer : Label}
    {operands arguments : List View}
    {value new : View}
    {callLabel : Label}
    {store : Store}
    (hStored : stored? symbols label
      [.node outer operands, value] = some (some store))
    (hTag : callLabel.shape.tag = .functionInvocation)
    (hTy : callLabel.ty = some store.component)
    (hCall : Retyped symbols later
      (.node callLabel arguments) new) :
    Retyped symbols later
      (.node label [.node outer operands, value]) new where
  fits := by
    have hFits := hCall.fits
    rw [typing_of_none (stored?_of_tag (by simp [hTag]) _),
      finishedTyping_eq (by simp [hTag]), hTy] at hFits
    rw [typing, hStored]
    exact hFits
  length := by
    rcases eq_of_stored? hStored with ⟨_, _, _, hShape, _⟩
    rw [hCall.length, isLength?_of_tag, isLength?_of_tag]
    · simp [View.label, hShape, NodeKind.tag]
    · simp [View.label, hTag]

theorem Typing.Fits.mono
    {latest : Symbols}
    {told : Typing}
    {ty : Option TypeId}
    (hGrown : later.Grown latest)
    (hFits : told.Fits later ty) :
    told.Fits latest ty := by
  cases hFits with
  | untyped => exact .untyped
  | known ty => exact .known ty
  | primitive hFound =>
      exact .primitive
        (stable_primitiveType? _ _ _ _ hGrown hFound)

theorem Retyped.mono
    {latest : Symbols}
    {old new : View}
    (hGrown : later.Grown latest)
    (hSafe : old.Safe symbols.cache)
    (hRetyped : Retyped symbols later old new) :
    Retyped symbols latest old new where
  fits := hRetyped.fits.mono hGrown
  length := by
    rw [← hRetyped.length]
    apply (stable_isLength? new).eq hGrown
    rw [hRetyped.length]
    exact isLength?_of_safe hSafe

end Typings

end Arrays

end Lowering
