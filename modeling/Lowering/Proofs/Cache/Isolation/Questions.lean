import Lowering.Proofs.Cache.Isolation.Operations

/-
  This file proves that twins answer every question alike, and
  so every request.

  A type is read to a depth that is given by the number of
  live types, of which twins have the same.

  Key definitions include:
    * `Cache.Twins.SameQuestion`
    * `Cache.Twins.SameRequest`

  Main results:
    * `Cache.Twins.asked_display`
    * `Cache.Twins.asked_bindingOfType`
    * `Cache.Twins.asked_answer`
    * `Cache.Twins.agree_ask`
-/

namespace Lowering

namespace Cache

namespace Twins

variable {twins : Twins}
variable {table : BindingTable}

------------------------------------------------------------
-- Questions In Parts
------------------------------------------------------------

namespace Asked

variable {α α' β β' : Type}
variable {Same : α → α' → Prop}
variable {Same' : β → β' → Prop}

theorem bind
    {first : Except CacheError α}
    {first' : Except CacheError α'}
    {next : α → Except CacheError β}
    {next' : α' → Except CacheError β'}
    (hFirst : Asked twins Same first first')
    (hNext : ∀ answer answer', Same answer answer' →
      Asked twins Same' (next answer) (next' answer')) :
    Asked twins Same' (first >>= next) (first' >>= next') := by
  cases hFirst with
  | ok hSame => exact hNext _ _ hSame
  | error hSame => exact .error hSame

theorem map
    {question : Except CacheError α}
    {question' : Except CacheError α'}
    {change : α → β}
    {change' : α' → β'}
    (hAsked : Asked twins Same question question')
    (hSame : ∀ answer answer', Same answer answer' →
      Same' (change answer) (change' answer')) :
    Asked twins Same' (change <$> question)
      (change' <$> question') := by
  cases hAsked with
  | ok hAnswer => exact .ok (hSame _ _ hAnswer)
  | error hError => exact .error hError

theorem mapM
    {question : α → Except CacheError β}
    {question' : α' → Except CacheError β'}
    (hEach : ∀ item item', Same item item' →
      Asked twins Same' (question item) (question' item'))
    {items : List α}
    {items' : List α'}
    (hItems : List.Forall₂ Same items items') :
    Asked twins (List.Forall₂ Same') (items.mapM question)
      (items'.mapM question') := by
  induction hItems with
  | nil =>
      rw [List.mapM_nil, List.mapM_nil]
      exact .ok .nil
  | cons hFirst _ ih =>
      rw [List.mapM_cons, List.mapM_cons]
      apply (hEach _ _ hFirst).bind
      intro answer answer' hAnswer
      apply ih.bind
      intro answers answers' hAnswers
      exact .ok (.cons hAnswer hAnswers)

theorem fatal
    {question : Except CacheError α}
    {question' : Except CacheError α'}
    (hAsked : Asked twins Same question question') :
    Asked twins Same (question.mapError CacheError.fatal)
      (question'.mapError CacheError.fatal) := by
  cases hAsked with
  | ok hSame => exact .ok hSame
  | error hSame => exact .error hSame.fatal

end Asked

------------------------------------------------------------
-- Questions About Types
------------------------------------------------------------

theorem asked_typeData
    (hParallel : twins.Parallel)
    {ty ty' : TypeId}
    (hType : twins.SameType ty ty') :
    Asked twins twins.SameTypeData (twins.used.typeData ty)
      (twins.fresh.typeData ty') := by
  rcases hParallel.type? hType with
    ⟨data, data', hUsed, hFresh, hData⟩
  rw [typeData_eq_ok_iff.mpr hUsed, typeData_eq_ok_iff.mpr hFresh]
  exact .ok hData

/- Twins have the same number of wrappers. -/
private theorem Parallel.typeCount
    (hParallel : twins.Parallel) :
    twins.used.typeCount = twins.fresh.typeCount := by
  have hBase := hParallel.types.base
  have hNext := hParallel.types.next
  unfold Generation.next at hNext
  unfold Cache.typeCount Generation.size
  omega

private theorem Parallel.elementCount
    (hParallel : twins.Parallel) :
    twins.used.elementCount = twins.fresh.elementCount := by
  have hBase := hParallel.elements.base
  have hNext := hParallel.elements.next
  unfold Generation.next at hNext
  unfold Cache.elementCount Generation.size
  omega

/- The same type is written in the same way. -/
private theorem asked_displayWithin
    (hParallel : twins.Parallel)
    (depth : Nat)
    {ty ty' : TypeId}
    (hType : twins.SameType ty ty') :
    Asked twins Eq (twins.used.displayWithin depth ty)
      (twins.fresh.displayWithin depth ty') := by
  induction depth generalizing ty ty' with
  | zero => exact .error .endless
  | succ depth ih =>
      rcases hParallel.type? hType with
        ⟨data, data', hUsed, hFresh, hData⟩
      have hAll : ∀ {types types' : List TypeId},
          List.Forall₂ twins.SameType types types' →
            Asked twins Eq
              (types.mapM (twins.used.displayWithin depth))
              (types'.mapM
                (twins.fresh.displayWithin depth)) := by
        intro types types' hTypes
        have hTexts := Asked.mapM (fun _ _ hSame => ih hSame)
          hTypes
        rw [List.forall₂_eq_eq_eq] at hTexts
        exact hTexts
      unfold displayWithin
      simp only [hUsed, hFresh]
      have hKind := hData.kind
      generalize data.kind = kind at hKind ⊢
      generalize data'.kind = kind' at hKind ⊢
      cases hKind with
      | array hComponent =>
          apply (ih hComponent).bind
          rintro text _ rfl
          exact .ok rfl
      | declared hName => exact asked_nameText hName
      | primitive kind => exact .ok rfl
      | typeVariable hName => exact asked_nameText hName
      | wildcard hBound =>
          cases hBound with
          | none => exact .ok rfl
          | some hBound =>
              apply (ih hBound).bind
              rintro text _ rfl
              exact .ok rfl
      | intersection hBounds =>
          apply (hAll hBounds).bind
          rintro texts _ rfl
          exact .ok rfl
      | executable hParams hReturn =>
          apply (hAll hParams).bind
          rintro texts _ rfl
          apply (ih hReturn).bind
          rintro text _ rfl
          exact .ok rfl
      | native hName => exact asked_nameText hName
      | pointer hPointee =>
          apply (ih hPointee).bind
          rintro text _ rfl
          exact .ok rfl
      | noType => exact .ok rfl
      | nullType => exact .ok rfl

theorem asked_display
    (hParallel : twins.Parallel)
    {ty ty' : TypeId}
    (hType : twins.SameType ty ty') :
    Asked twins Eq (twins.used.display ty)
      (twins.fresh.display ty') := by
  have hSize : twins.used.types.size = twins.fresh.types.size :=
    hParallel.typeCount
  unfold Cache.display
  rw [hSize]
  exact asked_displayWithin hParallel _ hType

/- What is read off the kind of the same type is the same. -/
private theorem asked_kind
    {α : Type}
    {Same : α → α → Prop}
    {read : TypeKind → α}
    (hParallel : twins.Parallel)
    (hRead : ∀ {kind kind' : TypeKind},
      twins.SameKind kind kind' → Same (read kind) (read kind'))
    {ty ty' : TypeId}
    (hType : twins.SameType ty ty') :
    Asked twins Same
      (do return read (← twins.used.typeData ty).kind)
      (do return read (← twins.fresh.typeData ty').kind) := by
  apply (asked_typeData hParallel hType).bind
  intro data data' hData
  exact .ok (hRead hData.kind)

theorem asked_categoryName
    (hParallel : twins.Parallel)
    {ty ty' : TypeId}
    (hType : twins.SameType ty ty') :
    Asked twins Eq (twins.used.categoryName ty)
      (twins.fresh.categoryName ty') := by
  have hKind : Asked twins Eq (twins.used.primitiveKind ty)
      (twins.fresh.primitiveKind ty') :=
    asked_kind hParallel SameKind.primitive? hType
  apply hKind.fatal.bind
  rintro kind _ rfl
  cases kind with
  | some kind => exact .ok rfl
  | none =>
      apply (asked_display hParallel hType).bind
      rintro name _ rfl
      exact .error (.violation (.same _))

------------------------------------------------------------
-- Bindings Behind Types
------------------------------------------------------------

private theorem standsForType_eq
    (table : BindingTable)
    {binding binding' : Binding}
    (hSame : twins.SameBinding binding binding') :
    standsForType table binding =
      standsForType table binding' := by
  cases hSame <;> rfl

private theorem sameBinding_filter
    (table : BindingTable)
    {binding binding' : Option Binding}
    (hSame : Option.Rel twins.SameBinding binding binding') :
    Option.Rel twins.SameBinding
      (binding.filter (standsForType table))
      (binding'.filter (standsForType table)) := by
  cases hSame with
  | none => exact .none
  | some hBinding =>
      simp only [Option.filter_some, standsForType_eq table hBinding]
      split
      · exact .some hBinding
      · exact .none

private theorem asked_owner
    (hParallel : twins.Parallel)
    {element element' : ElementId}
    (hElement : twins.SameElement element element')
    (family : MemberFamily) :
    Asked twins (Option.Rel twins.SameBinding)
      (do
        let owner ← twins.used.element element
        return some (.generated ⟨element, family, owner.name⟩))
      (do
        let owner ← twins.fresh.element element'
        return some
          (.generated ⟨element', family, owner.name⟩)) := by
  apply (asked_element hParallel hElement).bind
  intro data data' hData
  exact .ok (.some (.generated hElement family hData.name))

private theorem asked_bindingOfTypeWithin
    (hParallel : twins.Parallel)
    (depth : Nat)
    {ty ty' : TypeId}
    (hType : twins.SameType ty ty') :
    Asked twins (Option.Rel twins.SameBinding)
      (twins.used.bindingOfTypeWithin table depth ty)
      (twins.fresh.bindingOfTypeWithin table depth ty') := by
  induction depth generalizing ty ty' with
  | zero => exact .error .endless
  | succ depth ih =>
      unfold bindingOfTypeWithin
      apply (asked_typeData hParallel hType).bind
      rintro ⟨kind, origin⟩ ⟨kind', origin'⟩ ⟨hKind, hOrigin⟩
      simp only at hKind hOrigin
      cases hKind with
      | native hName => exact .ok (.some (.nativeType hName))
      | pointer hPointee =>
          apply (ih hPointee).bind
          intro target target' hTarget
          have hBound := sameBinding_filter table hTarget
          generalize target.filter _ = bound at hBound
          generalize target'.filter _ = bound' at hBound
          cases hBound with
          | some hBinding => exact .ok (.some (.pointer hBinding))
          | none => exact .ok (.some .pointerToUnbound)
      | executable hParams hReturn =>
          cases hOrigin with
          | host id => exact .ok (.some (.host id))
          | generated hMethod =>
              exact asked_owner hParallel hMethod .method
          | synthetic => exact .ok .none
      | noType =>
          cases hOrigin with
          | host id => exact .ok (.some (.host id))
          | generated hElement =>
              exact asked_owner hParallel hElement .type
          | synthetic => exact .ok (.some (.host _))
      | array hComponent =>
          cases hOrigin with
          | host id => exact .ok (.some (.host id))
          | generated hElement =>
              exact asked_owner hParallel hElement .type
          | synthetic =>
              apply (ih hComponent).bind
              intro found found' hFound
              have hBound := sameBinding_filter table hFound
              generalize found.filter _ = bound at hBound
              generalize found'.filter _ = bound' at hBound
              cases hBound with
              | none => exact .ok .none
              | some hBinding =>
                  cases hBinding with
                  | host id =>
                      simp only []
                      cases table.findArrayOf? id with
                      | none => exact .ok .none
                      | some array => exact .ok (.some (.host array))
                  | _ => exact .ok .none
      | _ =>
          cases hOrigin with
          | host id => exact .ok (.some (.host id))
          | generated hElement =>
              exact asked_owner hParallel hElement .type
          | synthetic => exact .ok .none

theorem asked_bindingOfType
    (hParallel : twins.Parallel)
    {ty ty' : TypeId}
    (hType : twins.SameType ty ty') :
    Asked twins (Option.Rel twins.SameBinding)
      (twins.used.bindingOfType table ty)
      (twins.fresh.bindingOfType table ty') := by
  have hSize : twins.used.types.size = twins.fresh.types.size :=
    hParallel.typeCount
  unfold bindingOfType
  rw [hSize]
  exact asked_bindingOfTypeWithin hParallel _ hType

private theorem asked_typeBindingOfType
    (hParallel : twins.Parallel)
    {ty ty' : TypeId}
    (hType : twins.SameType ty ty') :
    Asked twins (Option.Rel twins.SameBinding)
      (twins.used.typeBindingOfType table ty)
      (twins.fresh.typeBindingOfType table ty') := by
  apply (asked_bindingOfType hParallel hType).bind
  intro binding binding' hBinding
  exact .ok (sameBinding_filter table hBinding)

------------------------------------------------------------
-- Bindings Behind Elements
------------------------------------------------------------

private theorem sameBinding_generatedBinding
    {element element' : ElementId}
    {data data' : ElementData}
    (hElement : twins.SameElement element element')
    (hData : twins.SameElementData data data') :
    twins.SameBinding
      (generatedBinding element data.name data.kind)
      (generatedBinding element' data'.name data'.kind) := by
  have hKind := hData.kind
  generalize data.kind = kind at hKind
  generalize data'.kind = kind' at hKind
  cases hKind with
  | type => exact .generated hElement .type hData.name
  | executable _ _ _ => exact .generated hElement .method hData.name
  | «variable» isField =>
      exact .generated hElement .variable hData.name
  | package => exact .generatedPackage hData.name
  | typeParameter => exact .generated hElement .type hData.name

theorem asked_unwrap
    (hParallel : twins.Parallel)
    {id id' : ElementId}
    (hElement : twins.SameElement id id') :
    Asked twins twins.SameBinding (twins.used.unwrap id)
      (twins.fresh.unwrap id') := by
  unfold unwrap
  apply (asked_element hParallel hElement).bind
  intro data data' hData
  rw [hData.origin]
  cases data'.origin with
  | host id => exact .ok (.host id)
  | generated =>
      exact .ok (sameBinding_generatedBinding hElement hData)

private theorem asked_unwrapOf
    (hParallel : twins.Parallel)
    {id id' : ElementId}
    (hElement : twins.SameElement id id')
    (family : ElementFamily) :
    Asked twins twins.SameBinding
      (twins.used.unwrapOf family id)
      (twins.fresh.unwrapOf family id') := by
  apply (asked_elementOf hParallel hElement family).bind
  intro _ _ _
  exact asked_unwrap hParallel hElement

private theorem asked_elementName
    (hParallel : twins.Parallel)
    {id id' : ElementId}
    (hElement : twins.SameElement id id') :
    Asked twins Eq (twins.used.elementName id)
      (twins.fresh.elementName id') := by
  apply (asked_element hParallel hElement).bind
  intro data data' hData
  exact asked_nameText hData.name

private theorem asked_unwrapAnnotations
    (hParallel : twins.Parallel)
    {id id' : ElementId}
    (hElement : twins.SameElement id id') :
    Asked twins (List.Forall₂ twins.SameBinding)
      (twins.used.unwrapAnnotations id)
      (twins.fresh.unwrapAnnotations id') := by
  unfold unwrapAnnotations
  apply (asked_element hParallel hElement).bind
  intro data data' hData
  apply Asked.ok
  rw [List.forall₂_map_left_iff, List.forall₂_map_right_iff]
  apply hData.annotations.imp
  intro use use' hUse
  rw [hUse.binding]
  exact .host _

------------------------------------------------------------
-- Requests
------------------------------------------------------------

section Same

variable (twins : Twins)

/- Questions are the same if they are about the same. -/
inductive SameQuestion : Question → Question → Prop
  | nameText
      {name name' : Name}
      (sameName : twins.SameName name name') :
      SameQuestion (.nameText name) (.nameText name')
  | typeData
      {ty ty' : TypeId}
      (sameType : twins.SameType ty ty') :
      SameQuestion (.typeData ty) (.typeData ty')
  | componentType
      {ty ty' : TypeId}
      (sameType : twins.SameType ty ty') :
      SameQuestion (.componentType ty) (.componentType ty')
  | primitiveKind
      {ty ty' : TypeId}
      (sameType : twins.SameType ty ty') :
      SameQuestion (.primitiveKind ty) (.primitiveKind ty')
  | isArray
      {ty ty' : TypeId}
      (sameType : twins.SameType ty ty') :
      SameQuestion (.isArray ty) (.isArray ty')
  | isPrimitive
      {ty ty' : TypeId}
      (sameType : twins.SameType ty ty') :
      SameQuestion (.isPrimitive ty) (.isPrimitive ty')
  | categoryName
      {ty ty' : TypeId}
      (sameType : twins.SameType ty ty') :
      SameQuestion (.categoryName ty) (.categoryName ty')
  | display
      {ty ty' : TypeId}
      (sameType : twins.SameType ty ty') :
      SameQuestion (.display ty) (.display ty')
  | bindingOfType
      {ty ty' : TypeId}
      (sameType : twins.SameType ty ty') :
      SameQuestion (.bindingOfType ty) (.bindingOfType ty')
  | typeBindingOfType
      {ty ty' : TypeId}
      (sameType : twins.SameType ty ty') :
      SameQuestion (.typeBindingOfType ty)
        (.typeBindingOfType ty')
  | typeCount : SameQuestion .typeCount .typeCount
  | element
      {id id' : ElementId}
      (sameElement : twins.SameElement id id') :
      SameQuestion (.element id) (.element id')
  | elementName
      {id id' : ElementId}
      (sameElement : twins.SameElement id id') :
      SameQuestion (.elementName id) (.elementName id')
  | unwrap
      {id id' : ElementId}
      (sameElement : twins.SameElement id id') :
      SameQuestion (.unwrap id) (.unwrap id')
  | unwrapOf
      {id id' : ElementId}
      (family : ElementFamily)
      (sameElement : twins.SameElement id id') :
      SameQuestion (.unwrapOf family id) (.unwrapOf family id')
  | unwrapAnnotations
      {id id' : ElementId}
      (sameElement : twins.SameElement id id') :
      SameQuestion (.unwrapAnnotations id)
        (.unwrapAnnotations id')
  | elementCount : SameQuestion .elementCount .elementCount

inductive SameRequest : Request → Request → Prop
  | operation
      {operation operation' : Operation}
      (same : twins.SameOperation operation operation') :
      SameRequest (.operation operation) (.operation operation')
  | question
      {question question' : Question}
      (same : twins.SameQuestion question question') :
      SameRequest (.question question) (.question question')

end Same

/- The same question is answered the same by twins. -/
theorem asked_answer
    (hParallel : twins.Parallel)
    {question question' : Question}
    (hSame : twins.SameQuestion question question') :
    Asked twins twins.SameAnswer
      (question.answer table twins.used)
      (question'.answer table twins.fresh) := by
  have hEqual : ∀ {α : Type} {asked asked' : Except CacheError α}
      {build : α → Answer},
      (∀ answer, twins.SameAnswer (build answer)
        (build answer)) →
        Asked twins Eq asked asked' →
          Asked twins twins.SameAnswer (build <$> asked)
            (build <$> asked') := by
    intro α asked asked' build hBuild hAsked
    apply hAsked.map
    rintro answer _ rfl
    exact hBuild answer
  cases hSame with
  | nameText hName => exact hEqual .text (asked_nameText hName)
  | typeData hType =>
      exact (asked_typeData hParallel hType).map
        fun _ _ => .typeData
  | componentType hType =>
      exact (asked_kind hParallel SameKind.component? hType).map
        fun _ _ => .component
  | primitiveKind hType =>
      exact hEqual .primitive
        (asked_kind hParallel SameKind.primitive? hType)
  | isArray hType =>
      exact hEqual .flag (asked_kind hParallel SameKind.isArray hType)
  | isPrimitive hType =>
      exact hEqual .flag
        (asked_kind hParallel SameKind.isPrimitive hType)
  | categoryName hType =>
      exact hEqual .text (asked_categoryName hParallel hType)
  | display hType =>
      exact hEqual .text (asked_display hParallel hType)
  | bindingOfType hType =>
      exact (asked_bindingOfType hParallel hType).map
        fun _ _ => .binding
  | typeBindingOfType hType =>
      exact (asked_typeBindingOfType hParallel hType).map
        fun _ _ => .binding
  | typeCount =>
      unfold Question.answer
      rw [hParallel.typeCount]
      exact .ok (.count _)
  | element hElement =>
      exact (asked_element hParallel hElement).map
        fun _ _ => .elementData
  | elementName hElement =>
      exact hEqual .text (asked_elementName hParallel hElement)
  | unwrap hElement =>
      exact (asked_unwrap hParallel hElement).map
        fun _ _ hBinding => .binding (.some hBinding)
  | unwrapOf family hElement =>
      exact (asked_unwrapOf hParallel hElement family).map
        fun _ _ hBinding => .binding (.some hBinding)
  | unwrapAnnotations hElement =>
      exact (asked_unwrapAnnotations hParallel hElement).map
        fun _ _ => .bindings
  | elementCount =>
      unfold Question.answer
      rw [hParallel.elementCount]
      exact .ok (.count _)

/- The same request is answered the same by twins. -/
theorem agree_ask
    {request request' : Request}
    (hSame : twins.SameRequest request request') :
    twins.Agree SameAnswer (request.ask table)
      (request'.ask table) := by
  cases hSame with
  | operation hOperation => exact agree_answer hOperation
  | question hQuestion =>
      exact .inspect fun hParallel =>
        asked_answer hParallel hQuestion

end Twins

end Cache

end Lowering
