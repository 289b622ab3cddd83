import Lowering.Proofs.Cache.Isolation.Wrap

/-
  This file proves that every operation on twins agrees, if
  what it is given is the same. The answers are then the same.

  Key definitions include:
    * `Cache.Twins.SameAnswer`
    * `Cache.Twins.SameOperation`

  Main results:
    * `Cache.Twins.agree_newTypeElement`
    * `Cache.Twins.agree_newParameter`
    * `Cache.Twins.agree_executableTypeOf`
    * `Cache.Twins.agree_answer`
-/

namespace Lowering

namespace Cache

namespace Twins

variable {twins : Twins}
variable {table : BindingTable}

------------------------------------------------------------
-- Generated Elements
------------------------------------------------------------

theorem agree_newTypeElement
    {enclosing enclosing' : Option ElementId}
    (hEnclosing :
      Option.Rel twins.SameElement enclosing enclosing')
    (text : String)
    (modifiers : Modifiers) :
    twins.Agree SameElement
      (newTypeElement text enclosing modifiers)
      (newTypeElement text enclosing' modifiers) := by
  unfold newTypeElement
  apply (agree_intern text).bind
  intro twins₁ name name' hOnward₁ hName
  apply Agree.get
  intro hParallel
  have hElement : twins₁.SameElement
      ⟨twins₁.used.elements.next⟩ ⟨twins₁.fresh.elements.next⟩ :=
    congrArg ElementId.mk hParallel.elements.next
  apply (agree_addType (.declared hName)
    (.generated hElement)).bind
  intro twins₂ ty ty' hOnward₂ hType
  exact agree_addElement {
    name := hName.mono hOnward₂
    kind := .type
    origin := rfl
    modifiers := rfl
    enclosing := rel_mono
      (SameElement.mono (hOnward₁.trans hOnward₂)) hEnclosing
    ty := .some hType
    annotations := .nil }

theorem agree_newField
    {ty ty' : TypeId}
    {declaring declaring' : ElementId}
    (hType : twins.SameType ty ty')
    (hDeclaring : twins.SameElement declaring declaring')
    (text : String)
    (modifiers : Modifiers) :
    twins.Agree SameElement
      (newField text ty declaring modifiers)
      (newField text ty' declaring' modifiers) := by
  unfold newField
  apply (agree_intern text).bind
  intro after name name' hOnward hName
  exact agree_addElement {
    name := hName
    kind := .variable true
    origin := rfl
    modifiers := rfl
    enclosing := .some (hDeclaring.mono hOnward)
    ty := .some (hType.mono hOnward)
    annotations := .nil }

theorem agree_newMethod
    {declaring declaring' : ElementId}
    {returnType returnType' : TypeId}
    (hDeclaring : twins.SameElement declaring declaring')
    (hReturn : twins.SameType returnType returnType')
    (selector : String)
    (modifiers : Modifiers) :
    twins.Agree SameElement
      (newMethod selector declaring returnType modifiers)
      (newMethod selector declaring' returnType' modifiers) := by
  unfold newMethod
  apply (agree_intern _).bind
  intro twins₁ name name' hOnward₁ hName
  apply (agree_intern selector).bind
  intro twins₂ full full' hOnward₂ hFull
  have hOnward := hOnward₁.trans hOnward₂
  exact agree_addElement {
    name := hName.mono hOnward₂
    kind := .executable (.some hFull) .nil (hReturn.mono hOnward)
    origin := rfl
    modifiers := rfl
    enclosing := .some (hDeclaring.mono hOnward)
    ty := .none
    annotations := .nil }

private theorem sameElementKind_addParameter
    {param param' : ElementId}
    {kind kind' : ElementKind}
    (hParam : twins.SameElement param param')
    (hKind : twins.SameElementKind kind kind') :
    twins.SameElementKind (kind.addParameter param)
      (kind'.addParameter param') := by
  cases hKind with
  | executable hSelector hParams hReturn =>
      exact .executable hSelector
        (List.rel_append hParams (.cons hParam .nil)) hReturn
  | type => exact .type
  | «variable» isField => exact .variable isField
  | package => exact .package
  | typeParameter => exact .typeParameter

theorem agree_newParameter
    {method method' : ElementId}
    {ty ty' : TypeId}
    (hMethod : twins.SameElement method method')
    (hType : twins.SameType ty ty')
    (text : String) :
    twins.Agree SameElement (newParameter method text ty)
      (newParameter method' text ty') := by
  unfold newParameter
  apply (agree_elementOf hMethod .executable).bind
  intro twins₁ _ _ hOnward₁ _
  apply (agree_intern text).bind
  intro twins₂ name name' hOnward₂ hName
  have hOnward := hOnward₁.trans hOnward₂
  have hParam : twins₂.SameElementData {
      name
      kind := .variable false
      origin := .generated
      enclosing := some method
      ty := some ty } {
      name := name'
      kind := .variable false
      origin := .generated
      enclosing := some method'
      ty := some ty' } := {
    name := hName
    kind := .variable false
    origin := rfl
    modifiers := rfl
    enclosing := .some (hMethod.mono hOnward)
    ty := .some (hType.mono hOnward)
    annotations := .nil }
  apply (agree_addElement hParam).bind
  intro twins₃ param param' hOnward₃ hParam
  have hMethod₃ := hMethod.mono (hOnward.trans hOnward₃)
  apply (agree_modifyElement hMethod₃ ?_).bind
  · intro twins₄ _ _ hOnward₄ _
    apply (agree_forgetExecutable (hMethod₃.mono hOnward₄)).bind
    intro twins₅ _ _ hOnward₅ _
    exact .pure (hParam.mono (hOnward₄.trans hOnward₅))
  · intro data data' hData
    exact { hData with
      kind := sameElementKind_addParameter hParam hData.kind }

------------------------------------------------------------
-- Executable Types
------------------------------------------------------------

private theorem agree_parameterType
    {param param' : ElementId}
    (hParam : twins.SameElement param param') :
    twins.Agree SameType (parameterType param)
      (parameterType param') := by
  unfold parameterType
  apply (agree_element hParam).bind
  intro after data data' _ hData hParallel
  apply Agree.pure ?_ hParallel
  have hType := hData.ty
  generalize data.ty = ty at hType
  generalize data'.ty = ty' at hType
  cases hType with
  | some hType => exact hType
  | none => exact sameType_noType hParallel

theorem agree_executableTypeOf
    {method method' : ElementId}
    (hMethod : twins.SameElement method method') :
    twins.Agree SameType (executableTypeOf method)
      (executableTypeOf method') := by
  unfold executableTypeOf
  apply (agree_elementOf hMethod .executable).bind
  rintro twins₁ ⟨name, kind, origin, modifiers, enclosing, ty,
    annotations⟩ ⟨name', kind', origin', modifiers', enclosing',
    ty', annotations'⟩ hOnward hData
  have hKind := hData.kind
  have hType := hData.ty
  simp only at hKind hType
  cases hType with
  | some hType => cases hKind <;> exact .pure hType
  | none =>
      have hWrong : twins₁.Agree SameType
          (do throw ((← MonadState.get).wrongElementKind
            ⟨name, kind, origin, modifiers, enclosing, none,
              annotations⟩ .executable))
          (do throw ((← MonadState.get).wrongElementKind
            ⟨name', kind', origin', modifiers', enclosing', none,
              annotations'⟩ .executable)) :=
        .get fun _ => .throw
          (sameError_wrongElementKind hData .executable)
      cases hKind with
      | @executable _ _ params params' returnType returnType'
          hSelector hParams hReturn =>
          apply Agree.get
          intro hParallel
          have hOwner := hMethod.mono hOnward
          have hFound := hParallel.lookup hOwner
          generalize List.lookup method twins₁.used.executables =
            found at hFound ⊢
          generalize List.lookup method'
            twins₁.fresh.executables = found' at hFound ⊢
          cases hFound with
          | some hType => exact .pure hType
          | none =>
              apply (Agree.mapM SameElement.mono SameType.mono
                (fun _ _ _ => agree_parameterType) hParams).bind
              intro twins₂ types types' hOnward₂ hTypes
              have hOwner₂ := hOwner.mono hOnward₂
              apply (agree_addType
                (.executable hTypes (hReturn.mono hOnward₂))
                (.generated hOwner₂)).bind
              intro twins₃ ty ty' hOnward₃ hType
              apply (agree_rememberExecutable
                (hOwner₂.mono hOnward₃) hType).bind
              intro twins₄ _ _ hOnward₄ _
              exact .pure (hType.mono hOnward₄)
      | _ => exact hWrong

------------------------------------------------------------
-- Operations
------------------------------------------------------------

section Same

variable (twins : Twins)

/- Answers are the same up to the offset and by text. -/
inductive SameAnswer : Answer → Answer → Prop
  | name
      {name name' : Name}
      (sameName : twins.SameName name name') :
      SameAnswer (.name name) (.name name')
  | type
      {ty ty' : TypeId}
      (sameType : twins.SameType ty ty') :
      SameAnswer (.type ty) (.type ty')
  | element
      {id id' : ElementId}
      (sameElement : twins.SameElement id id') :
      SameAnswer (.element id) (.element id')
  | binding
      {binding binding' : Option Binding}
      (sameBinding :
        Option.Rel twins.SameBinding binding binding') :
      SameAnswer (.binding binding) (.binding binding')
  | bindings
      {bindings bindings' : List Binding}
      (sameBindings :
        List.Forall₂ twins.SameBinding bindings bindings') :
      SameAnswer (.bindings bindings) (.bindings bindings')
  | typeData
      {data data' : TypeData}
      (sameData : twins.SameTypeData data data') :
      SameAnswer (.typeData data) (.typeData data')
  | elementData
      {data data' : ElementData}
      (sameData : twins.SameElementData data data') :
      SameAnswer (.elementData data) (.elementData data')
  | component
      {ty ty' : Option TypeId}
      (sameType : Option.Rel twins.SameType ty ty') :
      SameAnswer (.component ty) (.component ty')
  | primitive (kind : Option PrimitiveKind) :
      SameAnswer (.primitive kind) (.primitive kind)
  | flag (holds : Bool) :
      SameAnswer (.flag holds) (.flag holds)
  | text (text : String) : SameAnswer (.text text) (.text text)
  | count (number : Nat) :
      SameAnswer (.count number) (.count number)

/- Operations are the same if they are given the same. -/
inductive SameOperation : Operation → Operation → Prop
  | intern (text : Option String) :
      SameOperation (.intern text) (.intern text)
  | wrapType
      {binding binding' : Binding}
      (sameBinding : twins.SameBinding binding binding') :
      SameOperation (.wrapType binding) (.wrapType binding')
  | wrapExecutable (id : BindingId) :
      SameOperation (.wrapExecutable id) (.wrapExecutable id)
  | wrapElement
      {binding binding' : Binding}
      (sameBinding : twins.SameBinding binding binding') :
      SameOperation (.wrapElement binding)
        (.wrapElement binding')
  | wrapElementOf
      {binding binding' : Binding}
      (family : ElementFamily)
      (sameBinding : twins.SameBinding binding binding') :
      SameOperation (.wrapElementOf family binding)
        (.wrapElementOf family binding')
  | wrapPackageDeclaration
      (id : BindingId)
      (annotations : List BindingId) :
      SameOperation (.wrapPackageDeclaration id annotations)
        (.wrapPackageDeclaration id annotations)
  | packageElement
      {name name' : Name}
      (sameName : twins.SameName name name') :
      SameOperation (.packageElement name)
        (.packageElement name')
  | nativeType (text : String) :
      SameOperation (.nativeType text) (.nativeType text)
  | pointerType
      {pointee pointee' : TypeId}
      (samePointee : twins.SameType pointee pointee') :
      SameOperation (.pointerType pointee)
        (.pointerType pointee')
  | syntheticArrayType
      {component component' : TypeId}
      (sameComponent : twins.SameType component component') :
      SameOperation (.syntheticArrayType component)
        (.syntheticArrayType component')
  | primitiveType (kind : PrimitiveKind) :
      SameOperation (.primitiveType kind) (.primitiveType kind)
  | newTypeElement
      {enclosing enclosing' : Option ElementId}
      (text : String)
      (sameEnclosing :
        Option.Rel twins.SameElement enclosing enclosing')
      (modifiers : Modifiers) :
      SameOperation (.newTypeElement text enclosing modifiers)
        (.newTypeElement text enclosing' modifiers)
  | newField
      {ty ty' : TypeId}
      {declaring declaring' : ElementId}
      (text : String)
      (sameType : twins.SameType ty ty')
      (sameDeclaring : twins.SameElement declaring declaring')
      (modifiers : Modifiers) :
      SameOperation (.newField text ty declaring modifiers)
        (.newField text ty' declaring' modifiers)
  | newMethod
      {declaring declaring' : ElementId}
      {returnType returnType' : TypeId}
      (selector : String)
      (sameDeclaring : twins.SameElement declaring declaring')
      (sameReturn : twins.SameType returnType returnType')
      (modifiers : Modifiers) :
      SameOperation
        (.newMethod selector declaring returnType modifiers)
        (.newMethod selector declaring' returnType' modifiers)
  | newParameter
      {method method' : ElementId}
      {ty ty' : TypeId}
      (sameMethod : twins.SameElement method method')
      (text : String)
      (sameType : twins.SameType ty ty') :
      SameOperation (.newParameter method text ty)
        (.newParameter method' text ty')
  | executableTypeOf
      {method method' : ElementId}
      (sameMethod : twins.SameElement method method') :
      SameOperation (.executableTypeOf method)
        (.executableTypeOf method')

end Same

/- The same operation is answered the same by twins. -/
theorem agree_answer
    {operation operation' : Operation}
    (hSame : twins.SameOperation operation operation') :
    twins.Agree SameAnswer (operation.answer table)
      (operation'.answer table) := by
  have hType : ∀ {run run' : CacheM TypeId},
      twins.Agree SameType run run' →
        twins.Agree SameAnswer (.type <$> run)
          (.type <$> run') :=
    fun hRun => hRun.map fun _ _ _ => .type
  have hElement : ∀ {run run' : CacheM ElementId},
      twins.Agree SameElement run run' →
        twins.Agree SameAnswer (.element <$> run)
          (.element <$> run') :=
    fun hRun => hRun.map fun _ _ _ => .element
  cases hSame with
  | intern text =>
      have hName : twins.Agree SameName
          (Cache.internOptional text)
          (Cache.internOptional text) := by
        cases text with
        | none => exact .refuse (.same _)
        | some text => exact agree_intern text
      exact hName.map fun _ _ _ => .name
  | wrapType hBinding => exact hType (agree_wrapType hBinding)
  | wrapExecutable id => exact hType (agree_wrapExecutable id)
  | wrapElement hBinding =>
      exact hElement (agree_wrapElement hBinding)
  | wrapElementOf family hBinding =>
      exact hElement (agree_wrapElementOf hBinding family)
  | wrapPackageDeclaration id annotations =>
      exact hElement
        (agree_wrapPackageDeclaration id annotations)
  | packageElement hName =>
      exact hElement (agree_packageElement hName)
  | nativeType text => exact hType (agree_nativeType text)
  | pointerType hPointee =>
      exact hType (agree_pointerType hPointee)
  | syntheticArrayType hComponent =>
      exact hType (agree_synthesize (.array hComponent))
  | primitiveType kind =>
      exact hType (agree_wrapHostType _).fatal
  | newTypeElement text hEnclosing modifiers =>
      exact hElement
        (agree_newTypeElement hEnclosing text modifiers)
  | newField text hTy hDeclaring modifiers =>
      exact hElement
        (agree_newField hTy hDeclaring text modifiers)
  | newMethod selector hDeclaring hReturn modifiers =>
      exact hElement
        (agree_newMethod hDeclaring hReturn selector modifiers)
  | newParameter hMethod text hTy =>
      exact hElement (agree_newParameter hMethod hTy text)
  | executableTypeOf hMethod =>
      exact hType (agree_executableTypeOf hMethod)

end Twins

end Cache

end Lowering
