import Lowering.Proofs.Cache.Isolation.Agree

/-
  This file proves that wrapping agrees on twins, if what is
  wrapped is the same.

  Nothing is assumed of the bindings of the table: where they
  lead back to themselves, both runs end for the same want of
  depth.

  Main results:
    * `Cache.Twins.agree_wrapHostType`
    * `Cache.Twins.agree_wrapHostElement`
    * `Cache.Twins.agree_wrapType`
    * `Cache.Twins.agree_wrapElement`
    * `Cache.Twins.agree_wrapPackageDeclaration`
-/

namespace Lowering

namespace Cache

namespace Twins

variable {twins : Twins}
variable {table : BindingTable}

------------------------------------------------------------
-- Type Bindings
------------------------------------------------------------

private theorem agree_kindOfType
    {wrap : BindingId → CacheM TypeId}
    (hWrap : ∀ (twins : Twins) part,
      twins.Agree SameType (wrap part) (wrap part))
    (id : BindingId)
    (binding : TypeBinding) :
    twins.Agree SameKind (kindOfType table wrap id binding)
      (kindOfType table wrap id binding) := by
  rw [kindOfType_eq]
  cases binding.form with
  | array =>
      cases binding.component with
      | none => exact .refuse (.same _)
      | some component =>
          exact (hWrap twins component).map fun _ _ _ => .array
  | intersection =>
      exact (Agree.mapM_self SameType.mono hWrap _).map
        fun _ _ _ => .intersection
  | native => exact (agree_intern _).map fun _ _ _ => .native
  | void => exact .pure .noType
  | primitive =>
      simp only []
      cases PrimitiveKind.ofBinaryName? binding.binaryName with
      | none => exact .refuse (.same _)
      | some kind => exact .pure (.primitive kind)
  | typeVariable =>
      exact (agree_intern _).map fun _ _ _ => .typeVariable
  | wildcard =>
      exact (Agree.optionMapM (hWrap twins) _).map
        fun _ _ _ => .wildcard
  | declared =>
      exact (agree_intern _).map fun _ _ _ => .declared

private theorem agree_wrapHostTypeWithin
    (depth : Nat)
    (id : BindingId) :
    twins.Agree SameType (wrapHostTypeWithin table depth id)
      (wrapHostTypeWithin table depth id) := by
  induction depth generalizing twins id with
  | zero => exact .throw .endless
  | succ depth ih =>
      unfold wrapHostTypeWithin
      apply Agree.get
      intro hParallel
      have hFound := hParallel.typeOf? id
      generalize twins.used.typeOf? id = found at hFound
      generalize twins.fresh.typeOf? id = found' at hFound
      cases hFound with
      | some hType => exact .pure hType
      | none =>
          apply (Agree.consult (table.typeBinding id)).bind
          rintro middle binding _ _ rfl
          apply (agree_kindOfType (fun _ => ih) id binding).bind
          intro after kind kind' _ hKind
          exact agree_addType hKind (.host id)

theorem agree_wrapHostType (id : BindingId) :
    twins.Agree SameType (wrapHostType table id)
      (wrapHostType table id) :=
  agree_wrapHostTypeWithin _ id

------------------------------------------------------------
-- Method Bindings
------------------------------------------------------------

/- The two fixed types are below every handle given out. -/
private theorem Parallel.two_le_next
    (hParallel : twins.Parallel) :
    2 ≤ twins.fresh.types.next := by
  have hBase := hParallel.base
  unfold Generation.next
  omega

theorem sameType_noType
    (hParallel : twins.Parallel) :
    twins.SameType noType noType :=
  ⟨rfl, Nat.lt_of_lt_of_le (by decide) hParallel.two_le_next⟩

theorem sameType_nullType
    (hParallel : twins.Parallel) :
    twins.SameType nullType nullType :=
  ⟨rfl, Nat.lt_of_lt_of_le (by decide) hParallel.two_le_next⟩

private theorem agree_wrapReturnType (binding : MethodBinding) :
    twins.Agree SameType (wrapReturnType table binding)
      (wrapReturnType table binding) := by
  unfold wrapReturnType
  cases binding.returnType with
  | none =>
      intro hParallel
      exact Agree.pure (sameType_noType hParallel) hParallel
  | some id => exact agree_wrapHostType id

theorem agree_wrapExecutable (id : BindingId) :
    twins.Agree SameType (wrapExecutable table id)
      (wrapExecutable table id) := by
  unfold wrapExecutable
  apply Agree.get
  intro hParallel
  have hFound := hParallel.executableOf? id
  generalize twins.used.executableOf? id = found at hFound
  generalize twins.fresh.executableOf? id = found' at hFound
  cases hFound with
  | some hType => exact .pure hType
  | none =>
      apply (Agree.consult (table.methodBinding id)).bind
      rintro middle binding _ _ rfl
      apply (Agree.mapM_self SameType.mono
        (fun _ => agree_wrapHostType) _).bind
      intro after params params' _ hParams
      apply (agree_wrapReturnType binding).bind
      intro last returnType returnType' hOnward hReturn
      apply agree_addType ?_ (.host id)
      exact .executable
        (hParams.imp fun _ _ => SameType.mono hOnward) hReturn

------------------------------------------------------------
-- Synthetic Types
------------------------------------------------------------

theorem agree_synthesize
    {kind kind' : TypeKind}
    (hKind : twins.SameKind kind kind') :
    twins.Agree SameType (synthesize kind)
      (synthesize kind') := by
  unfold synthesize
  apply Agree.get
  intro hParallel
  have hShape : twins.SameTypeData ⟨kind, .synthetic⟩
      ⟨kind', .synthetic⟩ := ⟨hKind, .synthetic⟩
  have hFound : Option.Rel twins.SameType
      (twins.used.shapes.get? kind)
      (twins.fresh.shapes.get? kind') := by
    rw [shape?_eq, shape?_eq]
    apply hParallel.findType?
    intro data data' hData
    exact decide_eq_decide.mpr (hData.eq_iff hParallel hShape)
  generalize twins.used.shapes.get? _ = found at hFound
  generalize twins.fresh.shapes.get? _ = found' at hFound
  cases hFound with
  | some hType => exact .pure hType
  | none => exact agree_addType hKind .synthetic

theorem agree_nativeType (text : String) :
    twins.Agree SameType (nativeType text) (nativeType text) := by
  unfold nativeType
  apply (agree_intern text).bind
  intro middle name name' _ hName
  exact agree_synthesize (.native hName)

theorem agree_pointerType
    {pointee pointee' : TypeId}
    (hPointee : twins.SameType pointee pointee') :
    twins.Agree SameType (pointerType pointee)
      (pointerType pointee') :=
  agree_synthesize (.pointer hPointee)

------------------------------------------------------------
-- Host Elements
------------------------------------------------------------

private theorem agree_wrapUses (annotations : List BindingId) :
    twins.Agree (fun after => List.Forall₂ after.SameUse)
      (wrapUses table annotations)
      (wrapUses table annotations) := by
  apply Agree.mapM_self SameUse.mono
  intro twins use
  unfold wrapUse
  apply (Agree.consult (table.annotationType use)).bind
  rintro middle type _ _ rfl
  apply (agree_wrapHostType type).bind
  intro after ty ty' _ hType
  exact .pure ⟨rfl, hType⟩

section Describe

variable {wrap : BindingId → CacheM ElementId}
variable (hWrap : ∀ (twins : Twins) owner,
  twins.Agree SameElement (wrap owner) (wrap owner))

include hWrap

private theorem agree_describeType
    (id : BindingId)
    (binding : TypeBinding) :
    twins.Agree SameElementData
      (describeType table wrap id binding)
      (describeType table wrap id binding) := by
  unfold describeType
  apply (agree_intern _).bind
  intro twins₁ name name' _ hName
  apply (Agree.optionMapM (hWrap twins₁) binding.declaring).bind
  intro twins₂ enclosing enclosing' hOnward₂ hEnclosing
  apply (agree_wrapHostType id).bind
  intro twins₃ ty ty' hOnward₃ hType
  apply (agree_wrapUses binding.annotations).bind
  intro twins₄ annotations annotations' hOnward₄ hAnnotations
  have hOnward := hOnward₃.trans hOnward₄
  apply Agree.pure
  exact {
    name := hName.mono (hOnward₂.trans hOnward)
    kind := by
      simp only []
      split
      · exact .typeParameter
      · exact .type
    origin := rfl
    modifiers := rfl
    enclosing := rel_mono (SameElement.mono hOnward) hEnclosing
    ty := .some (hType.mono hOnward₄)
    annotations := hAnnotations }

private theorem agree_describeMethod
    (id : BindingId)
    (binding : MethodBinding) :
    twins.Agree SameElementData
      (describeMethod table wrap id binding)
      (describeMethod table wrap id binding) := by
  unfold describeMethod
  apply (Agree.optionMapM (hWrap twins) binding.declaring).bind
  intro twins₁ enclosing enclosing' _ hEnclosing
  apply (agree_wrapExecutable id).bind
  intro twins₂ ty ty' hOnward₂ hType
  apply (agree_wrapReturnType binding).bind
  intro twins₃ returnType returnType' hOnward₃ hReturn
  apply (agree_intern binding.name).bind
  intro twins₄ name name' hOnward₄ hName
  apply (agree_wrapUses binding.annotations).bind
  intro twins₅ annotations annotations' hOnward₅ hAnnotations
  have hAfterReturn := hOnward₄.trans hOnward₅
  have hAfterType := hOnward₃.trans hAfterReturn
  apply Agree.pure
  exact {
    name := hName.mono hOnward₅
    kind := .executable .none .nil (hReturn.mono hAfterReturn)
    origin := rfl
    modifiers := rfl
    enclosing := rel_mono
      (SameElement.mono (hOnward₂.trans hAfterType)) hEnclosing
    ty := .some (hType.mono hAfterType)
    annotations := hAnnotations }

private theorem agree_describeVariable
    (id : BindingId)
    (binding : VariableBinding) :
    twins.Agree SameElementData
      (describeVariable table wrap id binding)
      (describeVariable table wrap id binding) := by
  unfold describeVariable
  apply (Agree.optionMapM agree_wrapHostType binding.ty).bind
  intro twins₁ ty ty' _ hType
  apply (agree_intern binding.name).bind
  intro twins₂ name name' hOnward₂ hName
  apply (Agree.optionMapM (hWrap twins₂) binding.declaring).bind
  intro twins₃ enclosing enclosing' hOnward₃ hEnclosing
  apply (agree_wrapUses binding.annotations).bind
  intro twins₄ annotations annotations' hOnward₄ hAnnotations
  have hAfterName := hOnward₃.trans hOnward₄
  apply Agree.pure
  exact {
    name := hName.mono hAfterName
    kind := .variable binding.isField
    origin := rfl
    modifiers := rfl
    enclosing := rel_mono (SameElement.mono hOnward₄) hEnclosing
    ty := rel_mono
      (SameType.mono (hOnward₂.trans hAfterName)) hType
    annotations := hAnnotations }

private theorem agree_describeHost (id : BindingId) :
    twins.Agree SameElementData (describeHost table wrap id)
      (describeHost table wrap id) := by
  unfold describeHost
  cases table.get? id with
  | none => exact .refuse (.same _)
  | some host =>
      cases host with
      | type binding => exact agree_describeType hWrap id binding
      | method binding =>
          exact agree_describeMethod hWrap id binding
      | «variable» binding =>
          exact agree_describeVariable hWrap id binding
      | package name =>
          simp only [describePackage]
          apply (agree_intern name).bind
          intro after name name' _ hName
          exact .pure
            ⟨hName, .package, rfl, rfl, .none, .none, .nil⟩
      | annotationUse type => exact .refuse (.same _)

end Describe

private theorem agree_wrapHostElementWithin
    (depth : Nat)
    (id : BindingId) :
    twins.Agree SameElement
      (wrapHostElementWithin table depth id)
      (wrapHostElementWithin table depth id) := by
  induction depth generalizing twins id with
  | zero => exact .throw .endless
  | succ depth ih =>
      unfold wrapHostElementWithin
      apply Agree.get
      intro hParallel
      have hFound := hParallel.hostElement? id
      generalize twins.used.hostElement? id = found at hFound
      generalize twins.fresh.hostElement? id = found' at hFound
      cases hFound with
      | some hElement => exact .pure hElement
      | none =>
          apply (agree_describeHost (fun _ => ih) id).bind
          intro after data data' _ hData
          exact agree_addElement hData

theorem agree_wrapHostElement (id : BindingId) :
    twins.Agree SameElement (wrapHostElement table id)
      (wrapHostElement table id) :=
  agree_wrapHostElementWithin _ id

------------------------------------------------------------
-- Reading Elements
------------------------------------------------------------

/- An element is read alike, or is stale for both. -/
theorem asked_element
    (hParallel : twins.Parallel)
    {id id' : ElementId}
    (hElement : twins.SameElement id id') :
    Asked twins twins.SameElementData (twins.used.element id)
      (twins.fresh.element id') := by
  have hFound := hParallel.element? hElement
  unfold Cache.element
  generalize twins.used.elements.get? id.raw = found at hFound
  generalize twins.fresh.elements.get? id'.raw = found' at hFound
  cases hFound with
  | some hData => exact .ok hData
  | none => exact .error (.violation (.staleElement hElement))

theorem asked_nameText
    {name name' : Name}
    (hName : twins.SameName name name') :
    Asked twins Eq (twins.used.nameText name)
      (twins.fresh.nameText name') := by
  rcases hName with ⟨text, hText, hText'⟩
  unfold Cache.nameText Interner.lookup
  rw [hText, hText']
  exact .ok rfl

/- The wrong family is reported in the same words. -/
theorem sameError_wrongElementKind
    {data data' : ElementData}
    (hData : twins.SameElementData data data')
    (family : ElementFamily) :
    twins.SameError (twins.used.wrongElementKind data family)
      (twins.fresh.wrongElementKind data' family) := by
  have hText := asked_nameText hData.name
  unfold wrongElementKind
  generalize twins.used.nameText data.name = text at hText
  generalize twins.fresh.nameText data'.name = text' at hText
  cases hText with
  | ok hSame =>
      cases hSame
      rw [hData.kind.describe]
      exact .violation (.same _)
  | error hSame => exact hSame

theorem asked_elementOf
    (hParallel : twins.Parallel)
    {id id' : ElementId}
    (hElement : twins.SameElement id id')
    (family : ElementFamily) :
    Asked twins twins.SameElementData
      (twins.used.elementOf family id)
      (twins.fresh.elementOf family id') := by
  have hData := asked_element hParallel hElement
  unfold elementOf
  generalize twins.used.element id = found at hData
  generalize twins.fresh.element id' = found' at hData
  cases hData with
  | error hSame => exact .error hSame
  | @ok data data' hData =>
      show Asked twins _
        (if family.accepts data.kind then _ else _)
        (if family.accepts data'.kind then _ else _)
      rw [hData.kind.accepts]
      split
      · exact .ok hData
      · exact .error (sameError_wrongElementKind hData family)

theorem agree_element
    {id id' : ElementId}
    (hElement : twins.SameElement id id') :
    twins.Agree SameElementData
      (CacheM.inspect (·.element id))
      (CacheM.inspect (·.element id')) :=
  .inspect fun hParallel => asked_element hParallel hElement

theorem agree_elementOf
    {id id' : ElementId}
    (hElement : twins.SameElement id id')
    (family : ElementFamily) :
    twins.Agree SameElementData
      (CacheM.inspect (·.elementOf family id))
      (CacheM.inspect (·.elementOf family id')) :=
  .inspect fun hParallel =>
    asked_elementOf hParallel hElement family

------------------------------------------------------------
-- Bindings Of Any Sort
------------------------------------------------------------

theorem agree_packageElement
    {name name' : Name}
    (hName : twins.SameName name name') :
    twins.Agree SameElement (packageElement name)
      (packageElement name') := by
  unfold packageElement
  apply Agree.get
  intro hParallel
  have hFound : Option.Rel twins.SameElement
      (twins.used.packages.get? name)
      (twins.fresh.packages.get? name') := by
    rw [package?_eq, package?_eq]
    apply hParallel.findElement?
    intro data data' hData
    simp only [
      decide_eq_decide.mpr (hData.name.eq_iff hParallel hName),
      decide_eq_decide.mpr hData.kind.isPackage, hData.origin]
  generalize twins.used.packages.get? _ = found at hFound
  generalize twins.fresh.packages.get? _ = found' at hFound
  cases hFound with
  | some hElement => exact .pure hElement
  | none =>
      exact agree_addElement
        ⟨hName, .package, rfl, rfl, .none, .none, .nil⟩

theorem agree_wrapType
    {binding binding' : Binding}
    (hBinding : twins.SameBinding binding binding') :
    twins.Agree SameType (wrapType table binding)
      (wrapType table binding') := by
  induction hBinding with
  | host id =>
      unfold wrapType
      exact agree_wrapHostType id
  | @generated element element' name name' hElement family
      hName =>
      have hSame := SameBinding.generated hElement family hName
      cases family with
      | type =>
          unfold wrapType
          apply (agree_element hElement).bind
          intro after data data' hOnward hData
          have hType := hData.ty
          generalize data.ty = ty at hType
          generalize data'.ty = ty' at hType
          cases hType with
          | some hType => exact .pure hType
          | none =>
              exact .refuse
                (.notAType table (hSame.mono hOnward))
      | method =>
          unfold wrapType
          exact .refuse (.notAType table hSame)
      | «variable» =>
          unfold wrapType
          exact .refuse (.notAType table hSame)
  | generatedPackage hName =>
      unfold wrapType
      exact .refuse (.notAType table (.generatedPackage hName))
  | nativeType hName =>
      unfold wrapType
      exact agree_synthesize (.native hName)
  | pointer _ ih =>
      unfold wrapType
      apply ih.bind
      intro after ty ty' _ hType
      exact agree_pointerType hType
  | pointerToUnbound =>
      unfold wrapType
      intro hParallel
      exact agree_pointerType (sameType_nullType hParallel)
        hParallel

theorem agree_wrapElement
    {binding binding' : Binding}
    (hBinding : twins.SameBinding binding binding') :
    twins.Agree SameElement (wrapElement table binding)
      (wrapElement table binding') := by
  cases hBinding with
  | host id => exact agree_wrapHostElement id
  | generated hElement family hName =>
      apply (agree_element hElement).bind
      intro after data data' hOnward _
      exact .pure (hElement.mono hOnward)
  | generatedPackage hName => exact agree_packageElement hName
  | nativeType hName =>
      exact .refuse (.unknownElement table (.nativeType hName))
  | pointer hPointee =>
      exact .refuse (.unknownElement table (.pointer hPointee))
  | pointerToUnbound =>
      exact .refuse (.unknownElement table .pointerToUnbound)

theorem agree_wrapElementOf
    {binding binding' : Binding}
    (hBinding : twins.SameBinding binding binding')
    (family : ElementFamily) :
    twins.Agree SameElement
      (wrapElementOf table family binding)
      (wrapElementOf table family binding') := by
  unfold wrapElementOf
  apply (agree_wrapElement hBinding).bind
  intro middle element element' _ hElement
  apply (agree_elementOf hElement family).bind
  intro after _ _ hOnward _
  exact .pure (hElement.mono hOnward)

/- Annotations are given to both packages or to neither. -/
theorem agree_wrapPackageDeclaration
    (id : BindingId)
    (annotations : List BindingId) :
    twins.Agree SameElement
      (wrapPackageDeclaration table id annotations)
      (wrapPackageDeclaration table id annotations) := by
  unfold wrapPackageDeclaration
  apply (agree_wrapElementOf (.host id) .package).bind
  intro twins₁ element element' _ hElement
  apply (agree_element hElement).bind
  intro twins₂ data data' hOnward hData
  have hElement₂ := hElement.mono hOnward
  have hEmpty : data.annotations.isEmpty =
      data'.annotations.isEmpty := by
    have hUses := hData.annotations
    generalize data.annotations = uses at hUses
    generalize data'.annotations = uses' at hUses
    cases hUses <;> rfl
  simp only [hEmpty]
  split
  · apply (agree_wrapUses annotations).bind
    intro twins₃ found found' hOnward₃ hFound
    have hElement₃ := hElement₂.mono hOnward₃
    apply (agree_modifyElement hElement₃ ?_).bind
    · intro twins₄ _ _ hOnward₄ _
      exact .pure (hElement₃.mono hOnward₄)
    · intro old old' hOld
      exact { hOld with annotations := hFound }
  · exact .pure hElement₂

end Twins

end Cache

end Lowering
