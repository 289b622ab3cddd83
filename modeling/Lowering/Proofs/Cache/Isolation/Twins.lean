import Mathlib.Data.List.Forall2
import Lowering.Proofs.Cache.Request

/-
  This file defines when two caches are twins, and when data
  of the one is the same as data of the other. The one cache
  was used before and then reset, the other one is new.

  Twins hold the same wrappers in the same order. Their
  handles differ by an offset that never changes, one for the
  types that are not fixed and one for the elements. Names are
  compared by text, for the used cache kept the texts that it
  saw before it was reset.

  Data that is the same stays so while both caches grow.

  Key definitions include:
    * `Interner.Distinct`
    * `Generation.Alike`
    * `Offset`
    * `Cache.Twins`
    * `Cache.Twins.SameTypeData`
    * `Cache.Twins.SameElementData`
    * `Cache.Twins.SameBinding`
    * `Cache.Twins.Parallel`
    * `Cache.Twins.Onward`
    * `Cache.Twins.withNames`

  Main results:
    * `Generation.Alike.find?`
    * `Cache.Twins.SameTypeData.mono`
    * `Cache.Twins.SameElementData.mono`
    * `Cache.Twins.Parallel.withNames`
-/

namespace Lowering

------------------------------------------------------------
-- Interners
------------------------------------------------------------

namespace Interner

/- No text has two names. -/
def Distinct (interner : Interner) : Prop :=
  ∀ name name' text,
    interner.text? name = some text →
      interner.text? name' = some text → name = name'

private theorem text?_store
    (interner : Interner)
    (text : String)
    (name : Name) :
    (interner.store text).text? name =
      if name.raw = interner.texts.size + 1 then
        some text
      else
        interner.text? name := by
  unfold text? store
  cases hRaw : name.raw with
  | zero => simp
  | succ index =>
      simp only [Array.getElem?_push, Nat.add_right_cancel_iff]

/- A text that was not found has no name. -/
theorem text?_ne_of_find?
    {interner : Interner}
    {text : String}
    (hFind : interner.find? text = none)
    (name : Name) :
    interner.text? name ≠ some text := by
  intro hText
  unfold find? at hFind
  unfold text? at hText
  split at hFind
  · cases hFind
  · next hEmpty =>
    split at hText
    · exact hEmpty (Option.some.inj hText).symm
    · rw [interner.indexed, Option.map_eq_none_iff,
        Array.findIdx?_eq_none_iff] at hFind
      rcases Array.getElem?_eq_some_iff.mp hText with
        ⟨hBound, hFound⟩
      have hNot := hFind _ (Array.getElem_mem hBound)
      rw [hFound] at hNot
      simp at hNot

theorem Distinct.new : Distinct {} := by
  have hZero : ∀ {name : Name} {text : String},
      Interner.text? {} name = some text → name.raw = 0 := by
    intro name text hText
    unfold text? at hText
    split at hText
    · next hRaw => exact hRaw
    · simp at hText
  intro name name' text hText hText'
  cases name
  cases name'
  exact congrArg Name.mk
    ((hZero hText).trans (hZero hText').symm)

theorem Distinct.intern
    {interner : Interner}
    (hDistinct : interner.Distinct)
    (text : String) :
    (interner.intern text).2.Distinct := by
  unfold Interner.intern
  cases hFind : interner.find? text with
  | some name => exact hDistinct
  | none =>
      have hNone := text?_ne_of_find? hFind
      intro name name' found hText hText'
      simp only [] at hText hText'
      rw [text?_store] at hText hText'
      split at hText
      · next hNew =>
        cases hText
        split at hText'
        · next hNew' =>
          cases name
          cases name'
          exact congrArg Name.mk (hNew.trans hNew'.symm)
        · exact absurd hText' (hNone name')
      · split at hText'
        · cases hText'
          exact absurd hText (hNone name)
        · exact hDistinct name name' found hText hText'

end Interner

------------------------------------------------------------
-- Generations
------------------------------------------------------------

namespace Generation

/-
  Two generations hold related items in the same order, the
  handles of the one being behind those of the other.
-/
structure Alike
    {α : Type}
    (shift : Nat)
    (Same : α → α → Prop)
    (used fresh : Generation α) : Prop where
  base : used.base = fresh.base + shift
  next : used.next = fresh.next + shift
  items : ∀ handle item item',
    used.get? (handle + shift) = some item →
      fresh.get? handle = some item' → Same item item'

namespace Alike

variable {α : Type}
variable {shift : Nat}
variable {Same : α → α → Prop}
variable {used fresh : Generation α}

theorem mono
    {Same' : α → α → Prop}
    (hAlike : Alike shift Same used fresh)
    (hMono : ∀ item item', Same item item' → Same' item item') :
    Alike shift Same' used fresh where
  base := hAlike.base
  next := hAlike.next
  items := fun handle item item' hItem hItem' =>
    hMono item item' (hAlike.items handle item item' hItem hItem')

/- What is live in the one is live in the other. -/
theorem of_used
    (hAlike : Alike shift Same used fresh)
    {handle : Nat}
    {item : α}
    (hItem : used.get? (handle + shift) = some item) :
    ∃ item', fresh.get? handle = some item' ∧
      Same item item' := by
  have hBase := hAlike.base
  have hNext := hAlike.next
  have hBounds := bounds_of_get? hItem
  have hLive : ∃ item', fresh.get? handle = some item' :=
    exists_get? (by omega) (by omega)
  rcases hLive with ⟨item', hItem'⟩
  exact ⟨item', hItem',
    hAlike.items handle item item' hItem hItem'⟩

theorem of_fresh
    (hAlike : Alike shift Same used fresh)
    {handle : Nat}
    {item' : α}
    (hItem' : fresh.get? handle = some item') :
    ∃ item, used.get? (handle + shift) = some item ∧
      Same item item' := by
  have hBase := hAlike.base
  have hNext := hAlike.next
  have hBounds := bounds_of_get? hItem'
  have hLive : ∃ item,
      used.get? (handle + shift) = some item :=
    exists_get? (by omega) (by omega)
  rcases hLive with ⟨item, hItem⟩
  exact ⟨item, hItem,
    hAlike.items handle item item' hItem hItem'⟩

/- The handles of the used one are those of the other. -/
private theorem shift_handle
    (hAlike : Alike shift Same used fresh)
    {handle : Nat}
    {item : α}
    (hItem : used.get? handle = some item) :
    handle - shift + shift = handle := by
  have hBase := hAlike.base
  have hBounds := bounds_of_get? hItem
  omega

/- What is found in the one is found in the other. -/
theorem find?
    (hAlike : Alike shift Same used fresh)
    {property property' : α → Bool}
    (hProperty : ∀ item item', Same item item' →
      property item = property' item') :
    used.find? property =
      (fresh.find? property').map (· + shift) := by
  cases hFresh : fresh.find? property' with
  | none =>
      apply find?_eq_none_iff.mpr
      intro handle item hItem
      rw [← hAlike.shift_handle hItem] at hItem
      rcases hAlike.of_used hItem with ⟨item', hItem', hSame⟩
      rw [hProperty _ _ hSame]
      exact find?_eq_none_iff.mp hFresh _ _ hItem'
  | some handle =>
      rcases find?_eq_some_iff.mp hFresh with
        ⟨⟨item', hItem', hHas⟩, hLess⟩
      apply find?_eq_some_iff.mpr
      constructor
      · rcases hAlike.of_fresh hItem' with ⟨item, hItem, hSame⟩
        exact ⟨item, hItem, (hProperty _ _ hSame).trans hHas⟩
      · intro other item hOther hItem
        have hShift := hAlike.shift_handle hItem
        rw [← hShift] at hItem
        rcases hAlike.of_used hItem with ⟨other', hOther', hSame⟩
        rw [hProperty _ _ hSame]
        apply hLess _ _ ?_ hOther'
        simp only [] at hOther
        omega

theorem push
    (hAlike : Alike shift Same used fresh)
    {item item' : α}
    (hSame : Same item item') :
    Alike shift Same (used.push item) (fresh.push item') where
  base := hAlike.base
  next := by
    rw [next_push, next_push, hAlike.next]
    omega
  items := by
    intro handle found found' hUsed hFresh
    have hNext := hAlike.next
    rw [get?_push] at hUsed hFresh
    by_cases hNew : handle = fresh.next
    · rw [if_pos hNew] at hFresh
      rw [if_pos (by omega)] at hUsed
      cases hUsed
      cases hFresh
      exact hSame
    · rw [if_neg hNew] at hFresh
      rw [if_neg (by omega)] at hUsed
      exact hAlike.items handle found found' hUsed hFresh

private theorem next_modify
    (generation : Generation α)
    (handle : Nat)
    (change : α → α) :
    (generation.modify handle change).next = generation.next := by
  unfold modify
  split
  · rfl
  · unfold Generation.next
    rw [Array.size_modify]

theorem modify
    (hAlike : Alike shift Same used fresh)
    (handle : Nat)
    {change change' : α → α}
    (hChange : ∀ item item',
      used.get? (handle + shift) = some item →
        fresh.get? handle = some item' →
          Same item item' →
            Same (change item) (change' item')) :
    Alike shift Same (used.modify (handle + shift) change)
      (fresh.modify handle change') where
  base := by
    rw [base_modify, base_modify]
    exact hAlike.base
  next := by
    rw [next_modify, next_modify]
    exact hAlike.next
  items := by
    intro other found found' hUsed hFresh
    rw [get?_modify] at hUsed hFresh
    by_cases hEq : other = handle
    · subst hEq
      simp only [if_true] at hUsed hFresh
      rcases Option.map_eq_some_iff.mp hUsed with
        ⟨item, hItem, rfl⟩
      rcases Option.map_eq_some_iff.mp hFresh with
        ⟨item', hItem', rfl⟩
      exact hChange item item' hItem hItem'
        (hAlike.items other item item' hItem hItem')
    · rw [if_neg hEq] at hFresh
      rw [if_neg (by omega)] at hUsed
      exact hAlike.items other found found' hUsed hFresh

end Alike

end Generation

------------------------------------------------------------
-- Offsets
------------------------------------------------------------

/- By how much handles of the one cache are behind. -/
structure Offset where
  types : Nat
  elements : Nat

namespace Offset

variable {offset : Offset}

/- The two fixed types have one handle in every cache. -/
def type (offset : Offset) (ty : TypeId) : TypeId :=
  if ty.raw < 2 then ty else ⟨ty.raw + offset.types⟩

def element (offset : Offset) (id : ElementId) : ElementId :=
  ⟨id.raw + offset.elements⟩

theorem type_eq_iff {ty ty' : TypeId} :
    offset.type ty = offset.type ty' ↔ ty = ty' := by
  constructor
  · intro hEq
    unfold type at hEq
    cases ty
    cases ty'
    split at hEq <;> split at hEq <;>
      simp only [TypeId.mk.injEq] at * <;> omega
  · rintro rfl
    rfl

theorem element_eq_iff {id id' : ElementId} :
    offset.element id = offset.element id' ↔ id = id' := by
  unfold element
  cases id
  cases id'
  simp

end Offset

------------------------------------------------------------
-- The Same Data
------------------------------------------------------------

namespace Cache

/- A cache that was used before, and a new one. -/
structure Twins where
  offset : Offset
  used : Cache
  fresh : Cache

namespace Twins

variable (twins : Twins)

/- Names are the same if they have the same text. -/
def SameName (name name' : Name) : Prop :=
  ∃ text,
    twins.used.names.text? name = some text ∧
      twins.fresh.names.text? name' = some text

/- Types are the same if they were made by the same step. -/
def SameType (ty ty' : TypeId) : Prop :=
  ty = twins.offset.type ty' ∧
    ty'.raw < twins.fresh.types.next

def SameElement (id id' : ElementId) : Prop :=
  id = twins.offset.element id'

inductive SameKind : TypeKind → TypeKind → Prop
  | array
      {component component' : TypeId}
      (sameComponent : twins.SameType component component') :
      SameKind (.array component) (.array component')
  | declared
      {name name' : Name}
      (sameName : twins.SameName name name') :
      SameKind (.declared name) (.declared name')
  | primitive (kind : PrimitiveKind) :
      SameKind (.primitive kind) (.primitive kind)
  | typeVariable
      {name name' : Name}
      (sameName : twins.SameName name name') :
      SameKind (.typeVariable name) (.typeVariable name')
  | wildcard
      {bound bound' : Option TypeId}
      (sameBound : Option.Rel twins.SameType bound bound') :
      SameKind (.wildcard bound) (.wildcard bound')
  | intersection
      {bounds bounds' : List TypeId}
      (sameBounds : List.Forall₂ twins.SameType bounds bounds') :
      SameKind (.intersection bounds) (.intersection bounds')
  | executable
      {params params' : List TypeId}
      {returnType returnType' : TypeId}
      (sameParams : List.Forall₂ twins.SameType params params')
      (sameReturnType : twins.SameType returnType returnType') :
      SameKind (.executable params returnType)
        (.executable params' returnType')
  | native
      {name name' : Name}
      (sameName : twins.SameName name name') :
      SameKind (.native name) (.native name')
  | pointer
      {pointee pointee' : TypeId}
      (samePointee : twins.SameType pointee pointee') :
      SameKind (.pointer pointee) (.pointer pointee')
  | noType : SameKind .noType .noType
  | nullType : SameKind .nullType .nullType

inductive SameOrigin : TypeOrigin → TypeOrigin → Prop
  | host (id : BindingId) : SameOrigin (.host id) (.host id)
  | generated
      {element element' : ElementId}
      (sameElement : twins.SameElement element element') :
      SameOrigin (.generated element) (.generated element')
  | synthetic : SameOrigin .synthetic .synthetic

structure SameTypeData (data data' : TypeData) : Prop where
  kind : twins.SameKind data.kind data'.kind
  origin : twins.SameOrigin data.origin data'.origin

inductive SameElementKind : ElementKind → ElementKind → Prop
  | type : SameElementKind .type .type
  | executable
      {selector selector' : Option Name}
      {params params' : List ElementId}
      {returnType returnType' : TypeId}
      (sameSelector : Option.Rel twins.SameName selector selector')
      (sameParams : List.Forall₂ twins.SameElement params params')
      (sameReturnType : twins.SameType returnType returnType') :
      SameElementKind (.executable selector params returnType)
        (.executable selector' params' returnType')
  | variable (isField : Bool) :
      SameElementKind (.variable isField) (.variable isField)
  | package : SameElementKind .package .package
  | typeParameter : SameElementKind .typeParameter .typeParameter

structure SameUse (use use' : AnnotationUse) : Prop where
  binding : use.binding = use'.binding
  annotationType :
    twins.SameType use.annotationType use'.annotationType

structure SameElementData (data data' : ElementData) : Prop where
  name : twins.SameName data.name data'.name
  kind : twins.SameElementKind data.kind data'.kind
  origin : data.origin = data'.origin
  modifiers : data.modifiers = data'.modifiers
  enclosing :
    Option.Rel twins.SameElement data.enclosing data'.enclosing
  ty : Option.Rel twins.SameType data.ty data'.ty
  annotations :
    List.Forall₂ twins.SameUse data.annotations data'.annotations

inductive SameBinding : Binding → Binding → Prop
  | host (id : BindingId) : SameBinding (.host id) (.host id)
  | generated
      {element element' : ElementId}
      {name name' : Name}
      (sameElement : twins.SameElement element element')
      (family : MemberFamily)
      (sameName : twins.SameName name name') :
      SameBinding (.generated ⟨element, family, name⟩)
        (.generated ⟨element', family, name'⟩)
  | generatedPackage
      {name name' : Name}
      (sameName : twins.SameName name name') :
      SameBinding (.generatedPackage name)
        (.generatedPackage name')
  | nativeType
      {name name' : Name}
      (sameName : twins.SameName name name') :
      SameBinding (.nativeType name) (.nativeType name')
  | pointer
      {pointee pointee' : Binding}
      (samePointee : SameBinding pointee pointee') :
      SameBinding (.pointer pointee) (.pointer pointee')
  | pointerToUnbound :
      SameBinding .pointerToUnbound .pointerToUnbound

------------------------------------------------------------
-- Twins
------------------------------------------------------------

/- The same executable type is remembered of the same method. -/
structure SameMemo (memo memo' : ElementId × TypeId) : Prop where
  method : twins.SameElement memo.1 memo'.1
  type : twins.SameType memo.2 memo'.2

/-
  The caches hold the same wrappers in the same order, and
  remember the same executable types.
-/
structure Parallel (twins : Twins) : Prop where
  usedNames : twins.used.names.Distinct
  freshNames : twins.fresh.names.Distinct
  base : twins.fresh.types.base = 2
  types : Generation.Alike twins.offset.types twins.SameTypeData
    twins.used.types twins.fresh.types
  elements : Generation.Alike twins.offset.elements
    twins.SameElementData twins.used.elements
    twins.fresh.elements
  executables : List.Forall₂ twins.SameMemo
    twins.used.executables twins.fresh.executables

/- Both caches went on, and lost no name and no type. -/
structure Onward (before after : Twins) : Prop where
  offset : after.offset = before.offset
  usedNames :
    Interner.Grown before.used.names after.used.names
  freshNames :
    Interner.Grown before.fresh.names after.fresh.names
  types : before.fresh.types.next ≤ after.fresh.types.next

variable {twins}

theorem Onward.refl (twins : Twins) : Onward twins twins where
  offset := rfl
  usedNames := Interner.Grown.refl _
  freshNames := Interner.Grown.refl _
  types := Nat.le_refl _

theorem Onward.trans
    {first second third : Twins}
    (hFirst : Onward first second)
    (hSecond : Onward second third) :
    Onward first third where
  offset := hSecond.offset.trans hFirst.offset
  usedNames := hFirst.usedNames.trans hSecond.usedNames
  freshNames := hFirst.freshNames.trans hSecond.freshNames
  types := Nat.le_trans hFirst.types hSecond.types

------------------------------------------------------------
-- Going On
------------------------------------------------------------

theorem rel_mono
    {α : Type}
    {Same Same' : α → α → Prop}
    (hMono : ∀ {item item'}, Same item item' → Same' item item')
    {item item' : Option α}
    (hSame : Option.Rel Same item item') :
    Option.Rel Same' item item' := by
  cases hSame with
  | some hItem => exact .some (hMono hItem)
  | none => exact .none

section Mono

variable {before after : Twins}
variable (hOnward : Onward before after)

include hOnward

theorem SameName.mono
    {name name' : Name}
    (hSame : before.SameName name name') :
    after.SameName name name' := by
  rcases hSame with ⟨text, hText, hText'⟩
  exact ⟨text, hOnward.usedNames _ _ hText,
    hOnward.freshNames _ _ hText'⟩

theorem SameType.mono
    {ty ty' : TypeId}
    (hSame : before.SameType ty ty') :
    after.SameType ty ty' := by
  refine ⟨?_, ?_⟩
  · rw [hOnward.offset]
    exact hSame.1
  · exact Nat.lt_of_lt_of_le hSame.2 hOnward.types

theorem SameElement.mono
    {id id' : ElementId}
    (hSame : before.SameElement id id') :
    after.SameElement id id' := by
  unfold SameElement
  rw [hOnward.offset]
  exact hSame

theorem SameKind.mono
    {kind kind' : TypeKind}
    (hSame : before.SameKind kind kind') :
    after.SameKind kind kind' := by
  have hTypes : ∀ {types types' : List TypeId},
      List.Forall₂ before.SameType types types' →
        List.Forall₂ after.SameType types types' :=
    fun hAll => hAll.imp fun _ _ => SameType.mono hOnward
  cases hSame with
  | array hComponent => exact .array (hComponent.mono hOnward)
  | declared hName => exact .declared (hName.mono hOnward)
  | primitive kind => exact .primitive kind
  | typeVariable hName =>
      exact .typeVariable (hName.mono hOnward)
  | wildcard hBound =>
      exact .wildcard (rel_mono (SameType.mono hOnward) hBound)
  | intersection hBounds => exact .intersection (hTypes hBounds)
  | executable hParams hReturn =>
      exact .executable (hTypes hParams) (hReturn.mono hOnward)
  | native hName => exact .native (hName.mono hOnward)
  | pointer hPointee => exact .pointer (hPointee.mono hOnward)
  | noType => exact .noType
  | nullType => exact .nullType

theorem SameOrigin.mono
    {origin origin' : TypeOrigin}
    (hSame : before.SameOrigin origin origin') :
    after.SameOrigin origin origin' := by
  cases hSame with
  | host id => exact .host id
  | generated hElement =>
      exact .generated (hElement.mono hOnward)
  | synthetic => exact .synthetic

theorem SameTypeData.mono
    {data data' : TypeData}
    (hSame : before.SameTypeData data data') :
    after.SameTypeData data data' :=
  ⟨hSame.kind.mono hOnward, hSame.origin.mono hOnward⟩

theorem SameElementKind.mono
    {kind kind' : ElementKind}
    (hSame : before.SameElementKind kind kind') :
    after.SameElementKind kind kind' := by
  cases hSame with
  | type => exact .type
  | executable hSelector hParams hReturn =>
      exact .executable
        (rel_mono (SameName.mono hOnward) hSelector)
        (hParams.imp fun _ _ => SameElement.mono hOnward)
        (hReturn.mono hOnward)
  | «variable» isField => exact .variable isField
  | package => exact .package
  | typeParameter => exact .typeParameter

theorem SameUse.mono
    {use use' : AnnotationUse}
    (hSame : before.SameUse use use') :
    after.SameUse use use' :=
  ⟨hSame.binding, hSame.annotationType.mono hOnward⟩

theorem SameElementData.mono
    {data data' : ElementData}
    (hSame : before.SameElementData data data') :
    after.SameElementData data data' where
  name := hSame.name.mono hOnward
  kind := hSame.kind.mono hOnward
  origin := hSame.origin
  modifiers := hSame.modifiers
  enclosing := rel_mono (SameElement.mono hOnward) hSame.enclosing
  ty := rel_mono (SameType.mono hOnward) hSame.ty
  annotations :=
    hSame.annotations.imp fun _ _ => SameUse.mono hOnward

theorem SameMemo.mono
    {memo memo' : ElementId × TypeId}
    (hSame : before.SameMemo memo memo') :
    after.SameMemo memo memo' :=
  ⟨hSame.method.mono hOnward, hSame.type.mono hOnward⟩

theorem SameBinding.mono
    {binding binding' : Binding}
    (hSame : before.SameBinding binding binding') :
    after.SameBinding binding binding' := by
  induction hSame with
  | host id => exact .host id
  | generated hElement family hName =>
      exact .generated (hElement.mono hOnward) family
        (hName.mono hOnward)
  | generatedPackage hName =>
      exact .generatedPackage (hName.mono hOnward)
  | nativeType hName => exact .nativeType (hName.mono hOnward)
  | pointer _ ih => exact .pointer ih
  | pointerToUnbound => exact .pointerToUnbound

end Mono

------------------------------------------------------------
-- More Texts
------------------------------------------------------------

/- The twins with other names, each its own. -/
def withNames (twins : Twins) (names names' : Interner) : Twins :=
  { twins with
    used := { twins.used with names := names }
    fresh := { twins.fresh with names := names' } }

section Names

variable {names names' : Interner}
variable (hGrown : Interner.Grown twins.used.names names)
variable (hGrown' : Interner.Grown twins.fresh.names names')

include hGrown hGrown'

theorem onward_withNames :
    Onward twins (twins.withNames names names') :=
  ⟨rfl, hGrown, hGrown', Nat.le_refl _⟩

/- Twins that see more texts stay twins. -/
theorem Parallel.withNames
    (hParallel : twins.Parallel)
    (hDistinct : names.Distinct)
    (hDistinct' : names'.Distinct) :
    (twins.withNames names names').Parallel where
  usedNames := hDistinct
  freshNames := hDistinct'
  base := hParallel.base
  types := hParallel.types.mono fun _ _ =>
    SameTypeData.mono (onward_withNames hGrown hGrown')
  elements := hParallel.elements.mono fun _ _ =>
    SameElementData.mono (onward_withNames hGrown hGrown')
  executables := hParallel.executables.imp fun _ _ =>
    SameMemo.mono (onward_withNames hGrown hGrown')

end Names

end Twins

end Cache

end Lowering
