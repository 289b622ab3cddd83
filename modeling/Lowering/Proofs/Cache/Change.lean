import Mathlib.Logic.Relation
import Lowering.Binding.Table
import Lowering.Cache.Basic
import Lowering.Proofs.Run
import Lowering.Proofs.Cache.Indexes
import Lowering.Proofs.Cache.Store

/-
  This file states once what can happen to the cache within a
  generation, as seven kinds of change, and derives from them
  that nothing is ever lost from it.

  A change is strict if it makes nothing that is there. Only
  circular bindings can lead to one that is not, so growth is
  shown of all changes and identity of strict ones.

  Key definitions include:
    * `ElementData.Kept`
    * `Cache.HasArity`
    * `Cache.withExecutable`
    * `Cache.withParameter`
    * `Cache.Change`
    * `Cache.Changes`
    * `Cache.Grown`

  Main results:
    * `Cache.Change.grown`
    * `Cache.Changes.grown`
-/

namespace Lowering

/- A kind, and what it may become: a method gets parameters. -/
inductive ElementKind.Extended :
    ElementKind → ElementKind → Prop
  | same (kind : ElementKind) : Extended kind kind
  | parameters
      (selector : Option Name)
      (params added : List ElementId)
      (returnType : TypeId) :
      Extended (.executable selector params returnType)
        (.executable selector (params ++ added) returnType)

namespace ElementKind.Extended

variable {first second third : ElementKind}

theorem isPackage
    (hExtended : first.Extended second) :
    second = .package ↔ first = .package := by
  cases hExtended <;> simp

/- A kind stays in its family. -/
theorem accepts
    (hExtended : first.Extended second)
    (family : ElementFamily) :
    family.accepts second = family.accepts first := by
  cases hExtended with
  | same => rfl
  | parameters => cases family <;> rfl

theorem trans
    (hFirst : first.Extended second)
    (hSecond : second.Extended third) :
    first.Extended third := by
  cases hFirst with
  | same => exact hSecond
  | parameters selector params added returnType =>
      cases hSecond with
      | same => exact .parameters selector params added returnType
      | parameters _ _ more _ =>
          rw [List.append_assoc]
          exact .parameters selector params _ returnType

end ElementKind.Extended

/-
  What changes of a live element keep of it: all but the
  parameters that a method may get, and the annotations of a
  package that has none.
-/
structure ElementData.Kept (old new : ElementData) : Prop where
  name : new.name = old.name
  origin : new.origin = old.origin
  modifiers : new.modifiers = old.modifiers
  enclosing : new.enclosing = old.enclosing
  ty : new.ty = old.ty
  kind : old.kind.Extended new.kind
  annotations : new.annotations = old.annotations ∨
    (old.kind = .package ∧ old.annotations = [])

namespace ElementData.Kept

theorem isPackage
    {old new : ElementData}
    (hKept : old.Kept new) :
    new.kind = .package ↔ old.kind = .package :=
  hKept.kind.isPackage

theorem refl (data : ElementData) : data.Kept data where
  name := rfl
  origin := rfl
  modifiers := rfl
  enclosing := rfl
  ty := rfl
  kind := .same data.kind
  annotations := Or.inl rfl

theorem trans
    (first second third : ElementData)
    (hFirst : first.Kept second)
    (hSecond : second.Kept third) :
    first.Kept third where
  name := hSecond.name.trans hFirst.name
  origin := hSecond.origin.trans hFirst.origin
  modifiers := hSecond.modifiers.trans hFirst.modifiers
  enclosing := hSecond.enclosing.trans hFirst.enclosing
  ty := hSecond.ty.trans hFirst.ty
  kind := hFirst.kind.trans hSecond.kind
  annotations := by
    rcases hSecond.annotations with hSame | ⟨hKind, hNone⟩
    · rw [hSame]
      exact hFirst.annotations
    · right
      refine ⟨hFirst.isPackage.mp hKind, ?_⟩
      rcases hFirst.annotations with hSame | ⟨_, hEmpty⟩
      · rw [← hSame]
        exact hNone
      · exact hEmpty

end ElementData.Kept

namespace Cache

------------------------------------------------------------
-- Reading Handles
------------------------------------------------------------

section Reading

variable {cache : Cache}

theorem typeData_eq_ok_iff
    {ty : TypeId}
    {data : TypeData} :
    cache.typeData ty = .ok data ↔
      cache.type? ty = some data := by
  unfold typeData
  cases cache.type? ty <;> simp

/- A handle of a type is live if it is fixed or in the store. -/
theorem type?_eq_some_iff
    (hBase : 2 ≤ cache.types.base)
    {ty : TypeId}
    {data : TypeData} :
    cache.type? ty = some data ↔
      (ty = noType ∧ data = ⟨.noType, .synthetic⟩) ∨
      (ty = nullType ∧ data = ⟨.nullType, .synthetic⟩) ∨
      cache.types.get? ty.raw = some data := by
  have hFixed : ∀ fixed : TypeId, fixed.raw < 2 →
      cache.types.get? fixed.raw = none := by
    intro fixed hLow
    unfold Generation.get?
    rw [if_pos (by omega)]
  unfold Cache.type?
  by_cases hNone : ty = noType
  · subst hNone
    rw [if_pos rfl, hFixed noType (by decide)]
    constructor
    · intro hType
      exact Or.inl ⟨rfl, (Option.some.inj hType).symm⟩
    · rintro (⟨_, rfl⟩ | ⟨hEq, _⟩ | hLive)
      · rfl
      · exact absurd hEq (by decide)
      · cases hLive
  · rw [if_neg hNone]
    by_cases hNull : ty = nullType
    · subst hNull
      rw [if_pos rfl, hFixed nullType (by decide)]
      constructor
      · intro hType
        exact Or.inr
          (Or.inl ⟨rfl, (Option.some.inj hType).symm⟩)
      · rintro (⟨hEq, _⟩ | ⟨_, rfl⟩ | hLive)
        · exact absurd hEq (by decide)
        · rfl
        · cases hLive
    · rw [if_neg hNull]
      simp [hNone, hNull]

theorem typeData_eq_stale
    {ty : TypeId}
    (hNone : cache.type? ty = none) :
    cache.typeData ty =
      .error (.violation (.staleHandle (toString ty))) := by
  unfold typeData
  rw [hNone]

theorem element_eq_ok_iff
    {id : ElementId}
    {data : ElementData} :
    cache.element id = .ok data ↔
      cache.elements.get? id.raw = some data := by
  unfold Cache.element
  cases cache.elements.get? id.raw <;> simp

/- A type that was found is live and has the property. -/
theorem get?_of_findType?
    {property : TypeData → Bool}
    {ty : TypeId}
    (hFound : cache.findType? property = some ty) :
    ∃ data,
      cache.types.get? ty.raw = some data ∧
        property data = true := by
  unfold findType? at hFound
  rcases Option.map_eq_some_iff.mp hFound with
    ⟨handle, hHandle, rfl⟩
  exact (Generation.find?_eq_some_iff.mp hHandle).1

theorem findType?_eq_none_iff {property : TypeData → Bool} :
    cache.findType? property = none ↔
      ∀ handle data, cache.types.get? handle = some data →
        property data = false := by
  unfold findType?
  rw [Option.map_eq_none_iff, Generation.find?_eq_none_iff]

theorem findElement?_eq_none_iff
    {property : ElementData → Bool} :
    cache.findElement? property = none ↔
      ∀ handle data, cache.elements.get? handle = some data →
        property data = false := by
  unfold findElement?
  rw [Option.map_eq_none_iff, Generation.find?_eq_none_iff]

/- An element that was found is live and has the property. -/
theorem get?_of_findElement?
    {property : ElementData → Bool}
    {element : ElementId}
    (hFound : cache.findElement? property = some element) :
    ∃ data,
      cache.elements.get? element.raw = some data ∧
        property data = true := by
  unfold findElement? at hFound
  rcases Option.map_eq_some_iff.mp hFound with
    ⟨handle, hHandle, rfl⟩
  exact (Generation.find?_eq_some_iff.mp hHandle).1

/- A wrapper that an index leads to is of what it wraps. -/
theorem get?_of_typeOf?
    {id : BindingId}
    {ty : TypeId}
    (hFound : cache.typeOf? id = some ty) :
    ∃ data,
      cache.types.get? ty.raw = some data ∧
        data.origin = .host id ∧
        data.kind.isExecutable = false := by
  rw [typeOf?_eq] at hFound
  rcases get?_of_findType? hFound with ⟨data, hType, hHas⟩
  simp only [Bool.and_eq_true, decide_eq_true_eq,
    Bool.not_eq_true'] at hHas
  exact ⟨data, hType, hHas.1, hHas.2⟩

theorem get?_of_executableOf?
    {id : BindingId}
    {ty : TypeId}
    (hFound : cache.executableOf? id = some ty) :
    ∃ data,
      cache.types.get? ty.raw = some data ∧
        data.origin = .host id ∧
        data.kind.isExecutable = true := by
  rw [executableOf?_eq] at hFound
  rcases get?_of_findType? hFound with ⟨data, hType, hHas⟩
  simp only [Bool.and_eq_true, decide_eq_true_eq] at hHas
  exact ⟨data, hType, hHas.1, hHas.2⟩

theorem get?_of_shape?
    {kind : TypeKind}
    {ty : TypeId}
    (hFound : cache.shapes.get? kind = some ty) :
    cache.types.get? ty.raw = some ⟨kind, .synthetic⟩ := by
  rw [shape?_eq] at hFound
  rcases get?_of_findType? hFound with ⟨data, hType, hHas⟩
  rw [← of_decide_eq_true hHas]
  exact hType

theorem get?_of_hostElement?
    {id : BindingId}
    {element : ElementId}
    (hFound : cache.hostElement? id = some element) :
    ∃ data,
      cache.elements.get? element.raw = some data ∧
        data.origin = .host id := by
  rw [hostElement?_eq] at hFound
  rcases get?_of_findElement? hFound with ⟨data, hData, hHas⟩
  exact ⟨data, hData, of_decide_eq_true hHas⟩

theorem get?_of_package?
    {name : Name}
    {element : ElementId}
    (hFound : cache.packages.get? name = some element) :
    ∃ data,
      cache.elements.get? element.raw = some data ∧
        data.name = name ∧
        data.kind = .package ∧
        data.origin = .generated := by
  rw [package?_eq] at hFound
  rcases get?_of_findElement? hFound with ⟨data, hData, hHas⟩
  simp only [Bool.and_eq_true, decide_eq_true_eq] at hHas
  exact ⟨data, hData, hHas.1.1, hHas.1.2, hHas.2⟩

theorem element_eq_stale
    {id : ElementId}
    (hNone : cache.elements.get? id.raw = none) :
    cache.element id =
      .error (.violation (.staleHandle (toString id))) := by
  unfold Cache.element
  rw [hNone]

end Reading

------------------------------------------------------------
-- Changes
------------------------------------------------------------

/- A method is live, with some number of parameters. -/
def HasArity
    (cache : Cache)
    (method : ElementId)
    (arity : Nat) : Prop :=
  ∃ data selector params returnType,
    cache.elements.get? method.raw = some data ∧
      data.kind = .executable selector params returnType ∧
      params.length = arity

/-
  A cache in which a generated method gets an executable type,
  which is remembered.
-/
def withExecutable
    (cache : Cache)
    (method : ElementId)
    (types : List TypeId)
    (returnType : TypeId) : Cache :=
  { cache.pushType
      ⟨.executable types returnType, .generated method⟩ with
    executables :=
      (method, ⟨cache.types.next⟩) :: cache.executables }

/- The element of a new parameter. -/
def parameterElement
    (method : ElementId)
    (name : Name)
    (ty : TypeId) : ElementData where
  name
  kind := .variable false
  origin := .generated
  enclosing := some method
  ty := some ty

/-
  A cache in which a method gets a parameter, and its
  executable type is forgotten.
-/
def withParameter
    (cache : Cache)
    (method : ElementId)
    (name : Name)
    (ty : TypeId) : Cache :=
  { (cache.pushElement
        (parameterElement method name ty)).editElement method
      (.parameter ⟨cache.elements.next⟩) with
    executables :=
      cache.executables.filter (·.1 ≠ method) }

/- What was remembered of other methods still is. -/
@[simp] theorem lookup_withParameter
    (cache : Cache)
    (method other : ElementId)
    (name : Name)
    (ty : TypeId) :
    (cache.withParameter method name ty).executables.lookup
        other =
      if other = method then
        none
      else
        cache.executables.lookup other := by
  change (cache.executables.filter (·.1 ≠ method)).lookup
    other = _
  induction cache.executables with
  | nil => simp
  | cons entry entries ih =>
      rcases entry with ⟨found, ty⟩
      by_cases hFound : found = method
      · subst hFound
        rw [List.filter_cons_of_neg (by simp), ih]
        split
        · rfl
        · next hOther =>
          rw [List.lookup_cons, beq_eq_false_iff_ne.mpr hOther]
      · rw [List.filter_cons_of_pos (by simpa using hFound),
          List.lookup_cons, List.lookup_cons, ih]
        by_cases hOther : other = found
        · subst hOther
          simp [hFound]
        · rw [beq_eq_false_iff_ne.mpr hOther]

@[simp] theorem lookup_withExecutable
    (cache : Cache)
    (method other : ElementId)
    (types : List TypeId)
    (returnType : TypeId) :
    (cache.withExecutable method types
        returnType).executables.lookup other =
      if other = method then
        some ⟨cache.types.next⟩
      else
        cache.executables.lookup other := by
  change List.lookup other
    ((method, ⟨cache.types.next⟩) :: cache.executables) = _
  rw [List.lookup_cons]
  by_cases hOther : other = method
  · rw [if_pos hOther, beq_iff_eq.mpr hOther]
  · rw [if_neg hOther, beq_eq_false_iff_ne.mpr hOther]

/- The elements that are there when a method has got one. -/
theorem get?_withParameter
    {cache : Cache}
    {method : ElementId}
    {data : ElementData}
    (hLive : cache.elements.get? method.raw = some data)
    (name : Name)
    (ty : TypeId)
    (handle : Nat) :
    (cache.withParameter method name ty).elements.get? handle =
      if handle = method.raw then
        some { data with
          kind := data.kind.addParameter ⟨cache.elements.next⟩ }
      else if handle = cache.elements.next then
        some (parameterElement method name ty)
      else
        cache.elements.get? handle := by
  have hLow := (Generation.bounds_of_get? hLive).2
  change ((cache.elements.push _).modify method.raw _).get?
    handle = _
  rw [Generation.get?_modify, Generation.get?_push]
  by_cases hMethod : handle = method.raw
  · subst hMethod
    rw [if_pos rfl, if_pos rfl, if_neg (Nat.ne_of_lt hLow),
      hLive, Option.map_some]
    rfl
  · rw [if_neg hMethod, if_neg hMethod]

/-
  What can happen to a cache, apart from a reset: a text is
  interned; a type is made; an element is made; a class is
  declared, that is, an element with a type of its own; a
  generated method gets an executable type; a method gets a
  parameter; an element is modified, but not in its kind.
-/
inductive Change (strict : Prop) : Cache → Cache → Prop
  | text (cache : Cache) (text : String) :
      Change strict cache
        { cache with names := (cache.names.intern text).2 }
  | type
      (cache : Cache)
      (data : TypeData)
      (fresh : strict → ∀ ty, cache.type? ty ≠ some data)
      (unowned : ∀ element, data.origin ≠ .generated element)
      (spelled : ∀ kind,
        data.origin = .host (BindingTable.primitive kind) →
          data.kind = .primitive kind) :
      Change strict cache (cache.pushType data)
  | element
      (cache : Cache)
      (data : ElementData)
      (fresh : strict → ∀ id other,
        cache.elements.get? id = some other →
          other.origin = data.origin →
            data.origin = .generated ∧
              (data.kind = .package →
                other.kind = .package →
                  other.name ≠ data.name)) :
      Change strict cache (cache.pushElement data)
  | declared
      (cache : Cache)
      (name : Name)
      (data : ElementData)
      (generated : data.origin = .generated)
      (class_ : data.kind = .type) :
      Change strict cache
        ((cache.pushType
          ⟨.declared name,
            .generated ⟨cache.elements.next⟩⟩).pushElement data)
  | executable
      (cache : Cache)
      (method : ElementId)
      (types : List TypeId)
      (returnType : TypeId)
      (arity : cache.HasArity method types.length)
      (missing : cache.executables.lookup method = none) :
      Change strict cache
        (cache.withExecutable method types returnType)
  | parameter
      (cache : Cache)
      (method : ElementId)
      (name : Name)
      (ty : TypeId)
      (arity : ∃ arity, cache.HasArity method arity) :
      Change strict cache (cache.withParameter method name ty)
  | modified
      (cache : Cache)
      (id : ElementId)
      (edit : ElementEdit)
      (kept : ∀ data : ElementData,
        cache.elements.get? id.raw = some data →
          data.Kept (edit.apply data))
      (kinds : ∀ data : ElementData,
        (edit.apply data).kind = data.kind) :
      Change strict cache (cache.editElement id edit)

/- Any number of changes, one after the other. -/
def Changes (strict : Prop) : Cache → Cache → Prop :=
  Relation.ReflTransGen (Change strict)

theorem Changes.isHistory (strict : Prop) :
    IsHistory (Changes strict) where
  refl := fun _ => Relation.ReflTransGen.refl
  trans := Relation.ReflTransGen.trans

theorem Change.changes
    {strict : Prop}
    {before after : Cache}
    (hChange : Change strict before after) :
    Changes strict before after :=
  Relation.ReflTransGen.single hChange

/- What is live after a change was live, and is kept. -/
theorem exists_kept_of_modify
    {elements : Generation ElementData}
    {id handle : Nat}
    {change : ElementData → ElementData}
    {data : ElementData}
    (hKept : ∀ data : ElementData,
      elements.get? id = some data → data.Kept (change data))
    (hData : (elements.modify id change).get? handle =
      some data) :
    ∃ old, elements.get? handle = some old ∧ old.Kept data := by
  rw [Generation.get?_modify] at hData
  split at hData
  · next hHandle =>
    rcases Option.map_eq_some_iff.mp hData with ⟨old, hOld, rfl⟩
    exact ⟨old, hOld, hKept old (hHandle ▸ hOld)⟩
  · exact ⟨data, hData, ElementData.Kept.refl data⟩

------------------------------------------------------------
-- Growth
------------------------------------------------------------

/-
  A later state of a cache in the same generation: names,
  types and elements are all still there.
-/
structure Grown (before after : Cache) : Prop where
  names : Interner.Grown before.names after.names
  types : Generation.Grown Eq before.types after.types
  elements : Generation.Grown ElementData.Kept
    before.elements after.elements

namespace Grown

theorem isHistory : IsHistory Grown where
  refl _ := {
    names := Interner.Grown.refl _
    types := Generation.Grown.refl (fun _ => rfl) _
    elements :=
      Generation.Grown.refl ElementData.Kept.refl _ }
  trans hFirst hSecond := {
    names := hFirst.names.trans hSecond.names
    types := Generation.Grown.trans
      (fun _ _ _ => Eq.trans) hFirst.types hSecond.types
    elements := Generation.Grown.trans
      ElementData.Kept.trans hFirst.elements hSecond.elements }

theorem refl (cache : Cache) : Grown cache cache :=
  isHistory.refl cache

theorem trans
    {first second third : Cache}
    (hFirst : Grown first second)
    (hSecond : Grown second third) :
    Grown first third :=
  isHistory.trans hFirst hSecond

variable {before after : Cache}

/- Every live type stays what it is. -/
theorem type?
    (hGrown : Grown before after)
    {ty : TypeId}
    {data : TypeData}
    (hType : before.type? ty = some data) :
    after.type? ty = some data := by
  unfold Cache.type? at hType ⊢
  split at hType
  · next hNone =>
    rw [if_pos hNone]
    exact hType
  · next hNone =>
    rw [if_neg hNone]
    split at hType
    · next hNull =>
      rw [if_pos hNull]
      exact hType
    · next hNull =>
      rw [if_neg hNull]
      rcases hGrown.types.kept _ _ hType with
        ⟨data', hType', hSame⟩
      rw [hSame]
      exact hType'

/- Every live element keeps its name, origin and type. -/
theorem element?
    (hGrown : Grown before after)
    {id : Nat}
    {data : ElementData}
    (hElement : before.elements.get? id = some data) :
    ∃ data',
      after.elements.get? id = some data' ∧ data.Kept data' :=
  hGrown.elements.kept id data hElement

/- A type that was found is found again. -/
theorem findType?
    (hGrown : Grown before after)
    {property : TypeData → Bool}
    {ty : TypeId}
    (hFind : before.findType? property = some ty) :
    after.findType? property = some ty := by
  unfold Cache.findType? at hFind ⊢
  rcases Option.map_eq_some_iff.mp hFind with
    ⟨handle, hHandle, hTy⟩
  have hAgain := hGrown.types.find?
    (fun _ _ => congrArg property) hHandle
  rw [hAgain, ← hTy]
  rfl

/- An element found by what it keeps is found again. -/
theorem findElement?
    (hGrown : Grown before after)
    {property : ElementData → Bool}
    (hProperty : ∀ old new : ElementData,
      old.Kept new → property old = property new)
    {id : ElementId}
    (hFind : before.findElement? property = some id) :
    after.findElement? property = some id := by
  unfold Cache.findElement? at hFind ⊢
  rcases Option.map_eq_some_iff.mp hFind with
    ⟨handle, hHandle, hId⟩
  have hAgain := hGrown.elements.find? hProperty hHandle
  rw [hAgain, ← hId]
  rfl

/- What an index answers, it answers again. -/
theorem typeOf?
    (hGrown : Grown before after)
    {id : BindingId}
    {ty : TypeId}
    (hType : before.typeOf? id = some ty) :
    after.typeOf? id = some ty := by
  rw [typeOf?_eq] at hType ⊢
  exact hGrown.findType? hType

theorem executableOf?
    (hGrown : Grown before after)
    {id : BindingId}
    {ty : TypeId}
    (hType : before.executableOf? id = some ty) :
    after.executableOf? id = some ty := by
  rw [executableOf?_eq] at hType ⊢
  exact hGrown.findType? hType

theorem shape?
    (hGrown : Grown before after)
    {kind : TypeKind}
    {ty : TypeId}
    (hType : before.shapes.get? kind = some ty) :
    after.shapes.get? kind = some ty := by
  rw [shape?_eq] at hType ⊢
  exact hGrown.findType? hType

theorem hostElement?
    (hGrown : Grown before after)
    {id : BindingId}
    {element : ElementId}
    (hElement : before.hostElement? id = some element) :
    after.hostElement? id = some element := by
  rw [hostElement?_eq] at hElement ⊢
  apply hGrown.findElement? ?_ hElement
  intro old new hKept
  rw [hKept.origin]

theorem package?
    (hGrown : Grown before after)
    {name : Name}
    {element : ElementId}
    (hElement : before.packages.get? name = some element) :
    after.packages.get? name = some element := by
  rw [package?_eq] at hElement ⊢
  apply hGrown.findElement? ?_ hElement
  intro old new hKept
  rw [hKept.origin, hKept.name,
    decide_eq_decide.mpr hKept.isPackage]

end Grown

/- A method may get parameters. -/
theorem kept_addParameter
    (param : ElementId)
    (data : ElementData) :
    data.Kept
      { data with kind := data.kind.addParameter param } := by
  refine ⟨rfl, rfl, rfl, rfl, rfl, ?_, Or.inl rfl⟩
  cases hKind : data.kind <;> constructor

theorem grown_editElement
    {cache : Cache}
    {id : ElementId}
    {edit : ElementEdit}
    (hKept : ∀ data : ElementData,
      cache.elements.get? id.raw = some data →
        data.Kept (edit.apply data)) :
    Grown cache (cache.editElement id edit) where
  names := Interner.Grown.refl _
  types := Generation.Grown.refl (fun _ => rfl) _
  elements :=
    Generation.Grown.modify ElementData.Kept.refl _ _ hKept

/- What is remembered of methods is no wrapper. -/
theorem grown_executables
    (cache : Cache)
    (executables : List (ElementId × TypeId)) :
    Grown cache { cache with executables } where
  names := Interner.Grown.refl _
  types := Generation.Grown.refl (fun _ => rfl) _
  elements := Generation.Grown.refl ElementData.Kept.refl _

theorem grown_withParameter
    (cache : Cache)
    (method : ElementId)
    (name : Name)
    (ty : TypeId) :
    Grown cache (cache.withParameter method name ty) where
  names := Interner.Grown.refl _
  types := Generation.Grown.refl (fun _ => rfl) _
  elements := Generation.Grown.trans ElementData.Kept.trans
    (Generation.Grown.push ElementData.Kept.refl _ _)
    (Generation.Grown.modify ElementData.Kept.refl _ _
      fun data _ => kept_addParameter _ data)

/- A change loses nothing. -/
theorem Change.grown
    {strict : Prop}
    {before after : Cache}
    (hChange : Change strict before after) :
    Grown before after := by
  have hTypes : Generation.Grown Eq before.types before.types :=
    Generation.Grown.refl (fun _ => rfl) _
  have hElements := Generation.Grown.refl
    ElementData.Kept.refl before.elements
  have hNames := Interner.Grown.refl before.names
  cases hChange with
  | text text =>
      exact ⟨Interner.Grown.intern _ _, hTypes, hElements⟩
  | type data _ _ _ =>
      exact ⟨hNames,
        Generation.Grown.push (fun _ => rfl) _ _, hElements⟩
  | element data _ =>
      exact ⟨hNames, hTypes,
        Generation.Grown.push ElementData.Kept.refl _ _⟩
  | declared name data _ _ =>
      exact ⟨hNames,
        Generation.Grown.push (fun _ => rfl) _ _,
        Generation.Grown.push ElementData.Kept.refl _ _⟩
  | executable method types returnType _ _ =>
      exact ⟨hNames,
        Generation.Grown.push (fun _ => rfl) _ _, hElements⟩
  | parameter method name ty _ =>
      exact grown_withParameter before method name ty
  | modified id edit hKept _ => exact grown_editElement hKept

/- Nothing is lost from a cache until it is reset. -/
theorem Changes.grown
    {strict : Prop}
    {before after : Cache}
    (hChanges : Changes strict before after) :
    Grown before after := by
  induction hChanges with
  | refl => exact Grown.refl _
  | tail _ hChange ih => exact ih.trans hChange.grown

end Cache

end Lowering
