import Lowering.Cache.WrapElement

/-
  This file proves that the indexes of a cache answer as a
  search among the live wrappers does: with the least handle
  of a wrapper that is of the binding, the shape or the name.

  It is true of every cache, however it came about, since no
  wrapper is pushed, changed or dropped without its index.

  Main results:
    * `Cache.typeOf?_eq`
    * `Cache.executableOf?_eq`
    * `Cache.shape?_eq`
    * `Cache.hostElement?_eq`
    * `Cache.package?_eq`
-/

namespace Lowering

namespace TypeData

theorem wrapped?_eq_some_iff
    {data : TypeData}
    {id : BindingId} :
    data.wrapped? = some id ↔
      data.origin = .host id ∧ data.kind.isExecutable = false := by
  rcases data with ⟨kind, _ | _ | _⟩ <;>
    cases hKind : kind.isExecutable <;>
      simp [wrapped?, hKind]

theorem wrappedMethod?_eq_some_iff
    {data : TypeData}
    {id : BindingId} :
    data.wrappedMethod? = some id ↔
      data.origin = .host id ∧ data.kind.isExecutable = true := by
  rcases data with ⟨kind, _ | _ | _⟩ <;>
    cases hKind : kind.isExecutable <;>
      simp [wrappedMethod?, hKind]

theorem shape?_eq_some_iff
    {data : TypeData}
    {kind : TypeKind} :
    data.shape? = some kind ↔ data = ⟨kind, .synthetic⟩ := by
  rcases data with ⟨_, _ | _ | _⟩ <;> simp [shape?]

end TypeData

namespace ElementData

theorem wrapped?_eq_some_iff
    {data : ElementData}
    {id : BindingId} :
    data.wrapped? = some id ↔ data.origin = .host id := by
  unfold wrapped?
  cases data.origin <;> simp

theorem package?_eq_some_iff
    {data : ElementData}
    {name : Name} :
    data.package? = some name ↔
      data.name = name ∧ data.kind = .package ∧
        data.origin = .generated := by
  unfold package?
  cases data.origin <;> cases data.kind <;> simp

end ElementData

namespace Cache

variable (cache : Cache)

------------------------------------------------------------
-- Pushing And Changing
------------------------------------------------------------

@[simp] theorem names_pushType (data : TypeData) :
    (cache.pushType data).names = cache.names :=
  rfl

@[simp] theorem types_pushType (data : TypeData) :
    (cache.pushType data).types = cache.types.push data :=
  rfl

@[simp] theorem elements_pushType (data : TypeData) :
    (cache.pushType data).elements = cache.elements :=
  rfl

@[simp] theorem executables_pushType (data : TypeData) :
    (cache.pushType data).executables = cache.executables :=
  rfl

@[simp] theorem names_pushElement (data : ElementData) :
    (cache.pushElement data).names = cache.names :=
  rfl

@[simp] theorem types_pushElement (data : ElementData) :
    (cache.pushElement data).types = cache.types :=
  rfl

@[simp] theorem elements_pushElement (data : ElementData) :
    (cache.pushElement data).elements =
      cache.elements.push data :=
  rfl

@[simp] theorem executables_pushElement (data : ElementData) :
    (cache.pushElement data).executables = cache.executables :=
  rfl

@[simp] theorem names_editElement
    (id : ElementId) (edit : ElementEdit) :
    (cache.editElement id edit).names = cache.names :=
  rfl

@[simp] theorem types_editElement
    (id : ElementId) (edit : ElementEdit) :
    (cache.editElement id edit).types = cache.types :=
  rfl

@[simp] theorem elements_editElement
    (id : ElementId) (edit : ElementEdit) :
    (cache.editElement id edit).elements =
      cache.elements.modify id.raw edit.apply :=
  rfl

@[simp] theorem executables_editElement
    (id : ElementId) (edit : ElementEdit) :
    (cache.editElement id edit).executables =
      cache.executables :=
  rfl

------------------------------------------------------------
-- Searching
------------------------------------------------------------

theorem typeOf?_eq (id : BindingId) :
    cache.typeOf? id = cache.findType? fun data =>
      data.origin = .host id && !data.kind.isExecutable := by
  unfold typeOf? findType?
  rw [cache.wrappedTypes_lists]
  congr 2
  funext data
  rw [Bool.eq_iff_iff]
  simp [TypeData.wrapped?_eq_some_iff]

theorem executableOf?_eq (id : BindingId) :
    cache.executableOf? id = cache.findType? fun data =>
      data.origin = .host id && data.kind.isExecutable := by
  unfold executableOf? findType?
  rw [cache.wrappedMethods_lists]
  congr 2
  funext data
  rw [Bool.eq_iff_iff]
  simp [TypeData.wrappedMethod?_eq_some_iff]

theorem shape?_eq (kind : TypeKind) :
    cache.shapes.get? kind =
      cache.findType? (· = ⟨kind, .synthetic⟩) := by
  unfold findType?
  rw [cache.shapes_lists]
  congr 2
  funext data
  rw [Bool.eq_iff_iff]
  simp [TypeData.shape?_eq_some_iff]

theorem hostElement?_eq (id : BindingId) :
    cache.hostElement? id =
      cache.findElement? (·.origin = .host id) := by
  unfold hostElement? findElement?
  rw [cache.wrappedElements_lists]
  congr 2
  funext data
  rw [Bool.eq_iff_iff]
  simp [ElementData.wrapped?_eq_some_iff]

theorem package?_eq (name : Name) :
    cache.packages.get? name = cache.findElement? fun data =>
      data.name = name && data.kind = .package &&
        data.origin = .generated := by
  unfold findElement?
  rw [cache.packages_lists]
  congr 2
  funext data
  rw [Bool.eq_iff_iff]
  simp [ElementData.package?_eq_some_iff, and_assoc]

end Cache

end Lowering
