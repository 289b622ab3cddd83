import Mathlib.Data.List.TakeWhile
import Lowering.Proofs.Cache.Coherence

/-
  This file defines when an element that wraps a host binding
  says what the table says: name, kind, type, modifiers,
  declarer and annotations are those of the binding, in terms
  of the wrappers that are there now. It proves that wrapping
  a binding makes such an element.

  Of what an element is made may stem from different calls,
  some of which failed. It is enough that an element mirrors
  its binding when it is made, and that a mirror stays one as
  the cache grows.

  Key definitions include:
    * `HostBinding.Names`
    * `Cache.Classed`
    * `Cache.Mirrors`
    * `Cache.Mirroring`

  Main results:
    * `isLastSegment_simpleName`
    * `Cache.Mirrors.mono`
    * `Cache.Mirroring.mirrored`
    * `Cache.mirroring_wrapHostElement`
-/

namespace Lowering

------------------------------------------------------------
-- Facts Of A Binding
------------------------------------------------------------

/-
  A text is the last segment of a qualified name: it has no
  dot, and what stands before it ends with one.
-/
def IsLastSegment (qualified segment : String) : Prop :=
  '.' ∉ segment.toList ∧
    (qualified = segment ∨
      ∃ front, qualified = front ++ "." ++ segment)

/- The part of a text behind its last dot. -/
theorem isLastSegment_simpleName (qualified : String) :
    IsLastSegment qualified (Cache.simpleName qualified) := by
  let letters := qualified.toList.reverse
  have hSegment : (Cache.simpleName qualified).toList =
      (letters.takeWhile (· ≠ '.')).reverse := by
    simp [Cache.simpleName, letters]
  constructor
  · intro hDot
    rw [hSegment, List.mem_reverse] at hDot
    simpa using List.mem_takeWhile_imp hDot
  · have hWhole : qualified.toList =
        (letters.dropWhile (· ≠ '.')).reverse ++
          (Cache.simpleName qualified).toList := by
      rw [hSegment, ← List.reverse_append,
        List.takeWhile_append_dropWhile, List.reverse_reverse]
    cases hRest : letters.dropWhile (· ≠ '.') with
    | nil =>
        left
        apply String.toList_injective
        rw [hWhole, hRest]
        rfl
    | cons letter rest =>
        right
        have hDot : letter = '.' := by
          have hStop := List.dropWhile_get_zero_not
            (fun letter => decide (letter ≠ '.')) letters
            (by rw [hRest]; exact Nat.succ_pos _)
          simp only [hRest, List.get_eq_getElem,
            List.getElem_cons_zero] at hStop
          simpa using hStop
        refine ⟨String.ofList rest.reverse, ?_⟩
        apply String.toList_injective
        rw [hWhole, hRest, hDot]
        simp

namespace HostBinding

/- What the host says of modifiers; packages have none. -/
def modifiers : HostBinding → Modifiers
  | .type binding => binding.modifiers
  | .method binding => binding.modifiers
  | .variable binding => binding.modifiers
  | .package _ | .annotationUse _ => {}

/- The binding that declares a binding, if one does. -/
def declaring : HostBinding → Option BindingId
  | .type binding => binding.declaring
  | .method binding => binding.declaring
  | .variable binding => binding.declaring
  | .package _ | .annotationUse _ => none

def annotations : HostBinding → List BindingId
  | .type binding => binding.annotations
  | .method binding => binding.annotations
  | .variable binding => binding.annotations
  | .package _ | .annotationUse _ => []

/-
  What the element of a binding is called: a type by the last
  segment of its name, everything else by its name.
-/
def Names : HostBinding → String → Prop
  | .type binding, text => IsLastSegment binding.name text
  | host, text => text = host.name

end HostBinding

namespace Cache

variable {table : BindingTable}

------------------------------------------------------------
-- Mirrors
------------------------------------------------------------

/- An annotation binding with the type that wraps its type. -/
def use?
    (cache : Cache)
    (table : BindingTable)
    (id : BindingId) : Option AnnotationUse :=
  match table.get? id with
  | some (.annotationUse annotationType) =>
    (cache.typeOf? annotationType).map fun ty => ⟨id, ty⟩
  | _ => none

/-
  The kind and the type of an element are those of its
  binding: the type of a type is its wrapper, that of a method
  its executable type, and that of a variable the wrapper of
  its type, if it has one.
-/
inductive Classed (cache : Cache) (id : BindingId) :
    HostBinding → ElementKind → Option TypeId → Prop
  | type
      {binding : TypeBinding}
      {ty : TypeId}
      (flag : binding.flags.isTypeVariable = false)
      (wrapped : cache.typeOf? id = some ty) :
      Classed cache id (.type binding) .type (some ty)
  | typeParameter
      {binding : TypeBinding}
      {ty : TypeId}
      (flag : binding.flags.isTypeVariable = true)
      (wrapped : cache.typeOf? id = some ty) :
      Classed cache id (.type binding) .typeParameter (some ty)
  | method
      {binding : MethodBinding}
      {ty returnType : TypeId}
      (params : List ElementId)
      (wrapped : cache.executableOf? id = some ty)
      (returned : cache.returned? binding = some returnType) :
      Classed cache id (.method binding)
        (.executable none params returnType) (some ty)
  | variable
      {binding : VariableBinding}
      {ty : Option TypeId}
      (wrapped : binding.ty.mapM cache.typeOf? = some ty) :
      Classed cache id (.variable binding)
        (.variable binding.isField) ty
  | package (name : String) :
      Classed cache id (.package name) .package none

/- An element says of itself what the table says. -/
structure Mirrors
    (cache : Cache)
    (table : BindingTable)
    (id : BindingId)
    (host : HostBinding)
    (data : ElementData) : Prop where
  bound : table.get? id = some host
  origin : data.origin = .host id
  modifiers : data.modifiers = host.modifiers
  named : ∃ text, host.Names text ∧
    cache.names.text? data.name = some text
  enclosing :
    host.declaring.mapM cache.hostElement? = some data.enclosing
  classed : cache.Classed id host data.kind data.ty
  annotated : data.kind ≠ .package →
    host.annotations.mapM (cache.use? table) =
      some data.annotations

/- Every live element of a host binding mirrors it. -/
def Mirrored (cache : Cache) (table : BindingTable) : Prop :=
  ∀ handle data id,
    cache.elements.get? handle = some data →
      data.origin = .host id →
        ∃ host, cache.Mirrors table id host data

------------------------------------------------------------
-- Growth
------------------------------------------------------------

section Growth

variable {before after : Cache}

theorem use?_mono
    (hGrown : Grown before after)
    {id : BindingId}
    {use : AnnotationUse}
    (hUse : before.use? table id = some use) :
    after.use? table id = some use := by
  unfold use? at hUse ⊢
  split at hUse
  · rcases Option.map_eq_some_iff.mp hUse with ⟨ty, hType, rfl⟩
    rw [hGrown.typeOf? hType]
    rfl
  · cases hUse

/- An answer for what may be left out is kept if it is given. -/
private theorem optionMapM_mono
    {α β : Type}
    {find later : α → Option β}
    (hMono : ∀ item found,
      find item = some found → later item = some found)
    {item : Option α}
    {found : Option β}
    (hFound : item.mapM find = some found) :
    item.mapM later = some found := by
  cases item with
  | none => exact hFound
  | some item =>
      rcases Option.map_eq_some_iff.mp hFound with
        ⟨answer, hAnswer, rfl⟩
      exact Option.map_eq_some_iff.mpr
        ⟨answer, hMono item answer hAnswer, rfl⟩

/- A method may get parameters. -/
private theorem Classed.mono
    (hGrown : Grown before after)
    {id : BindingId}
    {host : HostBinding}
    {kind kind' : ElementKind}
    {ty : Option TypeId}
    (hExtended : kind.Extended kind')
    (hClassed : before.Classed id host kind ty) :
    after.Classed id host kind' ty := by
  cases hClassed with
  | type hFlag hWrapped =>
      cases hExtended
      exact .type hFlag (hGrown.typeOf? hWrapped)
  | typeParameter hFlag hWrapped =>
      cases hExtended
      exact .typeParameter hFlag (hGrown.typeOf? hWrapped)
  | method params hWrapped hReturned =>
      have hWrapped := hGrown.executableOf? hWrapped
      have hReturned := returned?_mono hGrown hReturned
      cases hExtended with
      | same => exact .method params hWrapped hReturned
      | parameters _ _ added _ =>
          exact .method (params ++ added) hWrapped hReturned
  | «variable» hWrapped =>
      cases hExtended
      exact .variable (optionMapM_mono
        (fun _ _ => hGrown.typeOf?) hWrapped)
  | package name =>
      cases hExtended
      exact .package name

/- A mirror stays one until the cache is reset. -/
theorem Mirrors.mono
    (hGrown : Grown before after)
    {id : BindingId}
    {host : HostBinding}
    {data data' : ElementData}
    (hMirrors : before.Mirrors table id host data)
    (hKept : data.Kept data') :
    after.Mirrors table id host data' where
  bound := hMirrors.bound
  origin := hKept.origin.trans hMirrors.origin
  modifiers := hKept.modifiers.trans hMirrors.modifiers
  named := by
    rcases hMirrors.named with ⟨text, hNames, hText⟩
    refine ⟨text, hNames, ?_⟩
    rw [hKept.name]
    exact hGrown.names _ _ hText
  enclosing := by
    rw [hKept.enclosing]
    exact optionMapM_mono (fun _ _ => hGrown.hostElement?)
      hMirrors.enclosing
  classed := by
    rw [hKept.ty]
    exact hMirrors.classed.mono hGrown hKept.kind
  annotated := by
    intro hKind
    rcases hKept.annotations with hSame | ⟨hPackage, _⟩
    · have hOld : data.kind ≠ .package :=
        fun hOld => hKind (hKept.isPackage.mpr hOld)
      rw [hSame]
      exact mapM_mono (fun _ _ => use?_mono hGrown)
        (hMirrors.annotated hOld)
    · exact absurd (hKept.isPackage.mpr hPackage) hKind

theorem use?_overTable
    {cache : Cache}
    {table' : BindingTable}
    (hTable : ∀ id host,
      table.get? id = some host → table'.get? id = some host)
    {id : BindingId}
    {use : AnnotationUse}
    (hUse : cache.use? table id = some use) :
    cache.use? table' id = some use := by
  unfold use? at hUse ⊢
  split at hUse
  · next annotationType hGet =>
    rw [hTable _ _ hGet]
    exact hUse
  · cases hUse

/- What a table says, a grown one does too. -/
theorem Mirrors.overTable
    {cache : Cache}
    {table' : BindingTable}
    (hTable : ∀ id host,
      table.get? id = some host → table'.get? id = some host)
    {id : BindingId}
    {host : HostBinding}
    {data : ElementData}
    (hMirrors : cache.Mirrors table id host data) :
    cache.Mirrors table' id host data := by
  refine { hMirrors with
    bound := hTable _ _ hMirrors.bound
    annotated := ?_ }
  intro hKind
  exact mapM_mono (fun _ _ => use?_overTable hTable)
    (hMirrors.annotated hKind)

/-
  The cache grew, and the elements of the host that were made
  mirror their bindings.
-/
structure Mirroring
    (table : BindingTable)
    (before after : Cache) : Prop where
  grown : Grown before after
  made : ∀ handle data id,
    after.elements.get? handle = some data →
      data.origin = .host id →
        (∃ old, before.elements.get? handle = some old ∧
          old.Kept data) ∨
        ∃ host, after.Mirrors table id host data

theorem Mirroring.isHistory (table : BindingTable) :
    IsHistory (Mirroring table) where
  refl cache := {
    grown := Grown.refl cache
    made := fun _ data _ hElement _ =>
      Or.inl ⟨data, hElement, ElementData.Kept.refl data⟩ }
  trans hFirst hSecond := {
    grown := hFirst.grown.trans hSecond.grown
    made := by
      intro handle data id hElement hOrigin
      rcases hSecond.made handle data id hElement hOrigin with
        ⟨middle, hMiddle, hKept⟩ | hMirrors
      · have hHost : middle.origin = .host id :=
          hKept.origin.symm.trans hOrigin
        rcases hFirst.made handle middle id hMiddle hHost with
          ⟨old, hOld, hKept'⟩ | ⟨host, hMirrors⟩
        · exact Or.inl ⟨old, hOld, .trans _ _ _ hKept' hKept⟩
        · exact Or.inr ⟨host, hMirrors.mono hSecond.grown hKept⟩
      · exact Or.inr hMirrors }

/- Mirrors stay mirrors, and what is made is one. -/
theorem Mirroring.mirrored
    (hMirroring : Mirroring table before after)
    (hMirrored : before.Mirrored table) :
    after.Mirrored table := by
  intro handle data id hElement hOrigin
  rcases hMirroring.made handle data id hElement hOrigin with
    ⟨old, hOld, hKept⟩ | hMirrors
  · have hHost : old.origin = .host id :=
      hKept.origin.symm.trans hOrigin
    rcases hMirrored handle old id hOld hHost with
      ⟨host, hMirrors⟩
    exact ⟨host, hMirrors.mono hMirroring.grown hKept⟩
  · exact hMirrors

theorem TypesOnly.mirroring
    {strict : Prop}
    (hTypes : TypesOnly strict before after) :
    Mirroring table before after := by
  refine ⟨hTypes.changes.grown, ?_⟩
  intro handle data id hElement _
  rw [hTypes.elements] at hElement
  exact Or.inl ⟨data, hElement, ElementData.Kept.refl data⟩

/- One element was made; one of the host mirrors its binding. -/
private theorem mirroring_push
    {data : ElementData}
    (hGrown : Grown before after)
    (hElements : after.elements = before.elements.push data)
    (hData : ∀ id, data.origin = .host id →
      ∃ host, before.Mirrors table id host data) :
    Mirroring table before after := by
  refine ⟨hGrown, ?_⟩
  intro handle found id hElement hOrigin
  rw [hElements, Generation.get?_push] at hElement
  split at hElement
  · cases hElement
    rcases hData id hOrigin with ⟨host, hMirrors⟩
    exact Or.inr ⟨host, hMirrors.mono hGrown (.refl data)⟩
  · exact Or.inl ⟨found, hElement, ElementData.Kept.refl found⟩

end Growth

------------------------------------------------------------
-- Making Elements
------------------------------------------------------------

section Describe

variable {cache : Cache}

/- What makes types only mirrors, whatever it answers. -/
private theorem mirroring_of_typesOnly
    {α : Type}
    {operation : CacheM α}
    {Promise : α → Cache → Prop}
    (hRun : Follows (TypesOnly True) operation cache)
    (hAnswer : ∀ answer after,
      operation cache = .ok answer after →
        Promise answer after) :
    Behaves (Mirroring table) (fun _ => True) operation cache
      Promise where
  follows := hRun.mono fun _ _ hTypes => hTypes.mirroring
  answer := hAnswer
  failure := fun _ _ _ => trivial

theorem mirroring_intern (text : String) :
    Behaves (Mirroring table) (fun _ => True) (intern text)
      cache
      fun name after => after.names.text? name = some text := by
  apply mirroring_of_typesOnly (typesOnly_intern text cache)
  intro name after hRun
  cases hRun
  exact Interner.text?_of_find?
    (Interner.find?_intern cache.names text)

private theorem mirroring_wrapHostType
    (hAcyclic : table.Acyclic)
    (id : BindingId) :
    Behaves (Mirroring table) (fun _ => True)
      (wrapHostType table id) cache
      fun ty after => after.typeOf? id = some ty :=
  mirroring_of_typesOnly
    (typesOnly_wrapHostType (fun _ => hAcyclic) id cache)
    fun _ _ hRun => typeOf?_of_wrapHostType hAcyclic hRun

private theorem mirroring_wrapExecutable
    (hAcyclic : table.Acyclic)
    (id : BindingId) :
    Behaves (Mirroring table) (fun _ => True)
      (wrapExecutable table id) cache
      fun ty after => after.executableOf? id = some ty :=
  mirroring_of_typesOnly
    (follows_wrapExecutable (fun _ => hAcyclic) id cache)
    fun _ _ hRun => executableOf?_of_wrapExecutable hRun

/- The return type is found as that of the executable type. -/
private theorem mirroring_wrapReturnType
    (hAcyclic : table.Acyclic)
    (binding : MethodBinding) :
    Behaves (Mirroring table) (fun _ => True)
      (wrapReturnType table binding) cache
      fun ty after => after.returned? binding = some ty := by
  unfold wrapReturnType returned?
  cases binding.returnType with
  | none => exact .pure (Mirroring.isHistory table) rfl
  | some id => exact mirroring_wrapHostType hAcyclic id

theorem get?_of_annotationType
    {id annotationType : BindingId}
    (hNoted : table.annotationType id =
      .ok annotationType) :
    table.get? id = some (.annotationUse annotationType) := by
  unfold BindingTable.annotationType at hNoted
  split at hNoted
  · next hGet =>
    cases hNoted
    exact hGet
  · cases hNoted

private theorem mirroring_wrapUses
    (hAcyclic : table.Acyclic)
    (annotations : List BindingId) :
    Behaves (Mirroring table) (fun _ => True)
      (wrapUses table annotations) cache
      fun found after =>
        annotations.mapM (after.use? table) = some found := by
  have hFound : Orderly table False (wrapUses table annotations)
      cache fun found after =>
        annotations.mapM (after.use? table) = some found := by
    unfold wrapUses
    refine Orderly.mapM ?_ annotations ?_ cache
    · intro before after hGrown id use hUse
      exact use?_mono hGrown hUse
    intro id _ cache
    unfold wrapUse
    apply (Orderly.consult (table.annotationType id)).bind
    rintro annotationType _ _ _ ⟨rfl, hNoted⟩
    apply (orderly_wrapHostType hAcyclic annotationType _).bind
    intro ty after _ _ hType
    apply Orderly.pure
    unfold use?
    rw [get?_of_annotationType hNoted]
    simp only [hType, Option.map_some]
  exact mirroring_of_typesOnly
    (follows_wrapUses (fun _ => hAcyclic) annotations cache)
    hFound.answer

section Host

variable {wrap : BindingId → CacheM ElementId}
variable {id : BindingId}

/- What a declarer is wrapped as is found for it. -/
private theorem mirroring_declaring
    (declaring : Option BindingId)
    (hWrap : ∀ owner, declaring = some owner →
      Behaves (Mirroring table) (fun _ => True) (wrap owner)
        cache
        fun element after =>
          after.hostElement? owner = some element) :
    Behaves (Mirroring table) (fun _ => True)
      (declaring.mapM wrap) cache
      fun found after =>
        declaring.mapM after.hostElement? = some found := by
  have hHistory := Mirroring.isHistory table
  cases declaring with
  | none => exact .pure hHistory rfl
  | some owner =>
      apply Behaves.map hHistory
      apply (hWrap owner rfl).promise
      intro element after _ hElement
      exact Option.map_eq_some_iff.mpr ⟨element, hElement, rfl⟩

private theorem mirroring_describeType
    (hAcyclic : table.Acyclic)
    {binding : TypeBinding}
    (hGet : table.get? id = some (.type binding))
    (hWrap : ∀ owner, binding.declaring = some owner →
      ∀ cache, Behaves (Mirroring table) (fun _ => True)
        (wrap owner) cache
        fun element after =>
          after.hostElement? owner = some element) :
    Behaves (Mirroring table) (fun _ => True)
      (describeType table wrap id binding) cache
      fun data after =>
        after.Mirrors table id (.type binding) data := by
  have hHistory := Mirroring.isHistory table
  unfold describeType
  apply (mirroring_intern _).bind hHistory
  intro name cache₁ _ _ hName
  apply (mirroring_declaring binding.declaring
    fun owner hOwner => hWrap owner hOwner cache₁).bind hHistory
  intro enclosing cache₂ _ hStep₂ hEnclosing
  apply (mirroring_wrapHostType hAcyclic id).bind hHistory
  intro ty cache₃ _ hStep₃ hType
  apply (mirroring_wrapUses hAcyclic binding.annotations).bind
    hHistory
  intro annotations cache₄ _ hStep₄ hUses
  apply Behaves.pure hHistory
  have hGrown₃ := hStep₃.grown.trans hStep₄.grown
  refine {
    bound := hGet
    origin := rfl
    modifiers := rfl
    named := ⟨_, isLastSegment_simpleName binding.name,
      hGrown₃.names _ _ (hStep₂.grown.names _ _ hName)⟩
    enclosing := optionMapM_mono
      (fun _ _ => hGrown₃.hostElement?) hEnclosing
    classed := ?_
    annotated := fun _ => hUses }
  have hType := hStep₄.grown.typeOf? hType
  cases hFlag : binding.flags.isTypeVariable with
  | false => exact .type hFlag hType
  | true => exact .typeParameter hFlag hType

private theorem mirroring_describeMethod
    (hAcyclic : table.Acyclic)
    {binding : MethodBinding}
    (hGet : table.get? id = some (.method binding))
    (hWrap : ∀ owner, binding.declaring = some owner →
      ∀ cache, Behaves (Mirroring table) (fun _ => True)
        (wrap owner) cache
        fun element after =>
          after.hostElement? owner = some element) :
    Behaves (Mirroring table) (fun _ => True)
      (describeMethod table wrap id binding) cache
      fun data after =>
        after.Mirrors table id (.method binding) data := by
  have hHistory := Mirroring.isHistory table
  unfold describeMethod
  apply (mirroring_declaring binding.declaring
    fun owner hOwner => hWrap owner hOwner cache).bind hHistory
  intro enclosing cache₁ _ _ hEnclosing
  apply (mirroring_wrapExecutable hAcyclic id).bind hHistory
  intro ty cache₂ _ hStep₂ hType
  apply (mirroring_wrapReturnType hAcyclic binding).bind hHistory
  intro returnType cache₃ _ hStep₃ hReturn
  apply (mirroring_intern binding.name).bind hHistory
  intro name cache₄ _ hStep₄ hName
  apply (mirroring_wrapUses hAcyclic binding.annotations).bind
    hHistory
  intro annotations cache₅ _ hStep₅ hUses
  apply Behaves.pure hHistory
  have hGrown₄ := hStep₄.grown.trans hStep₅.grown
  have hGrown₃ := hStep₃.grown.trans hGrown₄
  have hGrown₂ := hStep₂.grown.trans hGrown₃
  exact {
    bound := hGet
    origin := rfl
    modifiers := rfl
    named := ⟨_, rfl, hStep₅.grown.names _ _ hName⟩
    enclosing := optionMapM_mono
      (fun _ _ => hGrown₂.hostElement?) hEnclosing
    classed := .method [] (hGrown₃.executableOf? hType)
      (returned?_mono hGrown₄ hReturn)
    annotated := fun _ => hUses }

private theorem mirroring_describeVariable
    (hAcyclic : table.Acyclic)
    {binding : VariableBinding}
    (hGet : table.get? id = some (.variable binding))
    (hWrap : ∀ owner, binding.declaring = some owner →
      ∀ cache, Behaves (Mirroring table) (fun _ => True)
        (wrap owner) cache
        fun element after =>
          after.hostElement? owner = some element) :
    Behaves (Mirroring table) (fun _ => True)
      (describeVariable table wrap id binding) cache
      fun data after =>
        after.Mirrors table id (.variable binding) data := by
  have hHistory := Mirroring.isHistory table
  have hWrapped : Behaves (Mirroring table) (fun _ => True)
      (binding.ty.mapM (wrapHostType table)) cache
      fun ty after =>
        binding.ty.mapM after.typeOf? = some ty := by
    cases binding.ty with
    | none => exact .pure hHistory rfl
    | some type =>
        apply Behaves.map hHistory
        apply (mirroring_wrapHostType hAcyclic type).promise
        intro ty after _ hType
        exact Option.map_eq_some_iff.mpr ⟨ty, hType, rfl⟩
  unfold describeVariable
  apply hWrapped.bind hHistory
  intro ty cache₁ _ _ hType
  apply (mirroring_intern binding.name).bind hHistory
  intro name cache₂ _ hStep₂ hName
  apply (mirroring_declaring binding.declaring
    fun owner hOwner => hWrap owner hOwner cache₂).bind hHistory
  intro enclosing cache₃ _ hStep₃ hEnclosing
  apply (mirroring_wrapUses hAcyclic binding.annotations).bind
    hHistory
  intro annotations cache₄ _ hStep₄ hUses
  apply Behaves.pure hHistory
  have hGrown₃ := hStep₃.grown.trans hStep₄.grown
  have hGrown₂ := hStep₂.grown.trans hGrown₃
  exact {
    bound := hGet
    origin := rfl
    modifiers := rfl
    named := ⟨_, rfl, hGrown₃.names _ _ hName⟩
    enclosing := optionMapM_mono
      (fun _ _ => hStep₄.grown.hostElement?) hEnclosing
    classed := .variable (optionMapM_mono
      (fun _ _ => hGrown₂.typeOf?) hType)
    annotated := fun _ => hUses }

/- What is described mirrors the binding. -/
private theorem mirroring_describeHost
    (hAcyclic : table.Acyclic)
    (hWrap : ∀ owner cache,
      Behaves (Mirroring table) (fun _ => True) (wrap owner)
        cache
        fun element after =>
          after.hostElement? owner = some element) :
    Behaves (Mirroring table) (fun _ => True)
      (describeHost table wrap id) cache
      fun data after =>
        ∃ host, after.Mirrors table id host data := by
  have hHistory := Mirroring.isHistory table
  unfold describeHost
  cases hGet : table.get? id with
  | none => exact .throw hHistory trivial
  | some host =>
      cases host with
      | type binding =>
          apply (mirroring_describeType hAcyclic hGet
            fun owner _ => hWrap owner).promise
          exact fun _ _ _ hMirrors => ⟨_, hMirrors⟩
      | method binding =>
          apply (mirroring_describeMethod hAcyclic hGet
            fun owner _ => hWrap owner).promise
          exact fun _ _ _ hMirrors => ⟨_, hMirrors⟩
      | «variable» binding =>
          apply (mirroring_describeVariable hAcyclic hGet
            fun owner _ => hWrap owner).promise
          exact fun _ _ _ hMirrors => ⟨_, hMirrors⟩
      | package name =>
          simp only [describePackage]
          apply (mirroring_intern name).bind hHistory
          intro found after _ _ hName
          apply Behaves.pure hHistory
          exact ⟨.package name, {
            bound := hGet
            origin := rfl
            modifiers := rfl
            named := ⟨name, rfl, hName⟩
            enclosing := rfl
            classed := .package name
            annotated := fun hKind => absurd rfl hKind }⟩
      | annotationUse type => exact .throw hHistory trivial

end Host

end Describe

theorem mirroring_addElement
    {cache : Cache}
    {data : ElementData}
    (hData : ∀ id, data.origin = .host id →
      ∃ host, cache.Mirrors table id host data) :
    Follows (Mirroring table) (addElement data) cache := by
  have hChange : Change False cache (cache.pushElement data) :=
    .element cache data False.elim
  exact mirroring_push hChange.grown rfl hData

/- To any depth: an element is made of those that declare it. -/
private theorem mirroring_wrapHostElementWithin
    (hAcyclic : table.Acyclic)
    (depth : Nat)
    (id : BindingId)
    (cache : Cache) :
    Behaves (Mirroring table) (fun _ => True)
      (wrapHostElementWithin table depth id) cache
      fun element after =>
        after.hostElement? id = some element := by
  have hHistory := Mirroring.isHistory table
  induction depth generalizing id cache with
  | zero => exact .throw hHistory trivial
  | succ depth ih =>
      suffices Behaves (Mirroring table) (fun _ => True)
          (wrapHostElementWithin table (depth + 1) id) cache
          fun _ _ => True from
        this.promise fun element after hRun _ =>
          hostElement?_of_wrapHostElementWithin hAcyclic hRun
      unfold wrapHostElementWithin
      apply Behaves.get hHistory
      cases cache.hostElement? id with
      | some element => exact .pure hHistory trivial
      | none =>
          simp only []
          apply (mirroring_describeHost hAcyclic ih).bind
            hHistory
          rintro data middle _ _ ⟨host, hMirrors⟩
          refine ⟨mirroring_addElement ?_, fun _ _ _ => trivial,
            fun _ _ _ => trivial⟩
          intro other hOther
          have hSame : other = id := by
            have hOrigin := hMirrors.origin.symm.trans hOther
            exact (ElementOrigin.host.inj hOrigin).symm
          exact ⟨host, hSame ▸ hMirrors⟩

/- An element that wraps a binding is made as its mirror. -/
theorem mirroring_wrapHostElement
    (hAcyclic : table.Acyclic)
    (id : BindingId)
    (cache : Cache) :
    Behaves (Mirroring table) (fun _ => True)
      (wrapHostElement table id) cache
      fun element after =>
        after.hostElement? id = some element :=
  mirroring_wrapHostElementWithin hAcyclic _ id cache

end Cache

end Lowering
