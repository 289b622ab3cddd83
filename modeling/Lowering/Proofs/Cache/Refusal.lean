import Lowering.Proofs.Cache.Identity
import Lowering.Proofs.Cache.OrderlyOperation

/-
  This file proves that the cache refuses what it cannot
  answer and does not end the run: a caller that keeps to the
  names of the cache meets violations only, and learns of a
  stale handle which one it was.

  There is one exception. The selector word of a type is read
  through an accessor in its fatal form, so that a stale
  handle ends the run there.

  Key definitions include:
    * `Cache.Spoken`
    * `Cache.Request.inspectedType?`
    * `Cache.Request.inspectedElement?`

  Main results:
    * `Cache.Spoken.spelled`
    * `Cache.display_eq_error`
    * `Cache.bindingOfType_eq_error`
    * `Cache.requests_are_refused_not_fatal`
    * `Cache.categoryName_ends_the_run`
-/

namespace Lowering

/-
  The element that is read when a binding is wrapped as a
  type: that of a class, also behind pointers.
-/
def Binding.owner? : Binding → Option ElementId
  | generated ⟨element, .type, _⟩ => some element
  | pointer pointee => pointee.owner?
  | _ => none

namespace Cache

variable {table : BindingTable}
variable {cache : Cache}

------------------------------------------------------------
-- Histories
------------------------------------------------------------

/-
  The states of a new cache after any requests, failed ones
  and resets among them, in names that the cache knew, over
  any tables without circular bindings.
-/
inductive Spoken : Cache → Prop
  | new : Spoken {}
  | ask
      {cache : Cache}
      {table : BindingTable}
      {request : Request}
      (spoken : Spoken cache)
      (acyclic : table.Acyclic)
      (known : ∀ name ∈ request.names, cache.Knows name) :
      Spoken (finalState (request.ask table cache))
  | reset
      {cache : Cache}
      (spoken : Spoken cache) :
      Spoken cache.reset

/- The wrappers of such a cache are spelled in its names. -/
theorem Spoken.spelled
    (hSpoken : Spoken cache) :
    cache.Spelled := by
  induction hSpoken with
  | new => exact Spelled.new
  | reset _ _ => exact Spelled.reset _
  | @ask cache table request _ hAcyclic hKnown ih =>
      cases request with
      | operation asked =>
          have hOrderly : Orderly table True (asked.answer table)
              cache fun _ _ => True :=
            orderly_answer hAcyclic (fun _ => ih) asked
              fun _ => hKnown
          exact Moves.spelled hOrderly.moves trivial ih
      | question asked =>
          unfold Request.ask
          rw [finalState_inspect]
          exact ih

------------------------------------------------------------
-- Questions About Types
------------------------------------------------------------

/- The handles of the live types. -/
def typeIds (cache : Cache) : Finset TypeId :=
  (Finset.range cache.types.size).image fun index =>
    ⟨cache.types.base + index⟩

theorem card_typeIds_lt (cache : Cache) :
    cache.typeIds.card < cache.types.size + 1 := by
  have hCard : cache.typeIds.card ≤
      (Finset.range cache.types.size).card :=
    Finset.card_image_le
  rw [Finset.card_range] at hCard
  omega

theorem mem_typeIds_of_madeOf
    {ty part : TypeId}
    (hPart : cache.MadeOf ty part) :
    ty ∈ cache.typeIds := by
  rcases hPart with ⟨data, hType, hMem⟩
  have hBounds := Generation.bounds_of_get?
    (get?_of_part hType hMem)
  unfold Generation.next at hBounds
  refine Finset.mem_image.mpr
    ⟨ty.raw - cache.types.base, Finset.mem_range.mpr ?_, ?_⟩
  · unfold Generation.size
    omega
  · rw [Nat.add_sub_of_le hBounds.1]

/- The names of a live type are known. -/
private theorem Spelled.type?
    (hSpelled : cache.Spelled)
    {ty : TypeId}
    {data : TypeData}
    (hType : cache.type? ty = some data) :
    ∀ name ∈ data.kind.names, cache.Knows name := by
  unfold Cache.type? at hType
  split at hType
  · cases hType
    simp [TypeKind.names]
  · split at hType
    · cases hType
      simp [TypeKind.names]
    · exact hSpelled.types _ _ hType

/-
  Where types do not contain themselves, one that cannot be
  written out has a name within it that cannot.
-/
theorem display_eq_error
    (hTypes : ∀ ty, ¬ Relation.TransGen cache.MadeOf ty ty)
    {ty : TypeId}
    {error : CacheError}
    (hError : cache.display ty = .error error) :
    ∃ part data, cache.type? part = some data ∧
      ∃ name ∈ data.kind.names,
        cache.nameText name = .error error := by
  revert hError
  apply induction_within_depth
    (P := fun depth ty =>
      cache.displayWithin depth ty = .error error →
        ∃ part data, cache.type? part = some data ∧
          ∃ name ∈ data.kind.names,
            cache.nameText name = .error error)
    hTypes cache.typeIds ?_ ?_ _ cache.card_typeIds_lt ty
  · exact fun _ _ => mem_typeIds_of_madeOf
  · intro depth ty ih hError
    rcases displayWithin_eq_error hError with
      ⟨data, hType, hName | ⟨part, hMem, hPart⟩⟩
    · exact ⟨ty, data, hType, hName⟩
    · exact ih part ⟨data, hType, hMem⟩ hPart

/- Types that do not contain themselves can be written out. -/
theorem display_ok
    (hSpelled : cache.Spelled)
    (hTypes : ∀ ty, ¬ Relation.TransGen cache.MadeOf ty ty)
    (ty : TypeId) :
    ∃ text, cache.display ty = .ok text := by
  cases hRun : cache.display ty with
  | ok text => exact ⟨text, rfl⟩
  | error error =>
      rcases display_eq_error hTypes hRun with
        ⟨part, data, hType, name, hMem, hName⟩
      rcases nameText_ok (hSpelled.type? hType name hMem) with
        ⟨text, hText⟩
      cases hText.symm.trans hName

theorem typeData_refused
    {ty : TypeId}
    {error : CacheError}
    (hError : cache.typeData ty = .error error) :
    ∃ cause, error = .violation cause := by
  unfold Cache.typeData at hError
  split at hError
  · cases hError
  · cases hError
    exact ⟨_, rfl⟩

/-
  Where no binding is found, a type is stale, or the element
  that it is the type of, or else one of the types that it is
  made of fails, one level less deep.
-/
theorem bindingOfTypeWithin_eq_error
    {depth : Nat}
    {ty : TypeId}
    {error : CacheError}
    (hError : cache.bindingOfTypeWithin table (depth + 1) ty =
      .error error) :
    cache.typeData ty = .error error ∨
    (∃ data element, cache.type? ty = some data ∧
      data.origin = .generated element ∧
      cache.element element = .error error) ∨
    ∃ part, cache.MadeOf ty part ∧
      cache.bindingOfTypeWithin table depth part =
        .error error := by
  unfold bindingOfTypeWithin at hError
  rcases bind_eq_error hError with hData | ⟨data, hData, hRest⟩
  · exact Or.inl hData
  right
  have hType := typeData_eq_ok_iff.mp hData
  have hMade : ∀ {part : TypeId}, data.kind.parts = [part] →
      cache.MadeOf ty part := by
    intro part hParts
    refine ⟨data, hType, ?_⟩
    rw [hParts]
    exact List.mem_cons_self
  split at hRest
  · cases hRest
  · next _ pointee hKind =>
    refine Or.inr ⟨pointee, hMade (by rw [hKind]; rfl), ?_⟩
    refine eq_error_of_bind (fun target => ?_) hRest
    split <;> exact ⟨_, rfl⟩
  · cases hRest
  · next element _ hOrigin =>
    refine Or.inl ⟨data, element, hType, hOrigin, ?_⟩
    exact eq_error_of_bind (fun _ => ⟨_, rfl⟩) hRest
  · next element hOrigin _ _ _ =>
    refine Or.inl ⟨data, element, hType, hOrigin, ?_⟩
    exact eq_error_of_bind (fun _ => ⟨_, rfl⟩) hRest
  · cases hRest
  · next component hKind _ =>
    refine Or.inr ⟨component, hMade (by rw [hKind]; rfl), ?_⟩
    refine eq_error_of_bind (fun found => ?_) hRest
    split <;> exact ⟨_, rfl⟩
  · cases hRest

/-
  Where no binding is found, something within the type is
  stale: a type or the element that one is the type of.
-/
theorem bindingOfType_eq_error
    (hTypes : ∀ ty, ¬ Relation.TransGen cache.MadeOf ty ty)
    {ty : TypeId}
    {error : CacheError}
    (hError : cache.bindingOfType table ty = .error error) :
    ∃ part, Relation.ReflTransGen cache.MadeOf ty part ∧
      (cache.typeData part = .error error ∨
        ∃ data element, cache.type? part = some data ∧
          data.origin = .generated element ∧
          cache.element element = .error error) := by
  revert hError
  apply induction_within_depth
    (P := fun depth ty =>
      cache.bindingOfTypeWithin table depth ty = .error error →
        ∃ part, Relation.ReflTransGen cache.MadeOf ty part ∧
          (cache.typeData part = .error error ∨
            ∃ data element, cache.type? part = some data ∧
              data.origin = .generated element ∧
              cache.element element = .error error))
    hTypes cache.typeIds ?_ ?_ _ cache.card_typeIds_lt ty
  · exact fun _ _ => mem_typeIds_of_madeOf
  · intro depth ty ih hError
    rcases bindingOfTypeWithin_eq_error hError with
      hData | hOwner | ⟨part, hMade, hPart⟩
    · exact ⟨ty, .refl, Or.inl hData⟩
    · exact ⟨ty, .refl, Or.inr hOwner⟩
    · rcases ih part hMade hPart with ⟨other, hReach, hCause⟩
      exact ⟨other, .head hMade hReach, hCause⟩

theorem bindingOfType_refused
    (hTypes : ∀ ty, ¬ Relation.TransGen cache.MadeOf ty ty)
    {ty : TypeId}
    {error : CacheError}
    (hError : cache.bindingOfType table ty = .error error) :
    ∃ cause, error = .violation cause := by
  rcases bindingOfType_eq_error hTypes hError with
    ⟨part, _, hData | ⟨_, element, _, _, hElement⟩⟩
  · exact typeData_refused hData
  · exact element_refused hElement

/-
  A type has no selector word if it is stale, which ends the
  run, or for want of a primitive, if it can be written out.
-/
theorem categoryName_eq_error
    {ty : TypeId}
    {error : CacheError}
    (hError : cache.categoryName ty = .error error) :
    (cache.type? ty = none ∧
      error =
        .fault (.contract (.staleHandle (toString ty)))) ∨
    cache.display ty = .error error ∨
    ∃ name, error = .violation (.notPrimitive name) := by
  unfold categoryName at hError
  rcases bind_eq_error hError with hKind | ⟨kind, hKind, hRest⟩
  · left
    unfold Cache.primitiveKind at hKind
    cases hType : cache.type? ty with
    | none =>
        rw [typeData_eq_stale hType] at hKind
        cases hKind
        exact ⟨rfl, rfl⟩
    | some data =>
        rw [typeData_eq_ok_iff.mpr hType] at hKind
        cases hKind
  · right
    cases kind with
    | some kind => cases hRest
    | none =>
        rcases bind_eq_error hRest with hText | ⟨name, _, hLast⟩
        · exact Or.inl hText
        · cases hLast
          exact Or.inr ⟨name, rfl⟩

------------------------------------------------------------
-- Questions
------------------------------------------------------------

private theorem elementName_refused
    (hSpelled : cache.Spelled)
    {id : ElementId}
    {error : CacheError}
    (hError : cache.elementName id = .error error) :
    ∃ cause, error = .violation cause := by
  unfold Cache.elementName at hError
  rcases bind_eq_error hError with
    hElement | ⟨data, hElement, hName⟩
  · exact element_refused hElement
  · rcases nameText_ok (hSpelled.elements _ _
        (element_eq_ok_iff.mp hElement)) with
      ⟨text, hText⟩
    cases hText.symm.trans hName

private theorem unwrap_refused
    {id : ElementId}
    {error : CacheError}
    (hError : cache.unwrap id = .error error) :
    ∃ cause, error = .violation cause := by
  unfold Cache.unwrap at hError
  rcases bind_eq_error hError with hElement | ⟨data, _, hRest⟩
  · exact element_refused hElement
  · split at hRest <;> cases hRest

/- What can be wrong with a question in names of the cache. -/
private theorem question_eq_error
    (hSpelled : cache.Spelled)
    (hTypes : ∀ ty, ¬ Relation.TransGen cache.MadeOf ty ty)
    {question : Question}
    (hKnown : ∀ name ∈ question.names, cache.Knows name)
    {error : CacheError}
    (hError : question.answer table cache = .error error) :
    (∃ cause, error = .violation cause) ∨
      ∃ ty, question = .categoryName ty ∧
        cache.type? ty = none ∧
        error =
          .fault (.contract (.staleHandle (toString ty))) := by
  have hRead : ∀ {α : Type} {ty : TypeId} {next : TypeData → α},
      (do return next (← cache.typeData ty)) = .error error →
        ∃ cause, error = .violation cause := by
    intro α ty next hRun
    rcases bind_eq_error hRun with hData | ⟨data, _, hRest⟩
    · exact typeData_refused hData
    · cases hRest
  cases question with
  | nameText name =>
      rcases nameText_ok
          (hKnown name List.mem_cons_self) with
        ⟨text, hText⟩
      cases hText.symm.trans (map_eq_error hError)
  | typeData ty =>
      exact Or.inl (typeData_refused (map_eq_error hError))
  | componentType ty =>
      exact Or.inl (hRead (map_eq_error hError))
  | primitiveKind ty =>
      exact Or.inl (hRead (map_eq_error hError))
  | isArray ty => exact Or.inl (hRead (map_eq_error hError))
  | isPrimitive ty => exact Or.inl (hRead (map_eq_error hError))
  | categoryName ty =>
      rcases categoryName_eq_error (map_eq_error hError) with
        ⟨hStale, hFault⟩ | hDisplay | ⟨name, hCause⟩
      · exact Or.inr ⟨ty, rfl, hStale, hFault⟩
      · rcases display_ok hSpelled hTypes ty with
          ⟨text, hText⟩
        cases hText.symm.trans hDisplay
      · exact Or.inl ⟨_, hCause⟩
  | display ty =>
      rcases display_ok hSpelled hTypes ty with ⟨text, hText⟩
      cases hText.symm.trans (map_eq_error hError)
  | bindingOfType ty =>
      exact Or.inl
        (bindingOfType_refused hTypes (map_eq_error hError))
  | typeBindingOfType ty =>
      rcases bind_eq_error (map_eq_error hError) with
        hBinding | ⟨found, _, hRest⟩
      · exact Or.inl (bindingOfType_refused hTypes hBinding)
      · cases hRest
  | typeCount => cases hError
  | element id =>
      exact Or.inl (element_refused (map_eq_error hError))
  | elementName id =>
      exact Or.inl
        (elementName_refused hSpelled (map_eq_error hError))
  | unwrap id =>
      exact Or.inl (unwrap_refused (map_eq_error hError))
  | unwrapOf family id =>
      rcases bind_eq_error (map_eq_error hError) with
        hElement | ⟨_, _, hRest⟩
      · exact Or.inl (elementOf_refused hSpelled hElement)
      · exact Or.inl (unwrap_refused hRest)
  | unwrapAnnotations id =>
      rcases bind_eq_error (map_eq_error hError) with
        hElement | ⟨data, _, hRest⟩
      · exact Or.inl (element_refused hElement)
      · cases hRest
  | elementCount => cases hError

/- What can be wrong with a request in names of the cache. -/
theorem ask_eq_error
    (hAcyclic : table.Acyclic)
    (hSpelled : cache.Spelled)
    (hTypes : ∀ ty, ¬ Relation.TransGen cache.MadeOf ty ty)
    {request : Request}
    (hKnown : ∀ name ∈ request.names, cache.Knows name)
    {error : CacheError}
    {after : Cache}
    (hError : request.ask table cache = .error error after) :
    (∃ cause, error = .violation cause) ∨
      ∃ ty, request = .question (.categoryName ty) ∧
        cache.type? ty = none ∧
        error =
          .fault (.contract (.staleHandle (toString ty))) := by
  cases request with
  | operation asked =>
      have hOrderly : Orderly table True (asked.answer table)
          cache fun _ _ => True :=
        orderly_answer hAcyclic (fun _ => hSpelled) asked
          fun _ => hKnown
      exact Or.inl (hOrderly.refusal trivial error after hError)
  | question asked =>
      rw [ask_question] at hError
      cases hAnswer : asked.answer table cache with
      | ok answer =>
          rw [hAnswer] at hError
          cases hError
      | error cause =>
          rw [hAnswer] at hError
          cases hError
          rcases question_eq_error hSpelled hTypes hKnown
              hAnswer with
            hCause | ⟨ty, rfl, hStale, hFault⟩
          · exact Or.inl hCause
          · exact Or.inr ⟨ty, rfl, hStale, hFault⟩

------------------------------------------------------------
-- Stale Handles
------------------------------------------------------------

/- The type that a request is to look at. -/
def Request.inspectedType? : Request → Option TypeId
  | .question (.typeData ty) => some ty
  | .question (.componentType ty) => some ty
  | .question (.primitiveKind ty) => some ty
  | .question (.isArray ty) => some ty
  | .question (.isPrimitive ty) => some ty
  | .question (.categoryName ty) => some ty
  | .question (.bindingOfType ty) => some ty
  | .question (.typeBindingOfType ty) => some ty
  | _ => none

/- The element that a request is to look at. -/
def Request.inspectedElement? : Request → Option ElementId
  | .operation (.wrapType binding) => binding.owner?
  | .operation (.wrapElement (.generated binding)) =>
    some binding.element
  | .operation (.wrapElementOf _ (.generated binding)) =>
    some binding.element
  | .operation (.newParameter method _ _) => some method
  | .operation (.executableTypeOf method) => some method
  | .question (.element id) => some id
  | .question (.elementName id) => some id
  | .question (.unwrap id) => some id
  | .question (.unwrapOf _ id) => some id
  | .question (.unwrapAnnotations id) => some id
  | _ => none

private theorem typeQuestion_stale
    {question : Question}
    {ty : TypeId}
    (hInspected :
      Request.inspectedType? (.question question) = some ty)
    (hCategory : question ≠ .categoryName ty)
    (hStale : cache.type? ty = none) :
    question.answer table cache =
      .error (.violation (.staleHandle (toString ty))) := by
  have hData := typeData_eq_stale hStale
  cases question <;> cases hInspected
  case categoryName => exact absurd rfl hCategory
  case typeData =>
    rw [Question.answer, hData]
    rfl
  case componentType =>
    rw [Question.answer, Cache.componentType, hData]
    rfl
  case primitiveKind =>
    rw [Question.answer, Cache.primitiveKind, hData]
    rfl
  case isArray =>
    rw [Question.answer, Cache.isArray, hData]
    rfl
  case isPrimitive =>
    rw [Question.answer, Cache.isPrimitive, hData]
    rfl
  case bindingOfType =>
    rw [Question.answer, bindingOfType, bindingOfTypeWithin,
      hData]
    rfl
  case typeBindingOfType =>
    rw [Question.answer, typeBindingOfType, bindingOfType,
      bindingOfTypeWithin, hData]
    rfl

private theorem elementOf_eq_stale
    {id : ElementId}
    (hStale : cache.elements.get? id.raw = none)
    (family : ElementFamily) :
    cache.elementOf family id =
      .error (.violation (.staleHandle (toString id))) := by
  rw [elementOf, element_eq_stale hStale]
  rfl

private theorem elementQuestion_stale
    {question : Question}
    {id : ElementId}
    (hInspected :
      Request.inspectedElement? (.question question) = some id)
    (hStale : cache.elements.get? id.raw = none) :
    question.answer table cache =
      .error (.violation (.staleHandle (toString id))) := by
  have hElement := element_eq_stale hStale
  cases question <;> cases hInspected
  case element =>
    rw [Question.answer, hElement]
    rfl
  case elementName =>
    rw [Question.answer, Cache.elementName, hElement]
    rfl
  case unwrap =>
    rw [Question.answer, Cache.unwrap, hElement]
    rfl
  case unwrapOf =>
    rw [Question.answer, Cache.unwrapOf,
      elementOf_eq_stale hStale]
    rfl
  case unwrapAnnotations =>
    rw [Question.answer, Cache.unwrapAnnotations, hElement]
    rfl

private theorem run_element_stale
    {α : Type}
    {id : ElementId}
    (hStale : cache.elements.get? id.raw = none)
    (next : ElementData → CacheM α) :
    (CacheM.inspect (·.element id) >>= next) cache =
      .error (.violation (.staleHandle (toString id))) cache :=
  run_bind_error
    (run_inspectCache_error (element_eq_stale hStale))

private theorem run_elementOf_stale
    {α : Type}
    {id : ElementId}
    (hStale : cache.elements.get? id.raw = none)
    (family : ElementFamily)
    (next : ElementData → CacheM α) :
    (CacheM.inspect (·.elementOf family id) >>= next) cache =
      .error (.violation (.staleHandle (toString id))) cache :=
  run_bind_error
    (run_inspectCache_error (elementOf_eq_stale hStale family))

private theorem wrapType_stale
    {binding : Binding}
    {id : ElementId}
    (hOwner : binding.owner? = some id)
    (hStale : cache.elements.get? id.raw = none) :
    wrapType table binding cache =
      .error (.violation (.staleHandle (toString id))) cache := by
  induction binding with
  | generated binding =>
      rcases binding with ⟨element, family, name⟩
      cases family <;> cases hOwner
      unfold wrapType
      exact run_element_stale hStale _
  | pointer pointee ih =>
      unfold wrapType
      exact run_bind_error (ih hOwner)
  | host id => cases hOwner
  | generatedPackage name => cases hOwner
  | nativeType name => cases hOwner
  | pointerToUnbound => cases hOwner

private theorem wrapElement_stale
    {binding : GeneratedBinding}
    (hStale : cache.elements.get? binding.element.raw = none) :
    wrapElement table (.generated binding) cache =
      .error (.violation
        (.staleHandle (toString binding.element))) cache :=
  run_element_stale hStale _

/- An operation on an element that is not live does nothing. -/
private theorem operation_stale
    {operation : Operation}
    {id : ElementId}
    (hInspected :
      Request.inspectedElement? (.operation operation) = some id)
    (hStale : cache.elements.get? id.raw = none) :
    operation.answer table cache =
      .error (.violation (.staleHandle (toString id))) cache := by
  cases operation with
  | wrapType binding =>
      exact run_map_error _ (wrapType_stale hInspected hStale)
  | wrapElement binding =>
      cases binding with
      | generated binding =>
          cases hInspected
          exact run_map_error _ (wrapElement_stale hStale)
      | _ => cases hInspected
  | wrapElementOf family binding =>
      cases binding with
      | generated binding =>
          cases hInspected
          exact run_map_error _
            (run_bind_error (wrapElement_stale hStale))
      | _ => cases hInspected
  | newParameter method text ty =>
      cases hInspected
      exact run_map_error _ (run_elementOf_stale hStale _ _)
  | executableTypeOf method =>
      cases hInspected
      exact run_map_error _ (run_elementOf_stale hStale _ _)
  | _ => cases hInspected

------------------------------------------------------------
-- Refusals
------------------------------------------------------------

/-
  After any history in names of the cache, where neither
  bindings nor types contain themselves: whatever is asked,
  nothing at all among it, is answered or refused, but for the
  selector word of a stale type, which ends the run. A stale
  handle of the type or element to look at is refused as such
  by all others, and the cache stays as it is.
-/
theorem requests_are_refused_not_fatal
    (hSpoken : Spoken cache)
    (hAcyclic : table.Acyclic)
    (hTypes : ∀ ty, ¬ Relation.TransGen cache.MadeOf ty ty) :
    (∀ (request : Option Request) error after,
      (∀ asked ∈ request, ∀ name ∈ asked.names,
        cache.Knows name) →
        request.mapM (·.ask table) cache = .error error after →
          (∃ cause, error = .violation cause) ∨
            ∃ ty, request = some (.question (.categoryName ty)) ∧
              cache.type? ty = none ∧
              error = .fault
                (.contract (.staleHandle (toString ty)))) ∧
    (∀ (request : Request) ty,
      request.inspectedType? = some ty →
        cache.type? ty = none →
          request ≠ .question (.categoryName ty) →
            request.ask table cache =
              .error (.violation (.staleHandle (toString ty)))
                cache) ∧
    (∀ (request : Request) id,
      request.inspectedElement? = some id →
        cache.elements.get? id.raw = none →
          request.ask table cache =
            .error (.violation (.staleHandle (toString id)))
              cache) := by
  refine ⟨?_, ?_, ?_⟩
  · intro request error after hKnown hError
    cases request with
    | none => cases hError
    | some asked =>
        rcases ask_eq_error hAcyclic hSpoken.spelled hTypes
            (hKnown asked rfl) (run_map_eq_error hError) with
          hCause | ⟨ty, rfl, hStale, hFault⟩
        · exact Or.inl hCause
        · exact Or.inr ⟨ty, rfl, hStale, hFault⟩
  · intro request ty hInspected hStale hCategory
    cases request with
    | operation asked => cases hInspected
    | question asked =>
        apply ask_question_error
        apply typeQuestion_stale hInspected ?_ hStale
        rintro rfl
        exact hCategory rfl
  · intro request id hInspected hStale
    cases request with
    | operation asked => exact operation_stale hInspected hStale
    | question asked =>
        exact ask_question_error
          (elementQuestion_stale hInspected hStale)

/- A cache that was reset after a target scalar was made. -/
def droppedScalar : Cache :=
  (finalState ((Request.operation (.nativeType "length")).ask
    intArrayTable {})).reset

private theorem spoken_droppedScalar : Spoken droppedScalar :=
  (Spoken.new.ask acyclic_intArray (by simp [Request.names,
    Operation.names])).reset

private theorem acyclic_droppedScalar (ty : TypeId) :
    ¬ Relation.TransGen droppedScalar.MadeOf ty ty := by
  intro hCycle
  rcases Relation.TransGen.head'_iff.mp hCycle with
    ⟨part, ⟨data, hType, hPart⟩, _⟩
  have hBounds := Generation.bounds_of_get?
    (get?_of_part hType hPart)
  exact absurd hBounds.1 (Nat.not_le.mpr hBounds.2)

/- The data of a scalar that was dropped is refused. -/
theorem requests_are_refused_not_fatal_droppedScalar :
    Spoken droppedScalar ∧
      intArrayTable.Acyclic ∧
      (∀ ty, ¬ Relation.TransGen droppedScalar.MadeOf ty ty) ∧
      (Request.question (.typeData ⟨2⟩)).ask intArrayTable
          droppedScalar =
        .error (.violation (.staleHandle "TypeId(2)"))
          droppedScalar := by
  rcases requests_are_refused_not_fatal spoken_droppedScalar
      acyclic_intArray acyclic_droppedScalar with
    ⟨_, hStale, _⟩
  refine ⟨spoken_droppedScalar, acyclic_intArray,
    acyclic_droppedScalar, ?_⟩
  exact hStale (.question (.typeData ⟨2⟩)) ⟨2⟩ rfl
    (by decide +kernel) (by simp)

/-
  The selector word of a scalar that was dropped is not
  refused: asking for it ends the run.
-/
theorem categoryName_ends_the_run :
    Spoken droppedScalar ∧
      intArrayTable.Acyclic ∧
      (∀ ty, ¬ Relation.TransGen droppedScalar.MadeOf ty ty) ∧
      (Request.question (.categoryName ⟨2⟩)).ask intArrayTable
          droppedScalar =
        .error
          (.fault (.contract (.staleHandle "TypeId(2)")))
          droppedScalar := by
  refine ⟨spoken_droppedScalar, acyclic_intArray,
    acyclic_droppedScalar, ?_⟩
  apply ask_question_error
  decide +kernel

end Cache

end Lowering
