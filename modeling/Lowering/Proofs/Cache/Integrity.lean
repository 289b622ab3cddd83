import Lowering.Proofs.Cache.Refusal
import Lowering.Proofs.Cache.SealedOperation

/-
  This file proves that wrappers refer to live wrappers only,
  and types and enclosing elements to older ones, as long as
  the callers hand over live handles only.

  A type is then never made of itself, so that a live type is
  written out and traced back to its binding in finitely many
  steps, and on the way nothing is found to be stale.

  Key definitions include:
    * `Cache.Guarded`

  Main results:
    * `Cache.Guarded.closed`
    * `Cache.Closed.display_cases`
    * `Cache.Closed.bindingOfType_ok`
    * `Cache.references_are_live_and_older`
-/

namespace Lowering

namespace Cache

variable {table : BindingTable}
variable {cache : Cache}

------------------------------------------------------------
-- Histories
------------------------------------------------------------

/-
  The states of a new cache after any sequence of operations
  that were given live handles when they were performed,
  failed ones and resets among them, over a growing table.
-/
inductive Guarded : BindingTable × Cache → Prop
  | new (table : BindingTable) : Guarded (table, {})
  | perform
      {table : BindingTable}
      {cache : Cache}
      (operation : Operation)
      (guarded : Guarded (table, cache))
      (types : ∀ ty ∈ operation.types, cache.HasType ty)
      (elements : ∀ id ∈ operation.elements,
        cache.HasElement id) :
      Guarded
        (table, finalState (operation.perform table cache))
  | add
      {table : BindingTable}
      {cache : Cache}
      (binding : HostBinding)
      (guarded : Guarded (table, cache)) :
      Guarded ((table.add binding).2, cache)
  | reset
      {table : BindingTable}
      {cache : Cache}
      (guarded : Guarded (table, cache)) :
      Guarded (table, cache.reset)

/- Such a cache is closed. -/
theorem Guarded.closed
    {state : BindingTable × Cache}
    (hGuarded : Guarded state)
    (hAcyclic : state.1.Acyclic) :
    state.2.Closed True := by
  induction hGuarded with
  | new table => exact Closed.new
  | perform operation _ hTypes hElements ih =>
      exact (ih hAcyclic).perform hAcyclic operation
        (fun _ => hTypes) (fun _ => hElements)
  | add binding _ ih => exact ih (acyclic_of_add hAcyclic)
  | reset _ ih => exact (ih hAcyclic).reset

------------------------------------------------------------
-- Types Within Types
------------------------------------------------------------

section Closed

variable (hClosed : cache.Closed True)

include hClosed

/- Every live type fits, the fixed ones too. -/
theorem Closed.typeFits
    {ty : TypeId}
    {data : TypeData}
    (hType : cache.type? ty = some data) :
    cache.TypeFits ty.raw data := by
  rcases (type?_eq_some_iff hClosed.base).mp hType with
    ⟨rfl, rfl⟩ | ⟨rfl, rfl⟩ | hLive
  · exact ⟨by simp [TypeKind.parts], by simp⟩
  · exact ⟨by simp [TypeKind.parts], by simp⟩
  · exact hClosed.types trivial _ _ hLive

/- A type that is reached within a live type is live. -/
theorem Closed.hasType_of_reach
    {ty part : TypeId}
    (hType : cache.HasType ty)
    (hReach : Relation.ReflTransGen cache.MadeOf ty part) :
    cache.HasType part := by
  induction hReach with
  | refl => exact hType
  | tail _ hMade _ =>
      rcases hMade with ⟨data, hData, hMem⟩
      exact ((hClosed.typeFits hData).parts _ hMem).1

/- What a type is made of, at any depth, is older. -/
theorem Closed.lt_of_reach
    {ty part : TypeId}
    (hReach : Relation.TransGen cache.MadeOf ty part) :
    part.raw < ty.raw := by
  have hStep : ∀ {whole part : TypeId},
      cache.MadeOf whole part → part.raw < whole.raw := by
    rintro whole part ⟨data, hData, hMem⟩
    exact ((hClosed.typeFits hData).parts part hMem).2
  induction hReach with
  | single hMade => exact hStep hMade
  | tail _ hMade ih => exact Nat.lt_trans (hStep hMade) ih

theorem Closed.not_madeOf_itself
    (ty : TypeId) :
    ¬ Relation.TransGen cache.MadeOf ty ty :=
  fun hCycle => Nat.lt_irrefl _ (hClosed.lt_of_reach hCycle)

/- A type is written out, but for a name that is not known. -/
theorem Closed.display_cases
    (ty : TypeId) :
    (∃ text, cache.display ty = .ok text) ∨
      ∃ name, cache.names.text? name = none ∧
        cache.display ty =
          .error (.fault (.foreignName ⟨name⟩)) := by
  cases hRun : cache.display ty with
  | ok text => exact Or.inl ⟨text, rfl⟩
  | error error =>
      rcases display_eq_error hClosed.not_madeOf_itself hRun
        with ⟨_, _, _, name, _, hName⟩
      rcases nameText_eq_error hName with ⟨hUnknown, rfl⟩
      exact Or.inr ⟨name, hUnknown, rfl⟩

/- A live type is traced back to its binding, or to none. -/
theorem Closed.bindingOfType_ok
    {ty : TypeId}
    (hType : cache.HasType ty) :
    ∃ found, cache.bindingOfType table ty = .ok found := by
  cases hRun : cache.bindingOfType table ty with
  | ok found => exact ⟨found, rfl⟩
  | error error =>
      rcases bindingOfType_eq_error hClosed.not_madeOf_itself
          hRun with ⟨part, hReach, hCause⟩
      have hPart := hClosed.hasType_of_reach hType hReach
      rcases hCause with hStale | ⟨data, element, hData, hRest⟩
      · rcases hPart with ⟨data, hData⟩
        cases (typeData_eq_ok_iff.mpr hData).symm.trans hStale
      · rcases hRest with ⟨hOrigin, hStale⟩
        rcases (hClosed.typeFits hData).owner element hOrigin
          with ⟨owner, hOwner⟩
        cases (element_eq_ok_iff.mpr hOwner).symm.trans hStale

end Closed

------------------------------------------------------------
-- Requests
------------------------------------------------------------

section Questions

variable {ty : TypeId}
variable {id : ElementId}
variable {error : CacheError}

/- What is answered does not want for a handle. -/
private theorem not_lost_of_ok
    {α : Type}
    {question : Except CacheError α}
    (hAnswer : ∃ answer, question = .ok answer)
    (hError : question = .error error) :
    ¬ error.Lost := by
  rcases hAnswer with ⟨answer, hAnswer⟩
  cases hAnswer.symm.trans hError

private theorem HasType.typeData
    (hType : cache.HasType ty) :
    ∃ data, cache.typeData ty = .ok data := by
  rcases hType with ⟨data, hData⟩
  exact ⟨data, typeData_eq_ok_iff.mpr hData⟩

private theorem HasElement.element
    (hElement : cache.HasElement id) :
    ∃ data, cache.element id = .ok data := by
  rcases hElement with ⟨data, hData⟩
  exact ⟨data, element_eq_ok_iff.mpr hData⟩

/- A live element leads to a binding. -/
private theorem HasElement.unwrap
    (hElement : cache.HasElement id) :
    ∃ binding, cache.unwrap id = .ok binding := by
  rcases hElement.element with ⟨data, hData⟩
  unfold Cache.unwrap
  rw [bind_ok hData]
  cases data.origin with
  | host host => exact ⟨_, rfl⟩
  | generated => exact ⟨_, rfl⟩

/- A name that is not known is not a want of handles. -/
private theorem nameText_not_lost
    {name : Name}
    (hError : cache.nameText name = .error error) :
    ¬ error.Lost := by
  rcases nameText_eq_error hError with ⟨_, rfl⟩
  exact not_false

private theorem Closed.display_not_lost
    (hClosed : cache.Closed True)
    (hError : cache.display ty = .error error) :
    ¬ error.Lost := by
  rcases hClosed.display_cases ty with hText | ⟨name, _, hName⟩
  · exact not_lost_of_ok hText hError
  · cases hName.symm.trans hError
    exact not_false

/- A question about what is live finds nothing stale. -/
theorem Closed.question_not_lost
    (hClosed : cache.Closed True)
    {question : Question}
    (hTypes : ∀ ty ∈ question.types, cache.HasType ty)
    (hElements : ∀ id ∈ question.elements,
      cache.HasElement id)
    (hError : question.answer table cache = .error error) :
    ¬ error.Lost := by
  have hRead : ∀ {α : Type} {ty : TypeId} {next : TypeData → α},
      ty ∈ question.types →
        (do return next (← cache.typeData ty)) = .error error →
          ¬ error.Lost := by
    intro α ty next hMem hRun
    apply not_lost_of_ok (hTypes ty hMem).typeData
    exact eq_error_of_bind (fun _ => ⟨_, rfl⟩) hRun
  cases question with
  | nameText name =>
      exact nameText_not_lost (map_eq_error hError)
  | typeData ty =>
      exact not_lost_of_ok (hTypes ty List.mem_cons_self).typeData
        (map_eq_error hError)
  | componentType ty =>
      exact hRead List.mem_cons_self (map_eq_error hError)
  | primitiveKind ty =>
      exact hRead List.mem_cons_self (map_eq_error hError)
  | isArray ty =>
      exact hRead List.mem_cons_self (map_eq_error hError)
  | isPrimitive ty =>
      exact hRead List.mem_cons_self (map_eq_error hError)
  | categoryName ty =>
      rcases hTypes ty List.mem_cons_self with ⟨data, hData⟩
      rcases categoryName_eq_error (map_eq_error hError) with
        ⟨hStale, _⟩ | hText | ⟨name, rfl⟩
      · cases hData.symm.trans hStale
      · exact hClosed.display_not_lost hText
      · exact not_false
  | display ty =>
      exact hClosed.display_not_lost (map_eq_error hError)
  | bindingOfType ty =>
      have hType := hTypes ty List.mem_cons_self
      exact not_lost_of_ok (hClosed.bindingOfType_ok hType)
        (map_eq_error hError)
  | typeBindingOfType ty =>
      have hType := hTypes ty List.mem_cons_self
      apply not_lost_of_ok (hClosed.bindingOfType_ok hType)
      exact eq_error_of_bind (fun _ => ⟨_, rfl⟩)
        (map_eq_error hError)
  | typeCount => cases hError
  | element id =>
      have hElement := hElements id List.mem_cons_self
      exact not_lost_of_ok hElement.element (map_eq_error hError)
  | elementName id =>
      have hElement := hElements id List.mem_cons_self
      rcases bind_eq_error (map_eq_error hError) with
        hStale | ⟨data, _, hName⟩
      · exact not_lost_of_ok hElement.element hStale
      · exact nameText_not_lost hName
  | unwrap id =>
      have hElement := hElements id List.mem_cons_self
      exact not_lost_of_ok hElement.unwrap (map_eq_error hError)
  | unwrapOf family id =>
      have hElement := hElements id List.mem_cons_self
      rcases bind_eq_error (map_eq_error hError) with
        hFamily | ⟨_, _, hRest⟩
      · exact elementOf_not_lost hElement hFamily
      · exact not_lost_of_ok hElement.unwrap hRest
  | unwrapAnnotations id =>
      have hElement := hElements id List.mem_cons_self
      apply not_lost_of_ok hElement.element
      exact eq_error_of_bind (fun _ => ⟨_, rfl⟩)
        (map_eq_error hError)
  | elementCount => cases hError

/- A request that comes with live handles finds no stale one. -/
theorem Closed.request_not_lost
    (hClosed : cache.Closed True)
    (hAcyclic : table.Acyclic)
    {request : Request}
    (hTypes : ∀ ty ∈ request.types, cache.HasType ty)
    (hElements : ∀ id ∈ request.elements, cache.HasElement id)
    {after : Cache}
    (hError : request.ask table cache = .error error after) :
    ¬ error.Lost := by
  cases request with
  | operation asked =>
      have hSealed := sealed_answer hAcyclic hClosed asked
        (fun _ => hTypes) (fun _ => hElements)
      exact hSealed.failure error after hError trivial
  | question asked =>
      rw [ask_question] at hError
      cases hAnswer : asked.answer table cache with
      | ok answer =>
          rw [hAnswer] at hError
          cases hError
      | error cause =>
          rw [hAnswer] at hError
          cases hError
          exact hClosed.question_not_lost hTypes hElements hAnswer

end Questions

------------------------------------------------------------
-- Integrity
------------------------------------------------------------

/-
  Over a table without circular bindings, after any history in
  which live handles were handed over only: the handles that
  are stored in a live wrapper are live, those in a type and
  that of the enclosing element are older than the wrapper;
  writing a live type out ends, in its text or with a name
  that the callers made up, and so does the search for its
  binding, always with an answer; and no request that comes
  with live handles fails on a stale one or without end.
-/
theorem references_are_live_and_older
    (hGuarded : Guarded (table, cache))
    (hAcyclic : table.Acyclic) :
    (∀ ty data, cache.typeData ty = .ok data →
      cache.TypeFits ty.raw data) ∧
    (∀ id data, cache.element id = .ok data →
      cache.ElementFits id.raw data) ∧
    (∀ ty, cache.HasType ty →
      (∃ text, cache.display ty = .ok text) ∨
        ∃ name, cache.names.text? name = none ∧
          cache.display ty =
            .error (.fault (.foreignName ⟨name⟩))) ∧
    (∀ ty, cache.HasType ty →
      ∃ found, cache.bindingOfType table ty = .ok found) ∧
    (∀ request : Request,
      (∀ ty ∈ request.types, cache.HasType ty) →
        (∀ id ∈ request.elements, cache.HasElement id) →
          ∀ error after,
            request.ask table cache = .error error after →
              ¬ error.Lost) := by
  have hClosed : cache.Closed True := hGuarded.closed hAcyclic
  refine ⟨?_, ?_, ?_, ?_, ?_⟩
  · intro ty data hData
    exact hClosed.typeFits (typeData_eq_ok_iff.mp hData)
  · intro id data hData
    exact hClosed.elements trivial _ _
      (element_eq_ok_iff.mp hData)
  · exact fun ty _ => hClosed.display_cases ty
  · exact fun ty hType => hClosed.bindingOfType_ok hType
  · intro request hTypes hElements error after hError
    exact hClosed.request_not_lost hAcyclic hTypes hElements
      hError

/-
  A new cache in which a class was made, with a method from
  the array over `int` to pointers to the class.
-/
def linkedCache : Cache :=
  Cache.performAll intArrayTable [
    .wrapType (.host ⟨9⟩),
    .newTypeElement "Node" none {},
    .pointerType ⟨4⟩,
    .newMethod "nextIn:" ⟨0⟩ ⟨5⟩ {},
    .newParameter ⟨1⟩ "items" ⟨3⟩,
    .executableTypeOf ⟨1⟩] {}

private theorem guarded_linked :
    Guarded (intArrayTable, linkedCache) := by
  have hInt := (Guarded.new intArrayTable).perform
    (.wrapType (.host ⟨9⟩)) (by decide +kernel)
    (by decide +kernel)
  have hClass := hInt.perform (.newTypeElement "Node" none {})
    (by decide +kernel) (by decide +kernel)
  have hPointer := hClass.perform (.pointerType ⟨4⟩)
    (by decide +kernel) (by decide +kernel)
  have hMethod := hPointer.perform
    (.newMethod "nextIn:" ⟨0⟩ ⟨5⟩ {})
    (by decide +kernel) (by decide +kernel)
  have hParameter := hMethod.perform
    (.newParameter ⟨1⟩ "items" ⟨3⟩)
    (by decide +kernel) (by decide +kernel)
  exact hParameter.perform (.executableTypeOf ⟨1⟩)
    (by decide +kernel) (by decide +kernel)

/- The type of the method is made of live, older types. -/
theorem references_are_live_and_older_linked :
    Guarded (intArrayTable, linkedCache) ∧
      intArrayTable.Acyclic ∧
      linkedCache.typeData ⟨6⟩ =
        .ok ⟨.executable [⟨3⟩] ⟨5⟩, .generated ⟨1⟩⟩ ∧
      (linkedCache.HasType ⟨3⟩ ∧ 3 < 6) ∧
      linkedCache.HasElement ⟨1⟩ ∧
      ∃ found, linkedCache.bindingOfType intArrayTable ⟨6⟩ =
        .ok found := by
  rcases references_are_live_and_older guarded_linked
      acyclic_intArray with ⟨hTypes, _, _, hBinding, _⟩
  have hMethod : linkedCache.typeData ⟨6⟩ =
      .ok ⟨.executable [⟨3⟩] ⟨5⟩, .generated ⟨1⟩⟩ := by
    decide +kernel
  have hFits := hTypes _ _ hMethod
  exact ⟨guarded_linked, acyclic_intArray, hMethod,
    hFits.parts ⟨3⟩ List.mem_cons_self, hFits.owner ⟨1⟩ rfl,
    hBinding ⟨6⟩ ⟨_, typeData_eq_ok_iff.mp hMethod⟩⟩

end Cache

end Lowering
