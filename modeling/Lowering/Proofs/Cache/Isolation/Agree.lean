import Lowering.Proofs.Cache.Isolation.Lookup
import Lowering.Proofs.Cache.Prescription

/-
  This file defines when operations on twins agree: both are
  answered, and the answers are the same, or both fail, and
  for the same reason; the caches are twins again. It proves
  what sequences of such operations and single changes of the
  store need for that.

  Bindings and texts that stand in a refusal are those of the
  table and are equal. The rest of a refusal are handles and
  names, which are the same.

  Key definitions include:
    * `Cache.Twins.SameCause`
    * `Cache.Twins.SameError`
    * `Cache.Twins.Outcome`
    * `Cache.Twins.Agree`
    * `Cache.Twins.Asked`

  Main results:
    * `Cache.Twins.Agree.bind`
    * `Cache.Twins.Agree.mapM`
    * `Cache.Twins.agree_addType`
    * `Cache.Twins.agree_addElement`
    * `Cache.Twins.agree_modifyElement`
-/

namespace Lowering

namespace Cache

namespace Twins

------------------------------------------------------------
-- The Same Failures
------------------------------------------------------------

section Failures

variable (twins : Twins)

inductive SameCause :
    ContractViolation → ContractViolation → Prop
  | same (cause : ContractViolation) : SameCause cause cause
  | staleType
      {ty ty' : TypeId}
      (sameType : twins.SameType ty ty') :
      SameCause (.staleHandle (toString ty))
        (.staleHandle (toString ty'))
  | staleElement
      {id id' : ElementId}
      (sameElement : twins.SameElement id id') :
      SameCause (.staleHandle (toString id))
        (.staleHandle (toString id'))
  | notAType
      {binding binding' : Binding}
      (table : BindingTable)
      (sameBinding : twins.SameBinding binding binding') :
      SameCause (.notATypeBinding (binding.describe table))
        (.notATypeBinding (binding'.describe table))
  | unknownElement
      {binding binding' : Binding}
      (table : BindingTable)
      (sameBinding : twins.SameBinding binding binding') :
      SameCause (.unknownElementBinding (binding.describe table))
        (.unknownElementBinding (binding'.describe table))

inductive SameError : CacheError → CacheError → Prop
  | violation
      {cause cause' : ContractViolation}
      (sameCause : twins.SameCause cause cause') :
      SameError (.violation cause) (.violation cause')
  | contract
      {cause cause' : ContractViolation}
      (sameCause : twins.SameCause cause cause') :
      SameError (.fault (.contract cause))
        (.fault (.contract cause'))
  | endless : SameError (.fault .endless) (.fault .endless)

variable {twins}

/- Errors stay the same in the fatal form. -/
theorem SameError.fatal
    {error error' : CacheError}
    (hSame : twins.SameError error error') :
    twins.SameError error.fatal error'.fatal := by
  cases hSame with
  | violation hCause => exact .contract hCause
  | contract hCause => exact .contract hCause
  | endless => exact .endless

end Failures

------------------------------------------------------------
-- Agreement
------------------------------------------------------------

variable {α α' β β' : Type}

/- Two operations end alike, and leave twins. -/
inductive Outcome
    (twins : Twins)
    (Same : Twins → α → α' → Prop) :
    EStateM.Result CacheError Cache α →
      EStateM.Result CacheError Cache α' → Prop
  | ok
      {after : Twins}
      {answer : α}
      {answer' : α'}
      (onward : Onward twins after)
      (parallel : after.Parallel)
      (same : Same after answer answer') :
      Outcome twins Same (.ok answer after.used)
        (.ok answer' after.fresh)
  | error
      {after : Twins}
      {error error' : CacheError}
      (onward : Onward twins after)
      (parallel : after.Parallel)
      (same : after.SameError error error') :
      Outcome twins Same (.error error after.used)
        (.error error' after.fresh)

/- What ends alike later ends alike. -/
theorem Outcome.from_earlier
    {before after : Twins}
    {Same : Twins → α → α' → Prop}
    {run : EStateM.Result CacheError Cache α}
    {run' : EStateM.Result CacheError Cache α'}
    (hOutcome : Outcome after Same run run')
    (hOnward : Onward before after) :
    Outcome before Same run run' := by
  cases hOutcome with
  | ok hLast hParallel hSame =>
      exact .ok (hOnward.trans hLast) hParallel hSame
  | error hLast hParallel hSame =>
      exact .error (hOnward.trans hLast) hParallel hSame

/- Operations on twins end alike. -/
def Agree
    (twins : Twins)
    (Same : Twins → α → α' → Prop)
    (operation : CacheM α)
    (operation' : CacheM α') : Prop :=
  twins.Parallel →
    Outcome twins Same (operation twins.used)
      (operation' twins.fresh)

/- Two questions are answered alike, or fail alike. -/
inductive Asked
    (twins : Twins)
    (Same : α → α' → Prop) :
    Except CacheError α → Except CacheError α' → Prop
  | ok
      {answer : α}
      {answer' : α'}
      (same : Same answer answer') :
      Asked twins Same (.ok answer) (.ok answer')
  | error
      {error error' : CacheError}
      (same : twins.SameError error error') :
      Asked twins Same (.error error) (.error error')

namespace Agree

variable {twins : Twins}
variable {Same : Twins → α → α' → Prop}
variable {Same' : Twins → β → β' → Prop}

theorem pure
    {answer : α}
    {answer' : α'}
    (hSame : Same twins answer answer') :
    twins.Agree Same (Pure.pure answer) (Pure.pure answer') :=
  fun hParallel => .ok (Onward.refl twins) hParallel hSame

theorem throw
    {error error' : CacheError}
    (hSame : twins.SameError error error') :
    twins.Agree Same (MonadExcept.throw error)
      (MonadExcept.throw error') :=
  fun hParallel => .error (Onward.refl twins) hParallel hSame

theorem refuse
    {cause cause' : ContractViolation}
    (hSame : twins.SameCause cause cause') :
    twins.Agree Same (CacheM.refuse cause)
      (CacheM.refuse cause') :=
  throw (.violation hSame)

/- Sequences agree if their parts do. -/
theorem bind
    {first : CacheM α}
    {first' : CacheM α'}
    {next : α → CacheM β}
    {next' : α' → CacheM β'}
    (hFirst : twins.Agree Same first first')
    (hNext : ∀ (after : Twins) answer answer',
      Onward twins after → Same after answer answer' →
        after.Agree Same' (next answer) (next' answer')) :
    twins.Agree Same' (first >>= next) (first' >>= next') := by
  intro hParallel
  have hOutcome := hFirst hParallel
  cases hRun : first twins.used with
  | ok answer used =>
      cases hRun' : first' twins.fresh with
      | ok answer' fresh =>
          rw [run_bind_ok hRun, run_bind_ok hRun']
          rw [hRun, hRun'] at hOutcome
          cases hOutcome with
          | @ok after _ _ hOnward hParallel' hSame =>
              exact (hNext after answer answer' hOnward hSame
                hParallel').from_earlier hOnward
      | error error' fresh =>
          rw [hRun, hRun'] at hOutcome
          cases hOutcome
  | error error used =>
      cases hRun' : first' twins.fresh with
      | ok answer' fresh =>
          rw [hRun, hRun'] at hOutcome
          cases hOutcome
      | error error' fresh =>
          rw [run_bind_error hRun, run_bind_error hRun']
          rw [hRun, hRun'] at hOutcome
          cases hOutcome with
          | error hOnward hParallel' hSame =>
              exact .error hOnward hParallel' hSame

/- Failures stay alike where they end the run. -/
theorem fatal
    {operation : CacheM α}
    {operation' : CacheM α'}
    (hRun : twins.Agree Same operation operation') :
    twins.Agree Same (CacheM.fatal operation)
      (CacheM.fatal operation') := by
  intro hParallel
  have hOutcome := hRun hParallel
  unfold CacheM.fatal EStateM.adaptExcept
  generalize operation twins.used = run at hOutcome
  generalize operation' twins.fresh = run' at hOutcome
  cases hOutcome with
  | ok hOnward hParallel' hSame =>
      exact .ok hOnward hParallel' hSame
  | error hOnward hParallel' hSame =>
      exact .error hOnward hParallel' hSame.fatal

theorem map
    {operation : CacheM α}
    {operation' : CacheM α'}
    {change : α → β}
    {change' : α' → β'}
    (hRun : twins.Agree Same operation operation')
    (hSame : ∀ (after : Twins) answer answer',
      Same after answer answer' →
        Same' after (change answer) (change' answer')) :
    twins.Agree Same' (change <$> operation)
      (change' <$> operation') := by
  rw [map_eq_pure_bind, map_eq_pure_bind]
  apply hRun.bind
  intro after answer answer' _ hAnswer
  exact .pure (hSame after answer answer' hAnswer)

/- What follows a read of the state may use what was read. -/
theorem get
    {next : Cache → CacheM α}
    {next' : Cache → CacheM α'}
    (hNext : twins.Parallel →
      twins.Agree Same (next twins.used) (next' twins.fresh)) :
    twins.Agree Same (MonadState.get >>= next)
      (MonadState.get >>= next') := by
  intro hParallel
  have hSame : ∀ (cache : Cache) {γ : Type}
      (continue_ : Cache → CacheM γ),
      (MonadState.get >>= continue_) cache =
        continue_ cache cache :=
    fun cache _ _ => run_bind_ok (run_get cache)
  rw [hSame, hSame]
  exact hNext hParallel hParallel

theorem inspect
    {Same : Twins → α → α' → Prop}
    {question : Cache → Except CacheError α}
    {question' : Cache → Except CacheError α'}
    (hAsked : twins.Parallel →
      Asked twins (Same twins) (question twins.used)
        (question' twins.fresh)) :
    twins.Agree Same (CacheM.inspect question)
      (CacheM.inspect question') := by
  intro hParallel
  have hAnswers := hAsked hParallel
  unfold CacheM.inspect
  generalize question twins.used = answer at hAnswers
  generalize question' twins.fresh = answer' at hAnswers
  cases hAnswers with
  | ok hSame => exact .ok (Onward.refl twins) hParallel hSame
  | error hSame =>
      exact .error (Onward.refl twins) hParallel hSame

/- The table is the same for both. -/
theorem consult (question : Except ContractViolation α) :
    twins.Agree (fun _ => Eq) (Cache.consult question)
      (Cache.consult question) := by
  cases question with
  | ok answer => exact .pure rfl
  | error cause => exact .refuse (.same cause)

/- What is done to the same items in a row is done alike. -/
theorem mapM
    {Item : Twins → α → α' → Prop}
    {operation : α → CacheM β}
    {operation' : α' → CacheM β'}
    (hItem : ∀ {before after : Twins}, Onward before after →
      ∀ {item item'}, Item before item item' →
        Item after item item')
    (hMono : ∀ {before after : Twins}, Onward before after →
      ∀ {answer answer'}, Same' before answer answer' →
        Same' after answer answer')
    (hEach : ∀ (twins : Twins) item item',
      Item twins item item' →
        twins.Agree Same' (operation item) (operation' item'))
    {items : List α}
    {items' : List α'}
    (hItems : List.Forall₂ (Item twins) items items') :
    twins.Agree
      (fun after => List.Forall₂ (Same' after))
      (items.mapM operation) (items'.mapM operation') := by
  induction items generalizing items' twins with
  | nil =>
      cases hItems
      rw [List.mapM_nil, List.mapM_nil]
      exact .pure .nil
  | cons item items ih =>
      cases hItems with
      | cons hFirst hRest =>
          rw [List.mapM_cons, List.mapM_cons]
          apply (hEach twins _ _ hFirst).bind
          intro middle answer answer' hOnward hAnswer
          apply (ih (hRest.imp fun _ _ => hItem hOnward)).bind
          intro after answers answers' hLast hAnswers
          exact .pure (.cons (hMono hLast hAnswer) hAnswers)

/- The items may be equal, as bindings of the table are. -/
theorem mapM_self
    {operation : α → CacheM β}
    {operation' : α → CacheM β'}
    (hMono : ∀ {before after : Twins}, Onward before after →
      ∀ {answer answer'}, Same' before answer answer' →
        Same' after answer answer')
    (hEach : ∀ (twins : Twins) item,
      twins.Agree Same' (operation item) (operation' item))
    (items : List α) :
    twins.Agree
      (fun after => List.Forall₂ (Same' after))
      (items.mapM operation) (items.mapM operation') := by
  have hItems : List.Forall₂ Eq items items :=
    List.forall₂_same.mpr fun _ _ => rfl
  apply @mapM α α β β' twins Same' (fun _ => Eq) operation
    operation' ?_ hMono ?_ items items hItems
  · exact fun _ _ _ hEq => hEq
  · rintro twins item _ rfl
    exact hEach twins item

theorem optionMapM
    {operation : α → CacheM β}
    {operation' : α → CacheM β'}
    (hEach : ∀ item, twins.Agree Same' (operation item)
      (operation' item))
    (item : Option α) :
    twins.Agree (fun after => Option.Rel (Same' after))
      (item.mapM operation) (item.mapM operation') := by
  cases item with
  | none => exact .pure .none
  | some item => exact (hEach item).map fun _ _ _ => .some

end Agree

------------------------------------------------------------
-- Making And Finding
------------------------------------------------------------

variable {twins : Twins}

theorem agree_intern (text : String) :
    twins.Agree SameName (intern text) (intern text) := by
  intro hParallel
  have hGrown := Interner.Grown.intern twins.used.names text
  have hGrown' := Interner.Grown.intern twins.fresh.names text
  have hName : (twins.withNames
      (twins.used.names.intern text).2
      (twins.fresh.names.intern text).2).SameName
      (twins.used.names.intern text).1
      (twins.fresh.names.intern text).1 :=
    ⟨text,
      Interner.text?_of_find? (Interner.find?_intern _ text),
      Interner.text?_of_find? (Interner.find?_intern _ text)⟩
  exact .ok (onward_withNames hGrown hGrown')
    (hParallel.withNames hGrown hGrown'
      (hParallel.usedNames.intern text)
      (hParallel.freshNames.intern text))
    hName

/- The types that are added are the same. -/
theorem agree_addType
    {kind kind' : TypeKind}
    {origin origin' : TypeOrigin}
    (hKind : twins.SameKind kind kind')
    (hOrigin : twins.SameOrigin origin origin') :
    twins.Agree SameType (addType kind origin)
      (addType kind' origin') := by
  intro hParallel
  let after : Twins := { twins with
    used := twins.used.pushType ⟨kind, origin⟩
    fresh := twins.fresh.pushType ⟨kind', origin'⟩ }
  have hNext : twins.fresh.types.next <
      after.fresh.types.next := by
    simp only [after, types_pushType, Generation.next_push]
    exact Nat.lt_succ_self _
  have hOnward : Onward twins after :=
    ⟨rfl, Interner.Grown.refl _, Interner.Grown.refl _,
      Nat.le_of_lt hNext⟩
  have hData : twins.SameTypeData ⟨kind, origin⟩
      ⟨kind', origin'⟩ := ⟨hKind, hOrigin⟩
  have hParallel' : after.Parallel := {
    usedNames := hParallel.usedNames
    freshNames := hParallel.freshNames
    base := hParallel.base
    types := (hParallel.types.push hData).mono
      fun _ _ => SameTypeData.mono hOnward
    elements := hParallel.elements.mono
      fun _ _ => SameElementData.mono hOnward
    executables := hParallel.executables.imp
      fun _ _ => SameMemo.mono hOnward }
  have hAdded := sameType_of_get? hParallel'
    (Generation.get?_push_next twins.fresh.types
      ⟨kind', origin'⟩)
  have hType : after.SameType ⟨twins.used.types.next⟩
      ⟨twins.fresh.types.next⟩ := by
    rw [hParallel.types.next]
    exact hAdded
  exact .ok hOnward hParallel' hType

/- The elements that are added are the same. -/
theorem agree_addElement
    {data data' : ElementData}
    (hData : twins.SameElementData data data') :
    twins.Agree SameElement (addElement data)
      (addElement data') := by
  intro hParallel
  let after : Twins := { twins with
    used := twins.used.pushElement data
    fresh := twins.fresh.pushElement data' }
  have hOnward : Onward twins after :=
    ⟨rfl, Interner.Grown.refl _, Interner.Grown.refl _,
      Nat.le_refl _⟩
  have hParallel' : after.Parallel := {
    usedNames := hParallel.usedNames
    freshNames := hParallel.freshNames
    base := hParallel.base
    types := hParallel.types.mono
      fun _ _ => SameTypeData.mono hOnward
    elements := (hParallel.elements.push hData).mono
      fun _ _ => SameElementData.mono hOnward
    executables := hParallel.executables.imp
      fun _ _ => SameMemo.mono hOnward }
  have hElement : after.SameElement ⟨twins.used.elements.next⟩
      ⟨twins.fresh.elements.next⟩ :=
    congrArg ElementId.mk hParallel.elements.next
  exact .ok hOnward hParallel' hElement

/- What is changed alike stays the same. -/
theorem agree_modifyElement
    {id id' : ElementId}
    {edit edit' : ElementEdit}
    (hElement : twins.SameElement id id')
    (hChange : ∀ data data',
      twins.SameElementData data data' →
        twins.SameElementData (edit.apply data)
          (edit'.apply data')) :
    twins.Agree (fun _ _ _ => True) (modifyElement id edit)
      (modifyElement id' edit') := by
  intro hParallel
  have hRaw : id.raw = id'.raw + twins.offset.elements :=
    congrArg ElementId.raw hElement
  let after : Twins := { twins with
    used := twins.used.editElement id edit
    fresh := twins.fresh.editElement id' edit' }
  have hOnward : Onward twins after :=
    ⟨rfl, Interner.Grown.refl _, Interner.Grown.refl _,
      Nat.le_refl _⟩
  have hElements : Generation.Alike twins.offset.elements
      twins.SameElementData after.used.elements
      after.fresh.elements := by
    simp only [after, elements_editElement, hRaw]
    apply hParallel.elements.modify
    intro data data' _ _ hData
    exact hChange data data' hData
  have hParallel' : after.Parallel := {
    usedNames := hParallel.usedNames
    freshNames := hParallel.freshNames
    base := hParallel.base
    types := hParallel.types.mono
      fun _ _ => SameTypeData.mono hOnward
    elements := hElements.mono
      fun _ _ => SameElementData.mono hOnward
    executables := hParallel.executables.imp
      fun _ _ => SameMemo.mono hOnward }
  have hDone : (fun (_ : Twins) (_ _ : Unit) => True) after
      () () := trivial
  exact .ok hOnward hParallel' hDone

/- What is remembered anew is the same. -/
private theorem agree_executables
    {change change' :
      List (ElementId × TypeId) → List (ElementId × TypeId)}
    (hChange : ∀ {memos memos'},
      List.Forall₂ twins.SameMemo memos memos' →
        List.Forall₂ twins.SameMemo (change memos)
          (change' memos')) :
    twins.Agree (fun _ _ _ => True)
      (modify fun cache => { cache with
        executables := change cache.executables })
      (modify fun cache => { cache with
        executables := change' cache.executables }) := by
  intro hParallel
  let after : Twins := { twins with
    used := { twins.used with
      executables := change twins.used.executables }
    fresh := { twins.fresh with
      executables := change' twins.fresh.executables } }
  have hOnward : Onward twins after :=
    ⟨rfl, Interner.Grown.refl _, Interner.Grown.refl _,
      Nat.le_refl _⟩
  have hParallel' : after.Parallel := {
    usedNames := hParallel.usedNames
    freshNames := hParallel.freshNames
    base := hParallel.base
    types := hParallel.types.mono
      fun _ _ => SameTypeData.mono hOnward
    elements := hParallel.elements.mono
      fun _ _ => SameElementData.mono hOnward
    executables := (hChange hParallel.executables).imp
      fun _ _ => SameMemo.mono hOnward }
  have hDone : (fun (_ : Twins) (_ _ : Unit) => True) after
      () () := trivial
  exact .ok hOnward hParallel' hDone

theorem agree_rememberExecutable
    {method method' : ElementId}
    {ty ty' : TypeId}
    (hMethod : twins.SameElement method method')
    (hType : twins.SameType ty ty') :
    twins.Agree (fun _ _ _ => True)
      (rememberExecutable method ty)
      (rememberExecutable method' ty') :=
  agree_executables fun hSame => .cons ⟨hMethod, hType⟩ hSame

theorem agree_forgetExecutable
    {method method' : ElementId}
    (hMethod : twins.SameElement method method') :
    twins.Agree (fun _ _ _ => True) (forgetExecutable method)
      (forgetExecutable method') := by
  apply agree_executables
  apply List.rel_filter
  intro memo memo' hMemo
  simp only [ne_eq, decide_not, Bool.not_eq_true',
    decide_eq_false_iff_not]
  exact not_congr (hMemo.method.eq_iff hMethod)

end Twins

end Cache

end Lowering
