import Lowering.Proofs.Cache.Identity
import Lowering.Proofs.Cache.Move
import Lowering.Proofs.Cache.Isolation.Questions

/-
  This file proves that a reset isolates: what is asked of a
  cache after a reset is answered as a new cache answers it.
  Of all that was done before, only the texts are left, and by
  them only the numbers of names can differ.

  The two caches are run in step. One offset of the types and
  one of the elements, given by how many there were before the
  reset, relate the handles throughout.

  Key definitions include:
    * `Cache.Request.Owned`
    * `Cache.Replayed`
    * `Cache.Reused`

  Main results:
    * `Cache.Reached.distinct`
    * `Cache.Replayed.parallel`
    * `Cache.reset_isolates`
-/

namespace Lowering

namespace Cache

------------------------------------------------------------
-- Names Of A History
------------------------------------------------------------

private theorem Change.distinct
    {strict : Prop}
    {before after : Cache}
    (hChange : Change strict before after)
    (hDistinct : before.names.Distinct) :
    after.names.Distinct := by
  cases hChange with
  | text text => exact hDistinct.intern text
  | type => exact hDistinct
  | element => exact hDistinct
  | declared => exact hDistinct
  | executable => exact hDistinct
  | parameter => exact hDistinct
  | modified => exact hDistinct

/- No text gets a second name. -/
theorem Changes.distinct
    {strict : Prop}
    {before after : Cache}
    (hChanges : Changes strict before after)
    (hDistinct : before.names.Distinct) :
    after.names.Distinct := by
  induction hChanges with
  | refl => exact hDistinct
  | tail _ hChange ih => exact hChange.distinct ih

/- In a cache no text ever gets two names. -/
theorem Reached.distinct
    {state : BindingTable × Cache}
    (hReached : Reached state) :
    state.2.names.Distinct := by
  have hKeeps := hReached.keeps fun _ cache =>
    cache.names.Distinct
  apply hKeeps
  · exact fun _ => Interner.Distinct.new
  · intro table cache operation hDistinct
    have hChanges : Changes False cache
        (finalState (operation.perform table cache)) :=
      follows_perform False.elim operation cache
    exact hChanges.distinct hDistinct
  · exact fun _ _ _ hDistinct => hDistinct
  · exact fun _ _ hDistinct => hDistinct

------------------------------------------------------------
-- Runs In Step
------------------------------------------------------------

/-
  What comes with a request belongs to the cache: names that
  it knows, and handles of what is live in it.
-/
structure Request.Owned
    (cache : Cache)
    (request : Request) : Prop where
  names : ∀ name ∈ request.names, cache.Knows name
  types : ∀ ty ∈ request.types, (cache.type? ty).isSome
  elements : ∀ id ∈ request.elements,
    (cache.elements.get? id.raw).isSome

/- Let a cache see a text. -/
def spell (cache : Cache) (text : String) : Cache :=
  { cache with names := (cache.names.intern text).2 }

/- Let a cache see several texts. -/
def spells (cache : Cache) (texts : List String) : Cache :=
  texts.foldl spell cache

/-
  A cache that was reset after any history, and a new one, of
  which the same was asked since, over a table that grew in
  the same way. The new one may see a text before it is asked
  for it, as the other one did before it was reset.
-/
inductive Replayed (offset : Offset) :
    BindingTable → Cache → Cache → Prop
  | start
      {table table' : BindingTable}
      {cache : Cache}
      (reached : Reached (table, cache))
      (types : cache.types.next = 2 + offset.types)
      (elements : cache.elements.next = offset.elements) :
      Replayed offset table' cache.reset {}
  | ask
      {table : BindingTable}
      {used fresh : Cache}
      {request request' : Request}
      (replayed : Replayed offset table used fresh)
      (same : Twins.SameRequest ⟨offset, used, fresh⟩
        request request') :
      Replayed offset table
        (finalState (request.ask table used))
        (finalState (request'.ask table fresh))
  | spell
      {table : BindingTable}
      {used fresh : Cache}
      (replayed : Replayed offset table used fresh)
      (text : String) :
      Replayed offset table used (fresh.spell text)
  | add
      {table : BindingTable}
      {used fresh : Cache}
      (replayed : Replayed offset table used fresh)
      (binding : HostBinding) :
      Replayed offset (table.add binding).2 used fresh

namespace Twins

/- Operations that end alike leave twins. -/
private theorem Outcome.parallel
    {α α' : Type}
    {twins : Twins}
    {Same : Twins → α → α' → Prop}
    {run : EStateM.Result CacheError Cache α}
    {run' : EStateM.Result CacheError Cache α'}
    (hOutcome : Outcome twins Same run run') :
    Parallel ⟨twins.offset, finalState run, finalState run'⟩ := by
  cases hOutcome with
  | ok hOnward hParallel _ =>
      rw [← hOnward.offset]
      exact hParallel
  | error hOnward hParallel _ =>
      rw [← hOnward.offset]
      exact hParallel

private theorem onward_spell
    (offset : Offset)
    (used fresh : Cache)
    (text : String) :
    Onward ⟨offset, used, fresh⟩
      ⟨offset, used, fresh.spell text⟩ :=
  onward_withNames (Interner.Grown.refl _)
    (Interner.Grown.intern fresh.names text)

private theorem Parallel.spell
    {offset : Offset}
    {used fresh : Cache}
    (hParallel : Parallel ⟨offset, used, fresh⟩)
    (text : String) :
    Parallel ⟨offset, used, fresh.spell text⟩ :=
  hParallel.withNames (Interner.Grown.refl _)
    (Interner.Grown.intern fresh.names text)
    hParallel.usedNames (hParallel.freshNames.intern text)

/- A cache that was just reset is the twin of a new one. -/
private theorem parallel_reset
    {offset : Offset}
    {cache : Cache}
    (hDistinct : cache.names.Distinct)
    (hTypes : cache.types.next = 2 + offset.types)
    (hElements : cache.elements.next = offset.elements) :
    Parallel ⟨offset, cache.reset, {}⟩ where
  usedNames := hDistinct
  freshNames := Interner.Distinct.new
  base := rfl
  types := {
    base := hTypes
    next := hTypes
    items := by
      intro handle item item' _ hFresh
      have hBounds := Generation.bounds_of_get? hFresh
      exact absurd hBounds.1 (Nat.not_le.mpr hBounds.2) }
  elements := {
    base := hElements.trans (Nat.zero_add _).symm
    next := hElements.trans (Nat.zero_add _).symm
    items := by
      intro handle item item' _ hFresh
      have hBounds := Generation.bounds_of_get? hFresh
      exact absurd hBounds.1 (Nat.not_le.mpr hBounds.2) }
  executables := .nil

end Twins

/- Caches that are run in step are twins. -/
theorem Replayed.parallel
    {offset : Offset}
    {table : BindingTable}
    {used fresh : Cache}
    (hReplayed : Replayed offset table used fresh) :
    Twins.Parallel ⟨offset, used, fresh⟩ := by
  induction hReplayed with
  | start hReached hTypes hElements =>
      exact Twins.parallel_reset hReached.distinct hTypes
        hElements
  | ask _ hSame ih => exact (Twins.agree_ask hSame ih).parallel
  | spell _ text ih => exact ih.spell text
  | add _ _ ih => exact ih

------------------------------------------------------------
-- The Same Request
------------------------------------------------------------

namespace Twins

variable {twins : Twins}

/- A live type is one that the new cache has too. -/
private theorem exists_sameType
    (hParallel : twins.Parallel)
    {ty : TypeId}
    (hLive : (twins.used.type? ty).isSome) :
    ∃ ty', twins.SameType ty ty' := by
  have hFresh := hParallel.base
  have hBase := hParallel.types.base
  have hNext := hParallel.types.next
  rcases Option.isSome_iff_exists.mp hLive with ⟨data, hType⟩
  rcases (type?_eq_some_iff (by omega)).mp hType with
    ⟨rfl, _⟩ | ⟨rfl, _⟩ | hStored
  · exact ⟨noType, sameType_noType hParallel⟩
  · exact ⟨nullType, sameType_nullType hParallel⟩
  · have hBounds := Generation.bounds_of_get? hStored
    have hRaw : ty.raw - twins.offset.types +
        twins.offset.types = ty.raw := by
      omega
    have hNotFixed : ¬ ty.raw - twins.offset.types < 2 := by
      omega
    refine ⟨⟨ty.raw - twins.offset.types⟩, ?_, ?_⟩
    · simp only [Offset.type, if_neg hNotFixed, hRaw]
    · simp only
      omega

private theorem exists_sameElement
    (hParallel : twins.Parallel)
    {id : ElementId}
    (hLive : (twins.used.elements.get? id.raw).isSome) :
    ∃ id', twins.SameElement id id' := by
  have hBase := hParallel.elements.base
  rcases Option.isSome_iff_exists.mp hLive with ⟨data, hData⟩
  have hBounds := Generation.bounds_of_get? hData
  have hRaw : id.raw - twins.offset.elements +
      twins.offset.elements = id.raw := by
    omega
  refine ⟨⟨id.raw - twins.offset.elements⟩, ?_⟩
  simp only [SameElement, Offset.element, hRaw]

private theorem exists_sameBinding
    {binding : Binding}
    (hNames : ∀ name ∈ binding.names,
      ∃ name', twins.SameName name name')
    (hElements : ∀ id ∈ binding.elements,
      ∃ id', twins.SameElement id id') :
    ∃ binding', twins.SameBinding binding binding' := by
  induction binding with
  | host id => exact ⟨_, .host id⟩
  | generated binding =>
      rcases hNames binding.name List.mem_cons_self with
        ⟨name', hName⟩
      rcases hElements binding.element List.mem_cons_self with
        ⟨id', hElement⟩
      exact ⟨_, .generated hElement binding.family hName⟩
  | generatedPackage name =>
      rcases hNames name List.mem_cons_self with ⟨name', hName⟩
      exact ⟨_, .generatedPackage hName⟩
  | nativeType name =>
      rcases hNames name List.mem_cons_self with ⟨name', hName⟩
      exact ⟨_, .nativeType hName⟩
  | pointer pointee ih =>
      rcases ih hNames hElements with ⟨pointee', hPointee⟩
      exact ⟨_, .pointer hPointee⟩
  | pointerToUnbound => exact ⟨_, .pointerToUnbound⟩

private theorem exists_sameOperation
    {operation : Operation}
    (hNames : ∀ name ∈ operation.names,
      ∃ name', twins.SameName name name')
    (hTypes : ∀ ty ∈ operation.types,
      ∃ ty', twins.SameType ty ty')
    (hElements : ∀ id ∈ operation.elements,
      ∃ id', twins.SameElement id id') :
    ∃ operation', twins.SameOperation operation operation' := by
  cases operation with
  | intern text => exact ⟨_, .intern text⟩
  | wrapType binding =>
      rcases exists_sameBinding hNames hElements with
        ⟨_, hBinding⟩
      exact ⟨_, .wrapType hBinding⟩
  | wrapExecutable id => exact ⟨_, .wrapExecutable id⟩
  | wrapElement binding =>
      rcases exists_sameBinding hNames hElements with
        ⟨_, hBinding⟩
      exact ⟨_, .wrapElement hBinding⟩
  | wrapElementOf family binding =>
      rcases exists_sameBinding hNames hElements with
        ⟨_, hBinding⟩
      exact ⟨_, .wrapElementOf family hBinding⟩
  | wrapPackageDeclaration id annotations =>
      exact ⟨_, .wrapPackageDeclaration id annotations⟩
  | packageElement name =>
      rcases hNames name List.mem_cons_self with ⟨_, hName⟩
      exact ⟨_, .packageElement hName⟩
  | nativeType text => exact ⟨_, .nativeType text⟩
  | pointerType pointee =>
      rcases hTypes pointee List.mem_cons_self with ⟨_, hType⟩
      exact ⟨_, .pointerType hType⟩
  | syntheticArrayType component =>
      rcases hTypes component List.mem_cons_self with ⟨_, hType⟩
      exact ⟨_, .syntheticArrayType hType⟩
  | primitiveType kind => exact ⟨_, .primitiveType kind⟩
  | newTypeElement text enclosing modifiers =>
      cases enclosing with
      | none => exact ⟨_, .newTypeElement text .none modifiers⟩
      | some id =>
          rcases hElements id List.mem_cons_self with
            ⟨_, hElement⟩
          exact ⟨_, .newTypeElement text (.some hElement)
            modifiers⟩
  | newField text ty declaring modifiers =>
      rcases hTypes ty List.mem_cons_self with ⟨_, hType⟩
      rcases hElements declaring List.mem_cons_self with
        ⟨_, hElement⟩
      exact ⟨_, .newField text hType hElement modifiers⟩
  | newMethod selector declaring returnType modifiers =>
      rcases hTypes returnType List.mem_cons_self with ⟨_, hType⟩
      rcases hElements declaring List.mem_cons_self with
        ⟨_, hElement⟩
      exact ⟨_, .newMethod selector hElement hType modifiers⟩
  | newParameter method text ty =>
      rcases hTypes ty List.mem_cons_self with ⟨_, hType⟩
      rcases hElements method List.mem_cons_self with
        ⟨_, hElement⟩
      exact ⟨_, .newParameter hElement text hType⟩
  | executableTypeOf method =>
      rcases hElements method List.mem_cons_self with
        ⟨_, hElement⟩
      exact ⟨_, .executableTypeOf hElement⟩

private theorem exists_sameQuestion
    {question : Question}
    (hNames : ∀ name ∈ question.names,
      ∃ name', twins.SameName name name')
    (hTypes : ∀ ty ∈ question.types,
      ∃ ty', twins.SameType ty ty')
    (hElements : ∀ id ∈ question.elements,
      ∃ id', twins.SameElement id id') :
    ∃ question', twins.SameQuestion question question' := by
  have hType : ∀ {ty : TypeId} {build : TypeId → Question},
      (∀ {ty ty'}, twins.SameType ty ty' →
        twins.SameQuestion (build ty) (build ty')) →
        (∃ ty', twins.SameType ty ty') →
          ∃ question', twins.SameQuestion (build ty) question' :=
    fun hBuild ⟨_, hSame⟩ => ⟨_, hBuild hSame⟩
  have hElement : ∀ {id : ElementId}
      {build : ElementId → Question},
      (∀ {id id'}, twins.SameElement id id' →
        twins.SameQuestion (build id) (build id')) →
        (∃ id', twins.SameElement id id') →
          ∃ question', twins.SameQuestion (build id) question' :=
    fun hBuild ⟨_, hSame⟩ => ⟨_, hBuild hSame⟩
  cases question with
  | nameText name =>
      rcases hNames name List.mem_cons_self with ⟨_, hName⟩
      exact ⟨_, .nameText hName⟩
  | typeData ty =>
      exact hType .typeData (hTypes ty List.mem_cons_self)
  | componentType ty =>
      exact hType .componentType (hTypes ty List.mem_cons_self)
  | primitiveKind ty =>
      exact hType .primitiveKind (hTypes ty List.mem_cons_self)
  | isArray ty =>
      exact hType .isArray (hTypes ty List.mem_cons_self)
  | isPrimitive ty =>
      exact hType .isPrimitive (hTypes ty List.mem_cons_self)
  | categoryName ty =>
      exact hType .categoryName (hTypes ty List.mem_cons_self)
  | display ty =>
      exact hType .display (hTypes ty List.mem_cons_self)
  | bindingOfType ty =>
      exact hType .bindingOfType (hTypes ty List.mem_cons_self)
  | typeBindingOfType ty =>
      exact hType .typeBindingOfType
        (hTypes ty List.mem_cons_self)
  | typeCount => exact ⟨_, .typeCount⟩
  | element id =>
      exact hElement .element (hElements id List.mem_cons_self)
  | elementName id =>
      exact hElement .elementName
        (hElements id List.mem_cons_self)
  | unwrap id =>
      exact hElement .unwrap (hElements id List.mem_cons_self)
  | unwrapOf family id =>
      exact hElement (.unwrapOf family)
        (hElements id List.mem_cons_self)
  | unwrapAnnotations id =>
      exact hElement .unwrapAnnotations
        (hElements id List.mem_cons_self)
  | elementCount => exact ⟨_, .elementCount⟩

end Twins

/- The new cache sees texts without losing anything. -/
private theorem onward_spells
    (offset : Offset)
    (used : Cache)
    (texts : List String)
    (fresh : Cache) :
    Twins.Onward ⟨offset, used, fresh⟩
      ⟨offset, used, fresh.spells texts⟩ := by
  induction texts generalizing fresh with
  | nil => exact Twins.Onward.refl _
  | cons text texts ih =>
      exact (Twins.onward_spell offset used fresh text).trans
        (ih (fresh.spell text))

/-
  The new cache can be shown the texts of any names that the
  used one knows. It stays in step and gets no wrapper.
-/
private theorem Replayed.exists_names
    {offset : Offset}
    {table : BindingTable}
    {used fresh : Cache}
    (hReplayed : Replayed offset table used fresh)
    {names : List Name}
    (hKnows : ∀ name ∈ names, used.Knows name) :
    ∃ texts : List String,
      Replayed offset table used (fresh.spells texts) ∧
        ∀ name ∈ names, ∃ name',
          Twins.SameName
            ⟨offset, used, fresh.spells texts⟩
            name name' := by
  induction names generalizing fresh with
  | nil =>
      refine ⟨[], hReplayed, ?_⟩
      intro name hMem
      cases hMem
  | cons name names ih =>
      rcases Option.isSome_iff_exists.mp
          (hKnows name List.mem_cons_self) with ⟨text, hText⟩
      rcases ih (hReplayed.spell text) (fun name hMem =>
          hKnows name (List.mem_cons_of_mem _ hMem)) with
        ⟨texts, hLater, hNames⟩
      have hSpelled : Twins.SameName
          ⟨offset, used, fresh.spell text⟩ name
            (fresh.names.intern text).1 :=
        ⟨text, hText,
          Interner.text?_of_find? (Interner.find?_intern _ text)⟩
      refine ⟨text :: texts, hLater, ?_⟩
      intro other hMem
      rcases List.mem_cons.mp hMem with rfl | hRest
      · exact ⟨_, hSpelled.mono
          (onward_spells offset used texts (fresh.spell text))⟩
      · exact hNames other hRest

/-
  What can be asked of the used cache can be asked of the new
  one, once that knows the texts.
-/
private theorem Replayed.exists_request
    {offset : Offset}
    {table : BindingTable}
    {used fresh : Cache}
    (hReplayed : Replayed offset table used fresh)
    {request : Request}
    (hOwned : request.Owned used) :
    ∃ (texts : List String) (request' : Request),
      Replayed offset table used (fresh.spells texts) ∧
        Twins.SameRequest
          ⟨offset, used, fresh.spells texts⟩
          request request' := by
  rcases hReplayed.exists_names hOwned.names with
    ⟨texts, hLater, hNames⟩
  have hParallel := hLater.parallel
  have hTypes := fun ty hMem =>
    Twins.exists_sameType hParallel (hOwned.types ty hMem)
  have hElements := fun id hMem =>
    Twins.exists_sameElement hParallel (hOwned.elements id hMem)
  cases request with
  | operation asked =>
      rcases Twins.exists_sameOperation hNames hTypes hElements
        with ⟨asked', hSame⟩
      exact ⟨texts, .operation asked', hLater, .operation hSame⟩
  | question asked =>
      rcases Twins.exists_sameQuestion hNames hTypes hElements
        with ⟨asked', hSame⟩
      exact ⟨texts, .question asked', hLater, .question hSame⟩

------------------------------------------------------------
-- Isolation
------------------------------------------------------------

/-
  A cache that was reset after any history, and of which was
  asked since what it owns, over a table that grew meanwhile.
  There were so many types and elements before the reset as
  the offset says, the two fixed types apart.
-/
inductive Reused (offset : Offset) :
    BindingTable → Cache → Prop
  | reset
      {table table' : BindingTable}
      {cache : Cache}
      (reached : Reached (table, cache))
      (types : cache.types.next = 2 + offset.types)
      (elements : cache.elements.next = offset.elements) :
      Reused offset table' cache.reset
  | ask
      {table : BindingTable}
      {cache : Cache}
      {request : Request}
      (reused : Reused offset table cache)
      (owned : request.Owned cache) :
      Reused offset table (finalState (request.ask table cache))
  | add
      {table : BindingTable}
      {cache : Cache}
      (reused : Reused offset table cache)
      (binding : HostBinding) :
      Reused offset (table.add binding).2 cache

/- All of it can be asked of a new cache. -/
private theorem Reused.exists_fresh
    {offset : Offset}
    {table : BindingTable}
    {used : Cache}
    (hReused : Reused offset table used) :
    ∃ fresh, Replayed offset table used fresh := by
  induction hReused with
  | reset hReached hTypes hElements =>
      exact ⟨{}, .start hReached hTypes hElements⟩
  | ask _ hOwned ih =>
      rcases ih with ⟨fresh, hReplayed⟩
      rcases hReplayed.exists_request hOwned with
        ⟨_, _, hLater, hSame⟩
      exact ⟨_, hLater.ask hSame⟩
  | add _ binding ih =>
      rcases ih with ⟨fresh, hReplayed⟩
      exact ⟨fresh, hReplayed.add binding⟩

/-
  Whatever is asked of a cache since it was reset can be asked
  of a new one, and at every point both answer the same to the
  same request, or fail for the same reason, also in the fatal
  form. The offset, by which handles differ, stays as it was
  when the cache was reset.
-/
theorem reset_isolates
    {offset : Offset}
    {table : BindingTable}
    {used : Cache}
    (hReused : Reused offset table used) :
    (∃ fresh, Replayed offset table used fresh) ∧
    ∀ fresh, Replayed offset table used fresh →
      (∀ request : Request, request.Owned used →
        ∃ (texts : List String) (request' : Request),
          Replayed offset table used (fresh.spells texts) ∧
            Twins.SameRequest
              ⟨offset, used, fresh.spells texts⟩
              request request') ∧
      (∀ request request' : Request,
        Twins.SameRequest ⟨offset, used, fresh⟩
          request request' →
          Twins.Outcome ⟨offset, used, fresh⟩ Twins.SameAnswer
            (request.ask table used)
            (request'.ask table fresh) ∧
          Twins.Outcome ⟨offset, used, fresh⟩ Twins.SameAnswer
            (CacheM.fatal (request.ask table) used)
            (CacheM.fatal (request'.ask table) fresh)) := by
  refine ⟨hReused.exists_fresh, ?_⟩
  intro fresh hReplayed
  refine ⟨fun _ => hReplayed.exists_request, ?_⟩
  intro request request' hSame
  have hAgree : Twins.Agree ⟨offset, used, fresh⟩
      Twins.SameAnswer (request.ask table)
      (request'.ask table) :=
    Twins.agree_ask hSame
  exact ⟨hAgree hReplayed.parallel,
    hAgree.fatal hReplayed.parallel⟩

/- A cache that has made a target scalar. -/
def madeScalar : Cache :=
  finalState ((Operation.nativeType "length").perform
    intArrayTable {})

private theorem reached_madeScalar :
    Reached (intArrayTable, madeScalar) :=
  (Reached.new intArrayTable).later
    (.perform (.nativeType "length") (.same _ _))

/- A cache after another scalar was asked of it. -/
def withScalar (cache : Cache) : Cache :=
  finalState ((Request.operation (.nativeType "size")).ask
    intArrayTable cache)

/-
  The scalar that was made since the reset is the type 3, and
  the type 2 in a new cache. A pointer to it is answered the
  same.
-/
theorem reset_isolates_madeScalar :
    Reused ⟨1, 0⟩ intArrayTable (withScalar madeScalar.reset) ∧
      Replayed ⟨1, 0⟩ intArrayTable
        (withScalar madeScalar.reset) (withScalar {}) ∧
      Twins.Outcome
        ⟨⟨1, 0⟩, withScalar madeScalar.reset, withScalar {}⟩
        Twins.SameAnswer
        ((Request.operation (.pointerType ⟨3⟩)).ask
          intArrayTable (withScalar madeScalar.reset))
        ((Request.operation (.pointerType ⟨2⟩)).ask
          intArrayTable (withScalar {})) := by
  have hTypes : madeScalar.types.next = 2 + 1 := by
    decide +kernel
  have hElements : madeScalar.elements.next = 0 := by
    decide +kernel
  have hReused : Reused ⟨1, 0⟩ intArrayTable
      (withScalar madeScalar.reset) :=
    (Reused.reset reached_madeScalar hTypes hElements).ask {
      names := by simp [Request.names, Operation.names]
      types := by simp [Request.types, Operation.types]
      elements := by simp [Request.elements, Operation.elements] }
  have hReplayed : Replayed ⟨1, 0⟩ intArrayTable
      (withScalar madeScalar.reset) (withScalar {}) :=
    (Replayed.start reached_madeScalar hTypes hElements).ask
      (.operation (.nativeType "size"))
  have hSame : Twins.SameType
      ⟨⟨1, 0⟩, withScalar madeScalar.reset, withScalar {}⟩
      ⟨3⟩ ⟨2⟩ := by
    refine ⟨?_, ?_⟩ <;> decide +kernel
  refine ⟨hReused, hReplayed, ?_⟩
  exact (((reset_isolates hReused).2 _ hReplayed).2 _ _
    (.operation (.pointerType hSame))).1

end Cache

end Lowering
