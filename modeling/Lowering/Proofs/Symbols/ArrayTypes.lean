import Lowering.Environment
import Lowering.Proofs.Cache.Traced

/-
  This file proves what the array type over a component is:
  the wrapper of the first array that the host reported over
  the type binding that the component stands for, and where
  there is none, the synthetic array over the component.

  The way leads from the component to a binding, from there to
  an array binding and back to a type, so the array that is
  found is over the wrapper of the binding. That is the
  component itself, unless the component is the lack of a type
  or a shape of array, which stand for bindings without being
  their wrappers.

  Main results:
    * `Environment.run_arrayType`
    * `Environment.array_types_prefer_the_host`
-/

namespace Lowering

namespace Environment

variable {table : BindingTable}
variable {cache after : Cache}
variable {component array : TypeId}

------------------------------------------------------------
-- The Choice Of An Array
------------------------------------------------------------

/- The array of the host that is preferred, if it has one. -/
def hostArray?
    (table : BindingTable) : Option Binding → Option BindingId
  | some (.host id) => table.findArrayOf? id
  | _ => none

/- An array type is the wrapper of an array, or is made. -/
theorem run_arrayType
    {found : Option Binding}
    (hFound : cache.bindingOfType table component = .ok found) :
    arrayType table component cache =
      (match hostArray? table
        (found.filter (Cache.standsForType table)) with
      | some id => CacheM.fatal (Cache.wrapHostType table id)
      | none => Cache.syntheticArrayType component) cache := by
  have hAsk : CacheM.fatal (CacheM.inspect
      (·.typeBindingOfType table component)) cache =
        .ok (found.filter (Cache.standsForType table)) cache := by
    apply run_fatal_ok
    apply run_inspectCache_ok
    unfold Cache.typeBindingOfType
    rw [hFound]
    rfl
  unfold arrayType
  rw [run_bind_ok hAsk]
  unfold hostArray?
  cases found.filter (Cache.standsForType table) with
  | none => rfl
  | some binding => cases binding <;> rfl

/-
  Where an array type is given, the component has a binding,
  and the type is wrapped or made.
-/
private theorem arrayType_eq_ok
    (hRun : arrayType table component cache =
      .ok array after) :
    ∃ found,
      cache.bindingOfType table component = .ok found ∧
        ((∃ host,
          hostArray? table
              (found.filter (Cache.standsForType table)) =
                some host ∧
            Cache.wrapHostType table host cache =
              .ok array after) ∨
        (hostArray? table
              (found.filter (Cache.standsForType table)) =
                none ∧
            Cache.syntheticArrayType component cache =
              .ok array after)) := by
  cases hFound : cache.bindingOfType table component with
  | error error =>
      have hAsk : CacheM.fatal (CacheM.inspect
          (·.typeBindingOfType table component)) cache =
            .error error.fatal cache := by
        apply run_fatal_error
        apply run_inspectCache_error
        unfold Cache.typeBindingOfType
        rw [hFound]
        rfl
      unfold arrayType at hRun
      rw [run_bind_error hAsk] at hRun
      cases hRun
  | ok found =>
      refine ⟨found, rfl, ?_⟩
      rw [run_arrayType hFound] at hRun
      cases hHost : hostArray? table
          (found.filter (Cache.standsForType table)) with
      | none =>
          rw [hHost] at hRun
          exact Or.inr ⟨rfl, hRun⟩
      | some host =>
          rw [hHost] at hRun
          simp only [] at hRun
          refine Or.inl ⟨host, rfl, ?_⟩
          cases hWrap : Cache.wrapHostType table host cache with
          | ok found found' =>
              rw [run_fatal_ok hWrap] at hRun
              exact hRun
          | error error found' =>
              rw [run_fatal_error hWrap] at hRun
              cases hRun

/-
  The array of the host is preferred where the component
  stands for a binding that the host has an array over.
-/
private theorem hostArray?_eq_some_iff
    (hCanonical : cache.Canonical)
    (hCoherent : cache.Coherent table)
    {found : Option Binding}
    (hTraced : Cache.Traced table cache component found)
    {host : BindingId} :
    hostArray? table
        (found.filter (Cache.standsForType table)) =
          some host ↔
      ∃ id, Cache.Represents table cache component id ∧
        table.FirstArrayOver id host := by
  have hStands := hTraced.represents_iff hCanonical hCoherent
  constructor
  · intro hHost
    unfold hostArray? at hHost
    split at hHost
    · next id hFound =>
      exact ⟨id, (hStands id).mp hFound,
        BindingTable.findArrayOf?_eq_some_iff.mp hHost⟩
    · cases hHost
  · rintro ⟨id, hRepresents, hFirst⟩
    rw [(hStands id).mpr hRepresents]
    exact BindingTable.findArrayOf?_eq_some_iff.mpr hFirst

------------------------------------------------------------
-- The State Afterwards
------------------------------------------------------------

/- The state in which an array type is given is reached. -/
private theorem reached_of_arrayType
    (hReached : Cache.Reached (table, cache))
    (hRun : arrayType table component cache =
      .ok array after) :
    Cache.Reached (table, after) := by
  have hPerform : ∀ operation : Cache.Operation,
      finalState (operation.perform table cache) = after →
        Cache.Reached (table, after) := by
    rintro operation rfl
    exact hReached.later (.perform operation (.same table cache))
  rcases arrayType_eq_ok hRun with
    ⟨_, _, ⟨host, _, hWrap⟩ | ⟨_, hMade⟩⟩
  · apply hPerform (.wrapType (.host host))
    exact (Cache.finalState_map _ _ cache).trans
      (congrArg finalState hWrap)
  · apply hPerform (.syntheticArrayType component)
    exact (Cache.finalState_map _ _ cache).trans
      (congrArg finalState hMade)

private theorem grown_of_arrayType
    (hRun : arrayType table component cache =
      .ok array after) :
    Cache.Grown cache after := by
  rcases arrayType_eq_ok hRun with
    ⟨_, _, ⟨host, _, hWrap⟩ | ⟨_, hMade⟩⟩
  · have hTypes : Follows (Cache.TypesOnly False)
        (Cache.wrapHostType table host) cache :=
      Cache.typesOnly_wrapHostType False.elim host cache
    exact (hTypes.run_ok hWrap).changes.grown
  · have hTypes : Follows (Cache.TypesOnly False)
        (Cache.syntheticArrayType component) cache :=
      Cache.follows_syntheticArrayType component cache
    exact (hTypes.run_ok hMade).changes.grown

------------------------------------------------------------
-- Array Types
------------------------------------------------------------

/- The wrapper of an array is over that of its component. -/
private theorem componentType_of_arrayOver
    (hBase : 2 ≤ cache.types.base)
    (hCoherent : cache.Coherent table)
    {id host : BindingId}
    (hOver : table.ArrayOver id host)
    (hArray : cache.typeOf? host = some array) :
    ∃ inner,
      cache.componentType array = .ok (some inner) ∧
        cache.typeOf? id = some inner := by
  rcases hOver with ⟨binding, hGet, hFlag, hComponent⟩
  rcases hCoherent.typeOf? hBase hArray with
    ⟨binding', kind, hGet', hData, hKind⟩
  cases hGet.symm.trans hGet'
  have hForm : binding.form = .array := by
    unfold TypeBinding.form
    rw [if_pos hFlag]
  unfold Cache.prescribed? at hKind
  simp only [hForm, hComponent, Option.bind_some] at hKind
  rcases Option.map_eq_some_iff.mp hKind with ⟨inner, hOver, rfl⟩
  refine ⟨inner, ?_, hOver⟩
  unfold Cache.componentType
  rw [hData]
  rfl

/- The same array type is given again. -/
private theorem arrayType_again
    {later : Cache}
    (hAcyclic : table.Acyclic)
    (hRun : arrayType table component cache =
      .ok array after)
    (hLater : Cache.Grown after later) :
    arrayType table component later = .ok array later := by
  have hGrown := (grown_of_arrayType hRun).trans hLater
  rcases arrayType_eq_ok hRun with ⟨found, hFound, hChosen⟩
  have hTraced := Cache.bindingOfType_eq_ok_iff.mp hFound
  rw [run_arrayType (hTraced.mono hGrown).bindingOfType]
  rcases hChosen with ⟨host, hHost, hWrap⟩ | ⟨hNone, hMade⟩
  · rw [hHost]
    apply run_fatal_ok
    exact Cache.wrapHostType_again hAcyclic hWrap hLater
  · rw [hNone]
    exact Cache.synthesize_again hMade hLater

/- A component is given an array type if it is grounded. -/
private theorem arrayType_ok_iff
    (hReached : Cache.Reached (table, cache))
    (hAcyclic : table.Acyclic) :
    (∃ array after,
      arrayType table component cache = .ok array after) ↔
      cache.Grounded component := by
  have hOwned : cache.Owned := hReached.owned hAcyclic
  have hCoherent : cache.Coherent table :=
    hReached.coherent hAcyclic
  have hCanonical : cache.Canonical :=
    hReached.canonical hAcyclic
  have hBase : 2 ≤ cache.types.base := hReached.sound.base
  rw [Cache.grounded_iff table hOwned]
  constructor
  · rintro ⟨array, after, hRun⟩
    rcases arrayType_eq_ok hRun with ⟨found, hFound, _⟩
    exact ⟨found,
      Cache.bindingOfType_eq_ok_iff.mp hFound⟩
  · rintro ⟨found, hTraced⟩
    rw [run_arrayType hTraced.bindingOfType]
    cases hHost : hostArray? table
        (found.filter (Cache.standsForType table)) with
    | none =>
        rcases Cache.exists_of_synthesize hBase
            (.array component) (by simp) (by simp) with
          ⟨array, after, hMade, _⟩
        exact ⟨array, after, hMade⟩
    | some host =>
        rcases (hostArray?_eq_some_iff hCanonical hCoherent
          hTraced).mp hHost with ⟨id, hRepresents, hFirst⟩
        have hWrappable := Cache.wrappable_arrayOver
          (hRepresents.wrappable hBase hAcyclic hCoherent
            hCanonical) hFirst.isArray
        rcases hCoherent.wrapHostType_cases hBase hAcyclic host
          with ⟨array, after, hWrap, _⟩ | ⟨_, _, _, _, hRefused⟩
        · exact ⟨array, after, run_fatal_ok hWrap⟩
        · exact absurd hRefused hWrappable.not_refused

/-
  An array type is the right one for a component: it is over
  the component, unless that is the lack of a type or a shape
  of array; it wraps the first array of the host over what the
  component stands for; and where the host has no such array,
  it is the synthetic array over the component.
-/
structure Preferred
    (table : BindingTable)
    (cache after : Cache)
    (component array inner : TypeId) : Prop where
  isArray : after.componentType array = .ok (some inner)
  same : component ≠ Cache.noType →
    (∀ part, cache.typeData component ≠
      .ok ⟨.array part, .synthetic⟩) →
      inner = component
  wrapped : ∀ id host,
    Cache.Represents table cache component id →
      table.FirstArrayOver id host →
        after.typeOf? host = some array ∧
          after.typeOf? id = some inner
  shaped :
    (∀ id host, Cache.Represents table cache component id →
      ¬ table.ArrayOver id host) →
      inner = component ∧
        after.typeData array =
          .ok ⟨.array component, .synthetic⟩

/- An array of the host is the first over one binding only. -/
private theorem preferred_of_wrapHostType
    (hReached : Cache.Reached (table, after))
    (hAcyclic : table.Acyclic)
    (hGrown : Cache.Grown cache after)
    {id host : BindingId}
    (hRepresents : Cache.Represents table cache component id)
    (hFirst : table.FirstArrayOver id host)
    (hOnly : ∀ id' host',
      Cache.Represents table cache component id' →
        table.FirstArrayOver id' host' → host' = host)
    (hArray : after.typeOf? host = some array) :
    ∃ inner, Preferred table cache after component array inner := by
  have hCoherent : after.Coherent table :=
    hReached.coherent hAcyclic
  have hCanonical : after.Canonical :=
    hReached.canonical hAcyclic
  have hBase : 2 ≤ after.types.base := hReached.sound.base
  rcases componentType_of_arrayOver hBase hCoherent hFirst.isArray
    hArray with ⟨inner, hIsArray, hOver⟩
  refine ⟨inner, hIsArray, ?_, ?_, ?_⟩
  · intro hSome hShape
    cases hRepresents with
    | wrapper hType hGet _ =>
        have hFound := Cache.typeOf?_of_type? hBase hCoherent
          hCanonical (hGrown.type? hType) hGet
        exact Option.some.inj (hOver.symm.trans hFound)
    | void => exact absurd rfl hSome
    | array hType _ _ =>
        exact absurd (Cache.typeData_eq_ok_iff.mpr hType)
          (hShape _)
  · intro id' host' hRepresents' hFirst'
    cases hOnly id' host' hRepresents' hFirst'
    rcases hFirst.isArray with ⟨binding, hGet, _, hComponent⟩
    rcases hFirst'.isArray with ⟨_, hGet', _, hComponent'⟩
    cases hGet.symm.trans hGet'
    cases hComponent.symm.trans hComponent'
    exact ⟨hArray, hOver⟩
  · intro hNone
    exact absurd hFirst.isArray (hNone id host hRepresents)

/- A shape of array is made only without an array to prefer. -/
private theorem preferred_of_syntheticArrayType
    (hBase : 2 ≤ after.types.base)
    (hNone : ∀ id host,
      Cache.Represents table cache component id →
        ¬ table.FirstArrayOver id host)
    (hMade : Cache.syntheticArrayType component cache =
      .ok array after) :
    Preferred table cache after component array component := by
  have hType : after.type? array =
      some ⟨.array component, .synthetic⟩ := by
    apply (Cache.type?_eq_some_iff hBase).mpr
    exact Or.inr (Or.inr
      (Cache.get?_of_shape? (Cache.shape?_of_synthesize hMade)))
  have hData := Cache.typeData_eq_ok_iff.mpr hType
  refine ⟨?_, fun _ _ => rfl, ?_, fun _ => ⟨rfl, hData⟩⟩
  · unfold Cache.componentType
    rw [hData]
    rfl
  · intro id host hRepresents hFirst
    exact absurd hFirst (hNone id host hRepresents)

/-
  Over a table without circular bindings, after any history: a
  component is given an array type if and only if all that is
  followed to find its binding is live; the type is the right
  one; and as long as the table stays the same, the same type
  is given again.
-/
theorem array_types_prefer_the_host
    (hReached : Cache.Reached (table, cache))
    (hAcyclic : table.Acyclic)
    (component : TypeId) :
    ((∃ array after,
      arrayType table component cache = .ok array after) ↔
      cache.Grounded component) ∧
    ∀ array after,
      arrayType table component cache = .ok array after →
        (∃ inner,
          Preferred table cache after component array inner) ∧
        ∀ later,
          Cache.Later (table, after) (table, later) →
            arrayType table component later =
              .ok array later := by
  refine ⟨arrayType_ok_iff hReached hAcyclic, ?_⟩
  intro array after hRun
  refine ⟨?_, fun later hLater =>
    arrayType_again hAcyclic hRun hLater.grown⟩
  have hReached' := reached_of_arrayType hReached hRun
  rcases arrayType_eq_ok hRun with ⟨found, hFound, hChosen⟩
  have hTraced := Cache.bindingOfType_eq_ok_iff.mp hFound
  have hPreferred : ∀ host,
      hostArray? table
          (found.filter (Cache.standsForType table)) =
            some host ↔
        ∃ id, Cache.Represents table cache component id ∧
          table.FirstArrayOver id host :=
    fun _ => hostArray?_eq_some_iff
      (hReached.canonical hAcyclic)
      (hReached.coherent hAcyclic) hTraced
  rcases hChosen with ⟨host, hHost, hWrap⟩ | ⟨hNone, hMade⟩
  · rcases (hPreferred _).mp hHost with ⟨id, hRepresents, hFirst⟩
    apply preferred_of_wrapHostType hReached' hAcyclic
      (grown_of_arrayType hRun) hRepresents hFirst
    · intro id' host' hRepresents' hFirst'
      have hHost' :=
        (hPreferred _).mpr ⟨id', hRepresents', hFirst'⟩
      exact Option.some.inj (hHost'.symm.trans hHost)
    · exact Cache.typeOf?_of_wrapHostType hAcyclic hWrap
  · refine ⟨component, preferred_of_syntheticArrayType
      hReached'.sound.base ?_ hMade⟩
    intro id host hRepresents hFirst
    have hHost := (hPreferred _).mpr ⟨id, hRepresents, hFirst⟩
    rw [hNone] at hHost
    cases hHost

/-
  A table with a target scalar and the array over it, the
  array over `void`, and the arrays over `int` and over those.
-/
def arraysTable : BindingTable :=
  ⟨#[
    .type (.native "NSInteger"),
    .type (.arrayOf ⟨9⟩ "NSInteger" "NSInteger"),
    .type (.arrayOf BindingTable.void "void" "V"),
    .type (.arrayOf (BindingTable.primitive .int) "int" "I"),
    .type (.arrayOf ⟨12⟩ "int[]" "[I")]⟩

/- The scalar, `int`, and the synthetic array over `int`. -/
def arraysCache : Cache :=
  Cache.performAll arraysTable [
    .wrapType (.host ⟨9⟩),
    .primitiveType .int,
    .syntheticArrayType ⟨3⟩] {}

/- The same after a reset, and a pointer to what was dropped. -/
def droppedCache : Cache :=
  Cache.performAll arraysTable [.pointerType ⟨2⟩]
    arraysCache.reset

private theorem reached_arrays :
    Cache.Reached (arraysTable, arraysCache) :=
  (Cache.Reached.new arraysTable).later
    (Cache.Later.performAll _ (.same _ _))

private theorem acyclic_arrays : arraysTable.Acyclic :=
  BindingTable.acyclic_of_older (by decide +kernel)

private theorem reached_dropped :
    Cache.Reached (arraysTable, droppedCache) :=
  reached_arrays.reset.later (Cache.Later.performAll _ (.same _ _))

/-
  The synthetic array over `int` stands for the array of the
  host, and is given the array of the host over that.
-/
theorem array_types_prefer_the_host_grid :
    Cache.Reached (arraysTable, arraysCache) ∧
      arraysTable.Acyclic ∧
      arraysCache.typeData ⟨4⟩ =
        .ok ⟨.array ⟨3⟩, .synthetic⟩ ∧
      ∃ array after inner,
        arrayType arraysTable ⟨4⟩ arraysCache =
            .ok array after ∧
          after.componentType array = .ok (some inner) ∧
          after.typeOf? ⟨13⟩ = some array ∧
          after.typeOf? ⟨12⟩ = some inner ∧
          arrayType arraysTable ⟨4⟩ after =
            .ok array after := by
  have hShape : arraysCache.typeData ⟨4⟩ =
      .ok ⟨.array ⟨3⟩, .synthetic⟩ := by
    decide +kernel
  have hInt : arraysCache.typeData ⟨3⟩ = .ok
      ⟨.primitive .int, .host (BindingTable.primitive .int)⟩ := by
    decide +kernel
  have hArray : arraysTable.FirstArrayOver
      (BindingTable.primitive .int) ⟨12⟩ :=
    BindingTable.findArrayOf?_eq_some_iff.mp (by decide +kernel)
  have hGrid : arraysTable.FirstArrayOver ⟨12⟩ ⟨13⟩ :=
    BindingTable.findArrayOf?_eq_some_iff.mp (by decide +kernel)
  have hRepresents : Cache.Represents arraysTable arraysCache
      ⟨4⟩ ⟨12⟩ :=
    .array (Cache.typeData_eq_ok_iff.mp hShape)
      (.wrapper (Cache.typeData_eq_ok_iff.mp hInt) rfl (by simp))
      hArray
  have hRun : arrayType arraysTable ⟨4⟩ arraysCache = .ok ⟨6⟩
      (finalState (arrayType arraysTable ⟨4⟩ arraysCache)) := by
    apply eq_ok_of_answer?
    decide +kernel
  rcases (array_types_prefer_the_host reached_arrays
    acyclic_arrays ⟨4⟩).2 _ _ hRun with
      ⟨⟨inner, hPreferred⟩, hAgain⟩
  rcases hPreferred.wrapped _ _ hRepresents hGrid with
    ⟨hHost, hOver⟩
  exact ⟨reached_arrays, acyclic_arrays, hShape, _, _, inner,
    hRun, hPreferred.isArray, hHost, hOver,
    hAgain _ (.same _ _)⟩

/-
  The origin of a component does not tell its array type: a
  target scalar of the host is not given the array of the
  host; the lack of a type and a synthetic array are given
  arrays over other types; and a live pointer to a type that
  was dropped is given none.
-/
theorem array_types_do_not_follow_origins :
    Cache.Reached (arraysTable, arraysCache) ∧
      Cache.Reached (arraysTable, droppedCache) ∧
      arraysTable.Acyclic ∧
      (arraysCache.typeData ⟨2⟩ =
          .ok ⟨.native ⟨1⟩, .host ⟨9⟩⟩ ∧
        arraysTable.FirstArrayOver ⟨9⟩ ⟨10⟩ ∧
        ∃ array after,
          arrayType arraysTable ⟨2⟩ arraysCache =
              .ok array after ∧
            after.typeOf? ⟨10⟩ ≠ some array) ∧
      (∃ array after inner,
        arrayType arraysTable Cache.noType arraysCache =
            .ok array after ∧
          after.componentType array = .ok (some inner) ∧
          inner ≠ Cache.noType) ∧
      (∃ array after inner,
        arrayType arraysTable ⟨4⟩ arraysCache =
            .ok array after ∧
          after.componentType array = .ok (some inner) ∧
          inner ≠ ⟨4⟩) ∧
      droppedCache.typeData ⟨5⟩ =
        .ok ⟨.pointer ⟨2⟩, .synthetic⟩ ∧
      ∀ array after,
        arrayType arraysTable ⟨5⟩ droppedCache ≠
          .ok array after := by
  refine ⟨reached_arrays, reached_dropped, acyclic_arrays, ?_,
    ?_, ?_, by decide +kernel, ?_⟩
  · refine ⟨by decide +kernel,
      BindingTable.findArrayOf?_eq_some_iff.mp
        (by decide +kernel), ⟨5⟩, _, eq_ok_of_answer? ?_, ?_⟩ <;>
      decide +kernel
  · refine ⟨⟨6⟩, _, ⟨5⟩, eq_ok_of_answer? ?_, ?_, ?_⟩ <;>
      decide +kernel
  · refine ⟨⟨6⟩, _, ⟨5⟩, eq_ok_of_answer? ?_, ?_, ?_⟩ <;>
      decide +kernel
  · intro array after hRun
    have hNone : answer?
        (arrayType arraysTable ⟨5⟩ droppedCache) = none := by
      decide +kernel
    rw [hRun] at hNone
    cases hNone

end Environment

end Lowering
