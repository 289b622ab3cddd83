import Lowering.Proofs.Cache.RoundTrip.Elements
import Lowering.Proofs.Cache.SealedOperation
import Lowering.Proofs.Cache.Traced

/-
  This file proves that the binding behind the type of a
  binding is that binding again, up to one thing: where the
  host reports a target scalar, the binding behind its type is
  the one that is made up for its spelling. Bindings that were
  so normalised come back as they are.

  Key definitions include:
    * `Cache.Admissible`
    * `Cache.normal`

  Main results:
    * `Cache.normal_normal`
    * `Cache.type_bindings_round_trip`
-/

namespace Lowering

namespace Cache

variable {table : BindingTable}
variable {cache after later : Cache}

------------------------------------------------------------
-- Bindings Of Types
------------------------------------------------------------

/-
  The bindings that have a type: those of the host that wrap,
  target scalars, the binding behind a live generated class,
  and pointers to what has a type or to nothing known.
-/
inductive Admissible
    (table : BindingTable)
    (cache : Cache) : Binding → Prop
  | host
      {id : BindingId}
      {ty : TypeId}
      {after : Cache}
      (wrapped : wrapHostType table id cache = .ok ty after) :
      Admissible table cache (.host id)
  | nativeType (name : Name) :
      Admissible table cache (.nativeType name)
  | class
      {element : ElementId}
      {data : ElementData}
      {binding : Binding}
      (live : cache.element element = .ok data)
      (origin : data.origin = .generated)
      (kind : ElementFamily.type.accepts data.kind = true)
      (unwrapped : cache.unwrap element = .ok binding) :
      Admissible table cache binding
  | pointerToUnbound :
      Admissible table cache .pointerToUnbound
  | pointer
      {pointee : Binding}
      (target : Admissible table cache pointee) :
      Admissible table cache (.pointer pointee)

/-
  A binding in which each host binding whose wrapper is a
  target scalar is replaced by the binding of its name.
-/
def normal
    (cache : Cache)
    (table : BindingTable) : Binding → Binding
  | .host id =>
    match table.get? id, (cache.typeOf? id).bind cache.type? with
    | some (.type binding), some ⟨.native _, _⟩ =>
      .nativeType (cache.names.intern binding.name).1
    | _, _ => .host id
  | .pointer pointee => .pointer (cache.normal table pointee)
  | binding => binding

private theorem normal_host_cases (id : BindingId) :
    (∃ name,
      cache.normal table (.host id) = .nativeType name) ∨
      cache.normal table (.host id) = .host id := by
  unfold normal
  split
  · exact Or.inl ⟨_, rfl⟩
  · exact Or.inr rfl

/- What is normal stays as it is. -/
theorem normal_normal (binding : Binding) :
    cache.normal table (cache.normal table binding) =
      cache.normal table binding := by
  induction binding with
  | host id =>
      rcases @normal_host_cases table cache id with
        ⟨name, hName⟩ | hSame
      · rw [hName]
        rfl
      · rw [hSame, hSame]
  | pointer pointee ih =>
      simp only [normal]
      rw [ih]
  | _ => rfl

------------------------------------------------------------
-- From A Binding To Its Type And Back
------------------------------------------------------------

/- Behind a type stands the normal form of a binding. -/
private structure StandsBehind
    (table : BindingTable)
    (cache : Cache)
    (ty : TypeId)
    (binding : Binding) : Prop where
  traced :
    Traced table cache ty (some (cache.normal table binding))
  stands :
    standsForType table (cache.normal table binding) = true

private theorem StandsBehind.typeBindingOfType
    {ty : TypeId}
    {binding : Binding}
    (hBehind : StandsBehind table cache ty binding) :
    cache.typeBindingOfType table ty =
      .ok (some (cache.normal table binding)) := by
  unfold Cache.typeBindingOfType
  rw [hBehind.traced.bindingOfType]
  change Except.ok (Option.filter _ (some _)) = _
  rw [Option.filter_some, if_pos hBehind.stands]

/- Behind the wrapper of a host binding stands the binding. -/
private theorem standsBehind_host
    (hCoherent : cache.Coherent table)
    (hBase : 2 ≤ cache.types.base)
    {id : BindingId}
    {ty : TypeId}
    (hType : cache.typeOf? id = some ty) :
    StandsBehind table cache ty (.host id) := by
  rcases hCoherent.typeOf? hBase hType with
    ⟨binding, kind, hGet, hData, hKind⟩
  have hTyped := typeData_eq_ok_iff.mp hData
  rcases find?_of_prescribed? hKind with ⟨hPointer, hNative⟩
  by_cases hScalar : ∃ name, kind = .native name
  · rcases hScalar with ⟨name, rfl⟩
    have hName := Interner.intern_of_find? (hNative name rfl)
    have hNormal : cache.normal table (.host id) =
        .nativeType name := by
      simp only [normal, hGet, hType, Option.bind_some, hTyped,
        hName]
    constructor
    · rw [hNormal]
      exact .scalar hTyped
    · rw [hNormal]
      rfl
  · have hNormal : cache.normal table (.host id) =
        .host id := by
      simp only [normal, hGet, hType, Option.bind_some, hTyped]
      split
      · next hEq =>
        cases hEq
        exact absurd ⟨_, rfl⟩ hScalar
      · rfl
    constructor
    · rw [hNormal]
      exact .host hTyped (fun name hEq => hScalar ⟨name, hEq⟩)
        hPointer
    · rw [hNormal]
      simp [standsForType, hGet]

/- The binding behind a class is that of its element. -/
private theorem eq_generated_of_unwrap
    {element : ElementId}
    {data : ElementData}
    {binding : Binding}
    (hLive : cache.element element = .ok data)
    (hOrigin : data.origin = .generated)
    (hKind : ElementFamily.type.accepts data.kind = true)
    (hUnwrap : cache.unwrap element = .ok binding) :
    binding = .generated ⟨element, .type, data.name⟩ := by
  cases (unwrap_of_generated (element_eq_ok_iff.mp hLive)
    hOrigin).symm.trans hUnwrap
  cases hData : data.kind with
  | type => rfl
  | typeParameter => rfl
  | _ =>
      rw [hData] at hKind
      cases hKind

/-
  A binding that has a type is wrapped, and its normal form
  stands behind the type until the cache is reset.
-/
private theorem Admissible.standsBehind
    (hAcyclic : table.Acyclic)
    (hClosed : cache.Closed False)
    {binding : Binding}
    (hAdmissible : Admissible table cache binding) :
    ∃ ty after,
      wrapType table binding cache = .ok ty after ∧
        Grown cache after ∧
        ∀ later, Grown after later → later.Coherent table →
          StandsBehind table later ty binding := by
  induction hAdmissible with
  | @host id ty after hRun =>
      have hMade : Follows (TypesOnly False)
          (wrapHostType table id) cache :=
        typesOnly_wrapHostType False.elim id cache
      have hGrown := (hMade.run_ok hRun).changes.grown
      have hFound := typeOf?_of_wrapHostType hAcyclic hRun
      refine ⟨ty, after, ?_, hGrown, ?_⟩
      · unfold Cache.wrapType
        exact hRun
      · intro later hLater hCoherent
        have hBase : 2 ≤ later.types.base := by
          rw [(hGrown.trans hLater).types.base]
          exact hClosed.base
        exact standsBehind_host hCoherent hBase
          (hLater.typeOf? hFound)
  | nativeType name =>
      rcases exists_of_synthesize hClosed.base
          (.native name) (by simp) (by simp) with
        ⟨ty, after, hRun, hGrown, hType⟩
      refine ⟨ty, after, ?_, hGrown, ?_⟩
      · unfold Cache.wrapType
        exact hRun
      · intro later hLater _
        exact ⟨.scalar (hLater.type? hType), rfl⟩
  | @«class» element data binding hLive hOrigin hKind hUnwrap =>
      cases eq_generated_of_unwrap hLive hOrigin hKind hUnwrap
      rcases hClosed.classes _ _ (element_eq_ok_iff.mp hLive)
          hOrigin hKind with ⟨ty, hTy, hType⟩
      refine ⟨ty, cache, ?_, Grown.refl cache, ?_⟩
      · unfold Cache.wrapType
        have hInspect : CacheM.inspect (·.element element) cache =
            .ok data cache := run_inspectCache_ok hLive
        rw [run_bind_ok hInspect]
        simp only [hTy]
        rfl
      · intro later hLater _
        have hClass : Traced table cache ty
            (some (.generated ⟨element, .type, data.name⟩)) :=
          .class hType (by simp) (by simp) (by simp) hLive
        exact ⟨hClass.mono hLater, rfl⟩
  | pointerToUnbound =>
      rcases exists_of_synthesize hClosed.base
          (.pointer nullType) (by simp) (by simp) with
        ⟨ty, after, hRun, hGrown, hType⟩
      refine ⟨ty, after, ?_, hGrown, ?_⟩
      · unfold Cache.wrapType
        exact hRun
      · intro later hLater _
        exact ⟨.pointer (hLater.type? hType) .null, rfl⟩
  | @pointer pointee _ ih =>
      rcases ih with ⟨target, middle, hFirst, hGrown, hBehind⟩
      rcases exists_of_synthesize
          (hGrown.types.base ▸ hClosed.base)
          (.pointer target) (by simp) (by simp) with
        ⟨ty, after, hRun, hGrown', hType⟩
      refine ⟨ty, after, ?_, hGrown.trans hGrown', ?_⟩
      · unfold Cache.wrapType
        rw [run_bind_ok hFirst]
        exact hRun
      · intro later hLater hCoherent
        have hTarget := hBehind later (hGrown'.trans hLater)
          hCoherent
        have hPointer : pointerBinding table
            (some (later.normal table pointee)) =
              later.normal table (.pointer pointee) := by
          unfold pointerBinding
          rw [Option.filter_some, if_pos hTarget.stands]
          rfl
        refine ⟨?_, rfl⟩
        rw [← hPointer]
        exact .pointer (hLater.type? hType) hTarget.traced

------------------------------------------------------------
-- Normal Bindings
------------------------------------------------------------

/- The normal form of a binding that has a type has one. -/
private theorem Admissible.normal
    {binding : Binding}
    (hAdmissible : Admissible table cache binding) :
    Admissible table cache (cache.normal table binding) := by
  induction hAdmissible with
  | @host id _ _ hRun =>
      rcases @normal_host_cases table cache id with
        ⟨name, hName⟩ | hSame
      · rw [hName]
        exact .nativeType name
      · rw [hSame]
        exact .host hRun
  | nativeType name => exact .nativeType name
  | «class» hLive hOrigin hKind hUnwrap =>
      have hSame :=
        eq_generated_of_unwrap hLive hOrigin hKind hUnwrap
      subst hSame
      exact .class hLive hOrigin hKind hUnwrap
  | pointerToUnbound => exact .pointerToUnbound
  | pointer _ ih => exact .pointer ih

/- A binding that has a type has one later in the generation. -/
private theorem Admissible.mono
    (hAcyclic : table.Acyclic)
    (hBefore : Reached (table, cache))
    (hAfter : Reached (table, after))
    (hGrown : Grown cache after)
    {binding : Binding}
    (hAdmissible : Admissible table cache binding) :
    Admissible table after binding := by
  induction hAdmissible with
  | @host id _ _ hRun =>
      have hWrappable : table.Wrappable id := by
        rcases (hBefore.coherent hAcyclic).wrapHostType_cases
            hBefore.sound.base hAcyclic id with
          ⟨_, _, _, _, hWrappable⟩ | ⟨_, _, hFail, _⟩
        · exact hWrappable
        · cases hRun.symm.trans hFail
      rcases (hAfter.coherent hAcyclic).wrapHostType_cases
          hAfter.sound.base hAcyclic id with
        ⟨_, _, hWrapped, _⟩ | ⟨_, _, _, _, hRefused⟩
      · exact .host hWrapped
      · exact absurd hRefused hWrappable.not_refused
  | nativeType name => exact .nativeType name
  | @«class» element _ _ hLive hOrigin hKind hUnwrap =>
      cases eq_generated_of_unwrap hLive hOrigin hKind hUnwrap
      rcases hGrown.element? (element_eq_ok_iff.mp hLive) with
        ⟨data, hData, hKept⟩
      have hLive' := element_eq_ok_iff.mpr hData
      have hOrigin' := hKept.origin.trans hOrigin
      have hKind' := (hKept.kind.accepts .type).trans hKind
      have hUnwrap' := unwrap_of_generated hData hOrigin'
      have hSame := eq_generated_of_unwrap hLive' hOrigin' hKind'
        hUnwrap'
      rw [hSame] at hUnwrap'
      rw [← hKept.name]
      exact .class hLive' hOrigin' hKind' hUnwrap'
  | pointerToUnbound => exact .pointerToUnbound
  | pointer _ ih => exact .pointer ih

/- Wrapping a type leads to a state that is reached. -/
private theorem Reached.of_wrapType
    (hReached : Reached (table, cache))
    {binding : Binding}
    {ty : TypeId}
    (hRun : wrapType table binding cache = .ok ty after) :
    Reached (table, after) := by
  have hFinal :
      finalState ((Operation.wrapType binding).perform table
        cache) = after :=
    (finalState_map _ _ cache).trans (congrArg finalState hRun)
  rw [← hFinal]
  exact hReached.later
    (.perform (.wrapType binding) (.same table cache))

------------------------------------------------------------
-- Round Trips
------------------------------------------------------------

/-
  After any history over a table without circular bindings: a
  binding that has a type is wrapped, and behind the type
  stands its normal form, which is wrapped in turn and stands
  behind the type that it is given.
-/
theorem type_bindings_round_trip
    (hReached : Reached (table, cache))
    (hAcyclic : table.Acyclic)
    {binding : Binding}
    (hAdmissible : Admissible table cache binding) :
    ∃ ty after,
      wrapType table binding cache = .ok ty after ∧
        after.typeBindingOfType table ty =
          .ok (some (after.normal table binding)) ∧
        ∃ ty' after',
          wrapType table (after.normal table binding) after =
              .ok ty' after' ∧
            after'.typeBindingOfType table ty' =
              .ok (some (after.normal table binding)) := by
  rcases hAdmissible.standsBehind hAcyclic
      (hReached.closed hAcyclic) with
    ⟨ty, after, hRun, hGrown, hBehind⟩
  have hAfter := hReached.of_wrapType hRun
  have hFirst := hBehind after (Grown.refl after)
    (hAfter.coherent hAcyclic)
  refine ⟨ty, after, hRun, hFirst.typeBindingOfType, ?_⟩
  have hNormal : Admissible table after
      (after.normal table binding) :=
    (hAdmissible.mono hAcyclic hReached hAfter hGrown).normal
  rcases hNormal.standsBehind hAcyclic
      (hAfter.closed hAcyclic) with
    ⟨ty', after', hRun', hGrown', hBehind'⟩
  have hCoherent' :=
    (hAfter.of_wrapType hRun').coherent hAcyclic
  have hSecond := hBehind' after' (Grown.refl after') hCoherent'
  have hStays : after'.normal table binding =
      after.normal table binding := by
    have hThen := (hFirst.traced.mono hGrown').bindingOfType
    have hNow := (hBehind after' hGrown' hCoherent').traced
    exact Option.some.inj
      (Except.ok.inj (hNow.bindingOfType.symm.trans hThen))
  have hSame : after'.normal table (after.normal table binding) =
      after.normal table binding := by
    rw [← hStays]
    exact normal_normal binding
  refine ⟨ty', after', hRun', ?_⟩
  rw [hSecond.typeBindingOfType, hSame]

/- The table with nothing but a target scalar added. -/
def scalarTable : BindingTable :=
  ⟨#[.type (.native "NSInteger")]⟩

/-
  Behind a pointer to the scalar of the host stands a pointer
  to the scalar that is known by its spelling.
-/
theorem type_bindings_round_trip_scalar :
    Reached (scalarTable, {}) ∧
      scalarTable.Acyclic ∧
      Admissible scalarTable {} (.pointer (.host ⟨9⟩)) ∧
      ∃ ty after,
        wrapType scalarTable (.pointer (.host ⟨9⟩)) {} =
            .ok ty after ∧
          after.typeBindingOfType scalarTable ty =
            .ok (some (.pointer (.nativeType ⟨1⟩))) := by
  have hAcyclic : scalarTable.Acyclic :=
    BindingTable.acyclic_of_older (by decide +kernel)
  have hWrapped : wrapHostType scalarTable ⟨9⟩ {} = .ok ⟨2⟩
      (finalState (wrapHostType scalarTable ⟨9⟩ {})) := by
    apply eq_ok_of_answer?
    decide +kernel
  have hAdmissible : Admissible scalarTable {}
      (.pointer (.host ⟨9⟩)) := .pointer (.host hWrapped)
  rcases type_bindings_round_trip (Reached.new scalarTable)
      hAcyclic hAdmissible with ⟨ty, after, hRun, hBack, _⟩
  refine ⟨Reached.new _, hAcyclic, hAdmissible, ty, after, hRun,
    ?_⟩
  have hAfter : after = finalState
      (wrapType scalarTable (.pointer (.host ⟨9⟩)) {}) := by
    rw [hRun]
    rfl
  have hNormal : after.normal scalarTable
      (.pointer (.host ⟨9⟩)) = .pointer (.nativeType ⟨1⟩) := by
    rw [hAfter]
    decide +kernel
  rw [hBack, hNormal]

end Cache

end Lowering
