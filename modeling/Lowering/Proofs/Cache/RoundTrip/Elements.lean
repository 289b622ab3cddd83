import Lowering.Cache.Unwrap
import Lowering.Proofs.Cache.Identity

/-
  This file proves that elements and their bindings lead to
  each other: the binding behind a live element has that very
  element, and a binding of the host or of a generated package
  is the binding behind the element it was given.

  The way back depends on the element. One of the host is
  found by its binding and a generated package by its name;
  that the element found is the one that was asked about is
  what canonical caches are for. The binding of any other
  generated element carries its handle.

  Main results:
    * `Cache.wrapElement_of_unwrap`
    * `Cache.elements_round_trip`
-/

namespace Lowering

namespace Cache

variable {table : BindingTable}
variable {cache cache' : Cache}

------------------------------------------------------------
-- Finding Elements
------------------------------------------------------------

/- The only live element with a property is found by it. -/
theorem findElement?_of_unique
    {property : ElementData → Bool}
    {element : ElementId}
    {data : ElementData}
    (hLive : cache.elements.get? element.raw = some data)
    (hHas : property data = true)
    (hUnique : ∀ other data',
      cache.elements.get? other = some data' →
        property data' = true → other = element.raw) :
    cache.findElement? property = some element := by
  unfold findElement?
  apply Option.map_eq_some_iff.mpr
  refine ⟨element.raw, ?_, rfl⟩
  apply Generation.find?_eq_some_iff.mpr
  refine ⟨⟨data, hLive, hHas⟩, ?_⟩
  intro other data' hOther hLive'
  cases hHas' : property data' with
  | false => rfl
  | true =>
      exact absurd (hUnique other data' hLive' hHas')
        (Nat.ne_of_lt hOther)

/- A host binding has the live element that wraps it. -/
private theorem hostElement?_of_origin
    (hCanonical : cache.Canonical)
    {element : ElementId}
    {data : ElementData}
    {id : BindingId}
    (hLive : cache.elements.get? element.raw = some data)
    (hOrigin : data.origin = .host id) :
    cache.hostElement? id = some element := by
  rw [hostElement?_eq]
  apply findElement?_of_unique hLive (decide_eq_true hOrigin)
  intro other data' hLive' hOrigin'
  exact hCanonical.hosts _ _ data' data id hLive' hLive
    (of_decide_eq_true hOrigin') hOrigin

------------------------------------------------------------
-- From An Element To Its Binding And Back
------------------------------------------------------------

theorem unwrap_of_host
    {element : ElementId}
    {data : ElementData}
    {id : BindingId}
    (hLive : cache.elements.get? element.raw = some data)
    (hOrigin : data.origin = .host id) :
    cache.unwrap element = .ok (.host id) := by
  unfold unwrap
  rw [bind_ok (element_eq_ok_iff.mpr hLive), hOrigin]
  rfl

theorem unwrap_of_generated
    {element : ElementId}
    {data : ElementData}
    (hLive : cache.elements.get? element.raw = some data)
    (hOrigin : data.origin = .generated) :
    cache.unwrap element =
      .ok (generatedBinding element data.name data.kind) := by
  unfold unwrap
  rw [bind_ok (element_eq_ok_iff.mpr hLive), hOrigin]
  rfl

/- The binding of a generated member leads straight back. -/
theorem wrapElement_of_member
    {binding : GeneratedBinding}
    {data : ElementData}
    (hLive : cache.elements.get? binding.element.raw =
      some data) :
    wrapElement table (.generated binding) cache =
      .ok binding.element cache := by
  have hInspect : CacheM.inspect (·.element binding.element)
      cache = .ok data cache :=
    run_inspectCache_ok (element_eq_ok_iff.mpr hLive)
  unfold wrapElement
  simp only []
  rw [run_bind_ok hInspect]
  rfl

/- A host binding with a live element is not wrapped anew. -/
private theorem wrapElement_of_hostElement?
    {id : BindingId}
    {element : ElementId}
    (hFound : cache.hostElement? id = some element) :
    wrapElement table (.host id) cache =
      .ok element cache := by
  unfold wrapElement wrapHostElement wrapHostElementWithin
  simp only []
  rw [run_bind_ok (run_get cache)]
  simp only [hFound]
  rfl

/- The generated package of a name is found by the name. -/
private theorem wrapElement_of_package
    (hCanonical : cache.Canonical)
    {element : ElementId}
    {data : ElementData}
    (hLive : cache.elements.get? element.raw = some data)
    (hOrigin : data.origin = .generated)
    (hKind : data.kind = .package) :
    wrapElement table (.generatedPackage data.name) cache =
      .ok element cache := by
  have hFound :
      cache.packages.get? data.name = some element := by
    rw [package?_eq]
    apply findElement?_of_unique hLive
    · simp [hOrigin, hKind]
    · intro other data' hLive' hHas
      simp only [Bool.and_eq_true, decide_eq_true_eq] at hHas
      rcases hHas with ⟨⟨hName, hKind'⟩, hOrigin'⟩
      exact hCanonical.packages _ _ data' data hLive' hLive
        hOrigin' hOrigin hKind' hKind hName
  unfold wrapElement packageElement
  simp only []
  rw [run_bind_ok (run_get cache)]
  simp only [hFound]
  rfl

/- The binding behind a live element has that element. -/
theorem wrapElement_of_unwrap
    (hCanonical : cache.Canonical)
    {element : ElementId}
    {data : ElementData}
    (hLive : cache.elements.get? element.raw = some data) :
    ∃ binding,
      cache.unwrap element = .ok binding ∧
        wrapElement table binding cache =
          .ok element cache := by
  cases hOrigin : data.origin with
  | host id =>
      refine ⟨.host id, unwrap_of_host hLive hOrigin, ?_⟩
      exact wrapElement_of_hostElement?
        (hostElement?_of_origin hCanonical hLive hOrigin)
  | generated =>
      refine ⟨_, unwrap_of_generated hLive hOrigin, ?_⟩
      cases hKind : data.kind with
      | package =>
          exact wrapElement_of_package hCanonical hLive hOrigin
            hKind
      | type => exact wrapElement_of_member hLive
      | typeParameter => exact wrapElement_of_member hLive
      | executable => exact wrapElement_of_member hLive
      | «variable» => exact wrapElement_of_member hLive

------------------------------------------------------------
-- From A Binding To Its Element And Back
------------------------------------------------------------

/- The element that was given to a host binding wraps it. -/
theorem unwrap_of_wrapElement_host
    (hAcyclic : table.Acyclic)
    {id : BindingId}
    {element : ElementId}
    {later : Cache}
    (hRun : wrapElement table (.host id) cache =
      .ok element cache')
    (hLater : Grown cache' later) :
    later.unwrap element = .ok (.host id) := by
  rcases get?_of_hostElement?
      (hostElement?_of_wrapHostElement hAcyclic hRun) with
    ⟨data, hLive, hOrigin⟩
  rcases hLater.element? hLive with ⟨data', hLive', hKept⟩
  apply unwrap_of_host hLive'
  exact hKept.origin.trans hOrigin

/- The element that was given to a package name is of it. -/
theorem unwrap_of_wrapElement_package
    {name : Name}
    {element : ElementId}
    {later : Cache}
    (hRun : wrapElement table (.generatedPackage name) cache =
      .ok element cache')
    (hLater : Grown cache' later) :
    later.unwrap element = .ok (.generatedPackage name) := by
  rcases get?_of_package? (package?_of_packageElement hRun) with
    ⟨data, hLive, hName, hKind, hOrigin⟩
  rcases hLater.element? hLive with ⟨data', hLive', hKept⟩
  rw [unwrap_of_generated hLive'
    (hKept.origin.trans hOrigin)]
  rw [hKept.isPackage.mpr hKind, hKept.name, hName]
  rfl

------------------------------------------------------------
-- Round Trips
------------------------------------------------------------

/-
  After any history over a table without circular bindings,
  the binding behind a live element has that element, found
  without changing the cache; and a binding of the host or of
  a generated package that is given an element is the binding
  behind it, as long as the generation lasts.
-/
theorem elements_round_trip
    {table : BindingTable}
    {cache : Cache}
    (hReached : Reached (table, cache))
    (hAcyclic : table.Acyclic) :
    (∀ element data,
      cache.element element = .ok data →
        ∃ binding,
          cache.unwrap element = .ok binding ∧
            wrapElement table binding cache =
              .ok element cache) ∧
    (∀ id element cache' table' later,
      wrapElement table (.host id) cache =
          .ok element cache' →
        Later (table, cache') (table', later) →
          later.unwrap element = .ok (.host id)) ∧
    (∀ name element cache' table' later,
      wrapElement table (.generatedPackage name) cache =
          .ok element cache' →
        Later (table, cache') (table', later) →
          later.unwrap element =
            .ok (.generatedPackage name)) := by
  refine ⟨?_, ?_, ?_⟩
  · intro element data hElement
    exact wrapElement_of_unwrap (hReached.canonical hAcyclic)
      (element_eq_ok_iff.mp hElement)
  · intro id element cache' table' later hRun hLater
    exact unwrap_of_wrapElement_host hAcyclic hRun hLater.grown
  · intro name element cache' table' later hRun hLater
    exact unwrap_of_wrapElement_package hRun hLater.grown

/-
  A cache with elements of every way back: the array over
  `int`, a generated class with a method, and a package.
-/
def mixedElements : Cache :=
  Cache.performAll intArrayTable [
    .wrapElement (.host ⟨9⟩),
    .newTypeElement "Runtime" none .onlyPublic,
    .newMethod "get:" ⟨1⟩ ⟨3⟩ .onlyPublic,
    .packageElement ⟨2⟩] {}

theorem reached_mixedElements :
    Reached (intArrayTable, mixedElements) :=
  (Reached.new intArrayTable).later
    ((Later.same _ _).performAll _)

/-
  Each of the elements leads back to itself, and the package
  is there to stay when a class is made after it.
-/
theorem elements_round_trip_mixed :
    Reached (intArrayTable, mixedElements) ∧
      intArrayTable.Acyclic ∧
      (∀ element : ElementId, element.raw < 4 →
        ∃ binding,
          mixedElements.unwrap element = .ok binding ∧
            wrapElement intArrayTable binding mixedElements =
              .ok element mixedElements) ∧
      (mixedElements.performAll intArrayTable
        [.newTypeElement "Other" none .onlyPublic]).unwrap
          ⟨3⟩ = .ok (.generatedPackage ⟨2⟩) := by
  rcases elements_round_trip reached_mixedElements
      acyclic_intArray with ⟨hBack, _, hPackage⟩
  refine ⟨reached_mixedElements, acyclic_intArray, ?_, ?_⟩
  · intro element hElement
    have hBase : mixedElements.elements.base = 0 := by
      decide +kernel
    have hNext : mixedElements.elements.next = 4 := by
      decide +kernel
    rcases Generation.exists_get?
        (hBase ▸ Nat.zero_le element.raw)
        (hNext ▸ hElement) with ⟨data, hData⟩
    exact hBack element data (element_eq_ok_iff.mpr hData)
  · have hRun : wrapElement intArrayTable (.generatedPackage ⟨2⟩)
        mixedElements = .ok ⟨3⟩ (finalState (wrapElement
          intArrayTable (.generatedPackage ⟨2⟩)
            mixedElements)) := by
      apply eq_ok_of_answer?
      decide +kernel
    have hSame : finalState (wrapElement intArrayTable
        (.generatedPackage ⟨2⟩) mixedElements) =
          mixedElements := by
      decide +kernel
    rw [hSame] at hRun
    exact hPackage ⟨2⟩ ⟨3⟩ mixedElements intArrayTable _ hRun
      ((Later.same _ _).performAll _)

end Cache

end Lowering
