import Lowering.Proofs.Cache.Operation

/-
  This file proves that the handles of the cache are
  identities: no two live handles stand for the same thing,
  and a binding that was wrapped once keeps its handle until
  the cache is reset.

  A wrapper is found again by what it was made of, so wrapping
  a binding again reads the cache and does not change it.

  Key definitions include:
    * `HostBinding.references`

  Main results:
    * `BindingTable.acyclic_of_older`
    * `Cache.wrapType_again`
    * `Cache.wrapElement_again`
    * `Cache.wrappers_are_canonical`
-/

namespace Lowering

/- The bindings that a binding is made of or declared by. -/
def HostBinding.references : HostBinding → List BindingId
  | .type binding =>
    binding.component.toList ++ binding.bounds ++
      binding.declaring.toList
  | .method binding => binding.declaring.toList
  | .variable binding => binding.declaring.toList
  | .package _ => []
  | .annotationUse _ => []

/-
  A table in which references only lead to earlier bindings
  has no circular ones.
-/
theorem BindingTable.acyclic_of_older
    {table : BindingTable}
    (hOlder : ∀ index < table.size,
      ∀ host ∈ table.get? ⟨index⟩,
        ∀ other ∈ host.references, other.raw < index) :
    table.Acyclic := by
  have hLess : ∀ {id other : BindingId} {host : HostBinding},
      table.get? id = some host →
        other ∈ host.references → other.raw < id.raw :=
    fun hGet hMem => hOlder _ (lt_size_of_get? hGet) _ hGet _ hMem
  have hIrreflexive : ∀ {R : BindingId → BindingId → Prop},
      (∀ a b, R a b → b.raw < a.raw) →
        ∀ id, ¬ Relation.TransGen R id id := by
    intro R hStep id hReach
    have hAll : ∀ {a b}, Relation.TransGen R a b →
        b.raw < a.raw := by
      intro a b hReach
      induction hReach with
      | single hLast => exact hStep _ _ hLast
      | tail _ hLast ih => exact Nat.lt_trans (hStep _ _ hLast) ih
    exact Nat.lt_irrefl _ (hAll hReach)
  constructor
  · apply hIrreflexive
    rintro id part ⟨binding, hGet, hPart⟩
    apply hLess hGet
    rcases hPart with hComponent | hBound
    · simp [HostBinding.references, hComponent]
    · simp [HostBinding.references, hBound]
  · apply hIrreflexive
    rintro id owner (hOwner | hOwner | hOwner) <;>
      rcases hOwner with ⟨binding, hGet, hDeclaring⟩
    · exact hLess hGet
        (by simp [HostBinding.references, hDeclaring])
    · exact hLess hGet
        (by simp [HostBinding.references, hDeclaring])
    · exact hLess hGet
        (by simp [HostBinding.references, hDeclaring])

namespace Cache

variable {table table' : BindingTable}
variable {cache cache' later : Cache}

------------------------------------------------------------
-- Wrapping Again
------------------------------------------------------------

/- A type binding that was wrapped keeps its type. -/
theorem wrapHostType_again
    {id : BindingId}
    {ty : TypeId}
    (hAcyclic : table.Acyclic)
    (hRun : wrapHostType table id cache = .ok ty cache')
    (hLater : Grown cache' later) :
    wrapHostType table' id later = .ok ty later := by
  have hFound : later.typeOf? id = some ty :=
    hLater.typeOf? (typeOf?_of_wrapHostType hAcyclic hRun)
  unfold wrapHostType wrapHostTypeWithin
  rw [run_bind_ok (run_get later)]
  simp only [hFound]
  rfl

/- A method binding that was wrapped keeps its type. -/
theorem wrapExecutable_again
    {id : BindingId}
    {ty : TypeId}
    (hRun : wrapExecutable table id cache = .ok ty cache')
    (hLater : Grown cache' later) :
    wrapExecutable table' id later = .ok ty later := by
  have hFound : later.executableOf? id = some ty :=
    hLater.executableOf? (executableOf?_of_wrapExecutable hRun)
  unfold wrapExecutable
  rw [run_bind_ok (run_get later)]
  simp only [hFound]
  rfl

/- A shape that was made keeps its type. -/
theorem synthesize_again
    {kind : TypeKind}
    {ty : TypeId}
    (hRun : synthesize kind cache = .ok ty cache')
    (hLater : Grown cache' later) :
    synthesize kind later = .ok ty later := by
  have hFound := hLater.shape? (shape?_of_synthesize hRun)
  unfold synthesize
  rw [run_bind_ok (run_get later)]
  simp only [hFound]
  rfl

/- A binding that has a type keeps it. -/
theorem wrapType_again
    {binding : Binding}
    {ty : TypeId}
    (hAcyclic : table.Acyclic)
    (hRun : wrapType table binding cache = .ok ty cache')
    (hLater : Grown cache' later) :
    wrapType table' binding later = .ok ty later := by
  induction binding generalizing ty cache cache' with
  | host id =>
      unfold wrapType at hRun ⊢
      exact wrapHostType_again hAcyclic hRun hLater
  | generated binding =>
      rcases binding with ⟨element, family, name⟩
      cases family with
      | type =>
          unfold wrapType at hRun ⊢
          rcases run_bind_eq_ok hRun with
            ⟨data, _, hInspect, hNext⟩
          rcases run_inspectCache_eq_ok hInspect with
            ⟨hElement, rfl⟩
          cases hTy : data.ty with
          | none =>
              simp only [hTy] at hNext
              cases hNext
          | some found =>
              simp only [hTy] at hNext
              cases hNext
              rcases hLater.element?
                  (element_eq_ok_iff.mp hElement) with
                ⟨data', hElement', hKept⟩
              have hInspect' :
                  CacheM.inspect (·.element element) later =
                    .ok data' later := by
                simp only [CacheM.inspect,
                  element_eq_ok_iff.mpr hElement']
              rw [run_bind_ok hInspect']
              simp only [hKept.ty, hTy]
              rfl
      | method =>
          unfold wrapType at hRun
          cases hRun
      | «variable» =>
          unfold wrapType at hRun
          cases hRun
  | generatedPackage name =>
      unfold wrapType at hRun
      cases hRun
  | nativeType name =>
      unfold wrapType at hRun ⊢
      exact synthesize_again hRun hLater
  | pointer pointee ih =>
      unfold wrapType at hRun ⊢
      rcases run_bind_eq_ok hRun with
        ⟨target, middle, hFirst, hNext⟩
      have hStep : Follows (TypesOnly False)
          (pointerType target) middle :=
        follows_pointerType target middle
      replace hStep := hStep.run_ok hNext
      rw [run_bind_ok
        (ih hFirst (hStep.changes.grown.trans hLater))]
      exact synthesize_again hNext hLater
  | pointerToUnbound =>
      unfold wrapType at hRun ⊢
      exact synthesize_again hRun hLater

/- A binding that has an element keeps it. -/
theorem wrapElement_again
    {binding : Binding}
    {element : ElementId}
    (hAcyclic : table.Acyclic)
    (hRun : wrapElement table binding cache =
      .ok element cache')
    (hLater : Grown cache' later) :
    wrapElement table' binding later = .ok element later := by
  cases binding with
  | host id =>
      have hFound : later.hostElement? id = some element :=
        hLater.hostElement?
          (hostElement?_of_wrapHostElement hAcyclic hRun)
      unfold wrapElement wrapHostElement wrapHostElementWithin
      simp only []
      rw [run_bind_ok (run_get later)]
      simp only [hFound]
      rfl
  | generated binding =>
      unfold wrapElement at hRun ⊢
      rcases run_bind_eq_ok hRun with
        ⟨data, _, hInspect, hNext⟩
      rcases run_inspectCache_eq_ok hInspect with ⟨hElement, rfl⟩
      cases hNext
      rcases hLater.element?
          (element_eq_ok_iff.mp hElement) with
        ⟨data', hElement', _⟩
      have hInspect' :
          CacheM.inspect (·.element binding.element) later =
            .ok data' later := by
        simp only [CacheM.inspect,
          element_eq_ok_iff.mpr hElement']
      simp only []
      rw [run_bind_ok hInspect']
      rfl
  | generatedPackage name =>
      have hFound := hLater.package?
        (package?_of_packageElement hRun)
      unfold wrapElement packageElement
      simp only []
      rw [run_bind_ok (run_get later)]
      simp only [hFound]
      rfl
  | nativeType name => cases hRun
  | pointer pointee => cases hRun
  | pointerToUnbound => cases hRun

------------------------------------------------------------
-- Identity
------------------------------------------------------------

/-
  After any history over a table without circular bindings,
  live types of one kind and origin are the same, live
  elements of one host binding are the same, and live
  generated packages of one name are the same. A binding that
  was then wrapped has the same handle whenever it is wrapped
  again in the generation, and the cache stays as it is.
-/
theorem wrappers_are_canonical
    {table : BindingTable}
    {cache : Cache}
    (hReached : Reached (table, cache))
    (hAcyclic : table.Acyclic) :
    (∀ ty ty' data,
      cache.typeData ty = .ok data →
        cache.typeData ty' = .ok data → ty = ty') ∧
    (∀ element element' data data' id,
      cache.element element = .ok data →
        cache.element element' = .ok data' →
          data.origin = .host id →
            data'.origin = .host id → element = element') ∧
    (∀ element element' data data',
      cache.element element = .ok data →
        cache.element element' = .ok data' →
          data.origin = .generated →
            data'.origin = .generated →
              data.kind = .package →
                data'.kind = .package →
                  data.name = data'.name →
                    element = element') ∧
    (∀ binding ty cache' table' later,
      wrapType table binding cache = .ok ty cache' →
        Later (table, cache') (table', later) →
          wrapType table' binding later = .ok ty later) ∧
    (∀ id ty cache' table' later,
      wrapHostType table id cache = .ok ty cache' →
        Later (table, cache') (table', later) →
          wrapHostType table' id later = .ok ty later) ∧
    (∀ id ty cache' table' later,
      wrapExecutable table id cache = .ok ty cache' →
        Later (table, cache') (table', later) →
          wrapExecutable table' id later = .ok ty later) ∧
    (∀ binding element cache' table' later,
      wrapElement table binding cache = .ok element cache' →
        Later (table, cache') (table', later) →
          wrapElement table' binding later =
            .ok element later) := by
  have hCanonical := hReached.canonical hAcyclic
  have hType : ∀ {ty data},
      cache.typeData ty = .ok data →
        cache.type? ty = some data := by
    intro ty data hData
    unfold typeData at hData
    cases hFound : cache.type? ty with
    | none =>
        rw [hFound] at hData
        cases hData
    | some found =>
        rw [hFound] at hData
        cases hData
        rfl
  refine ⟨?_, ?_, ?_, ?_, ?_, ?_, ?_⟩
  · intro ty ty' data hData hData'
    exact hCanonical.types ty ty' data (hType hData)
      (hType hData')
  · intro element element' data data' id hData hData'
      hOrigin hOrigin'
    apply eq_of_raw
    exact hCanonical.hosts _ _ data data' id
      (element_eq_ok_iff.mp hData) (element_eq_ok_iff.mp hData')
      hOrigin hOrigin'
  · intro element element' data data' hData hData'
      hOrigin hOrigin' hKind hKind' hName
    apply eq_of_raw
    exact hCanonical.packages _ _ data data'
      (element_eq_ok_iff.mp hData) (element_eq_ok_iff.mp hData')
      hOrigin hOrigin' hKind hKind' hName
  · intro binding ty cache' table' later hRun hLater
    exact wrapType_again hAcyclic hRun hLater.grown
  · intro id ty cache' table' later hRun hLater
    exact wrapHostType_again hAcyclic hRun hLater.grown
  · intro id ty cache' table' later hRun hLater
    exact wrapExecutable_again hRun hLater.grown
  · intro binding element cache' table' later hRun hLater
    exact wrapElement_again hAcyclic hRun hLater.grown

/- The table with nothing but the array over `int` added. -/
def intArrayTable : BindingTable :=
  ⟨#[.type
    (.arrayOf (BindingTable.primitive .int) "int" "I")]⟩

theorem acyclic_intArray :
    intArrayTable.Acyclic :=
  BindingTable.acyclic_of_older (by decide +kernel)

/- Wrapping the array over `int` twice gives one handle. -/
theorem wrappers_are_canonical_intArray :
    Reached (intArrayTable, {}) ∧
      intArrayTable.Acyclic ∧
      wrapHostType intArrayTable ⟨9⟩
          (finalState (wrapHostType intArrayTable ⟨9⟩ {})) =
        .ok ⟨3⟩
          (finalState (wrapHostType intArrayTable ⟨9⟩ {})) := by
  have hCanonical := wrappers_are_canonical
    (Reached.new intArrayTable) acyclic_intArray
  have hRun : wrapHostType intArrayTable ⟨9⟩ {} = .ok ⟨3⟩
      (finalState (wrapHostType intArrayTable ⟨9⟩ {})) := by
    apply eq_ok_of_answer?
    decide +kernel
  refine ⟨Reached.new _, acyclic_intArray, ?_⟩
  exact hCanonical.2.2.2.2.1 ⟨9⟩ ⟨3⟩ _ _ _ hRun
    (Later.same _ _)

end Cache

end Lowering
