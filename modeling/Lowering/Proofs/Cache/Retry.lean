import Lowering.Proofs.Cache.Repeats

/-
  This file proves that failing does no harm. A failed
  operation may have wrapped some parts of what it was asked
  for, but those are wrappers like any others: no live wrapper
  is changed, and what was wrapped before keeps its wrapper.
  Asked again, the operation finds them, meets the same error,
  and changes nothing.

  Key definitions include:
    * `Cache.Operation.Shares`

  Main results:
    * `Cache.wrapElementOf_again`
    * `Cache.wrapPackageDeclaration_again`
    * `Cache.retries_answer`
    * `Cache.Operation.Shares.again`
    * `Cache.failed_operations_are_harmless`
-/

namespace Lowering

namespace Cache

variable {table table' : BindingTable}
variable {cache cache' later : Cache}

------------------------------------------------------------
-- Bindings Of Any Sort
------------------------------------------------------------

/- A shape always gets a type. -/
private theorem retries_synthesize
    (kind : TypeKind)
    (cache : Cache) :
    Retries (synthesize kind) cache := by
  intro error after hRun
  unfold synthesize at hRun
  rw [run_bind_ok (run_get cache)] at hRun
  cases hFound : cache.shapes.get? kind with
  | some ty =>
      simp only [hFound] at hRun
      cases hRun
  | none =>
      simp only [hFound] at hRun
      cases hRun

private theorem repeats_nativeType
    (text : String)
    (cache : Cache) :
    Repeats (nativeType text) cache := by
  unfold nativeType
  apply (repeats_intern text cache).bind
  intro name middle _
  exact {
    adds := (follows_synthesize (by simp) (by simp)
      middle).mono fun _ _ hTypes => hTypes.adds
    retries := retries_synthesize _ middle
    again := fun _ _ hRun _ hLater =>
      synthesize_again hRun hLater }

/- An element that is read is the same as long as none changes. -/
private theorem element_of_adds
    {id : ElementId}
    {data : ElementData}
    (hAdds : Adds cache later)
    (hRead : cache.element id = .ok data) :
    later.element id = .ok data :=
  element_eq_ok_iff.mpr (hAdds.get? (element_eq_ok_iff.mp hRead))

private theorem elementOf_of_adds
    {family : ElementFamily}
    {id : ElementId}
    {data : ElementData}
    (hAdds : Adds cache later)
    (hRead : cache.elementOf family id = .ok data) :
    later.elementOf family id = .ok data := by
  rcases elementOf_eq_ok hRead with ⟨hData, hAccepts⟩
  unfold elementOf
  rw [bind_ok (element_of_adds hAdds
    (element_eq_ok_iff.mpr hData)), if_pos hAccepts]
  rfl

private theorem retries_wrapType
    (hAcyclic : table.Acyclic)
    (binding : Binding)
    (cache : Cache) :
    Retries (wrapType table binding) cache := by
  induction binding generalizing cache with
  | host id =>
      unfold wrapType
      exact (repeats_wrapHostType hAcyclic id cache).retries
  | generated binding =>
      rcases binding with ⟨element, family, name⟩
      cases family with
      | type =>
          unfold wrapType
          apply Retries.inspect
          · intro data _
            cases data.ty with
            | some ty => exact (Repeats.pure _ _).retries
            | none => exact (Repeats.throw _ _).retries
          · exact fun _ _ => element_of_adds
      | method =>
          unfold wrapType
          exact (Repeats.throw _ _).retries
      | «variable» =>
          unfold wrapType
          exact (Repeats.throw _ _).retries
  | generatedPackage name =>
      unfold wrapType
      exact (Repeats.throw _ _).retries
  | nativeType name =>
      unfold wrapType
      exact retries_synthesize _ cache
  | pointer pointee ih =>
      unfold wrapType
      have hPointee : Repeats (wrapType table pointee) cache := {
        adds := (makes_wrapType table pointee cache).mono
          fun _ _ hMakes => hMakes.toAdds
        retries := ih cache
        again := fun _ _ hRun _ hLater =>
          wrapType_again hAcyclic hRun hLater }
      exact Retries.bind hPointee fun target middle _ =>
        retries_synthesize (.pointer target) middle
  | pointerToUnbound =>
      unfold wrapType
      exact retries_synthesize _ cache

/- The generated package with a name is found or made. -/
private theorem retries_packageElement
    (name : Name)
    (cache : Cache) :
    Retries (packageElement name) cache := by
  intro error after hRun
  unfold packageElement at hRun
  rcases run_bind_eq_error hRun with
    hRead | ⟨_, _, hRead, hRest⟩
  · cases hRead
  · cases hRead
    cases hFound : cache.packages.get? name with
    | some element =>
        simp only [hFound] at hRest
        cases hRest
    | none =>
        simp only [hFound] at hRest
        cases hRest

theorem repeats_wrapElement
    (hAcyclic : table.Acyclic)
    (binding : Binding)
    (cache : Cache) :
    Repeats (wrapElement table binding) cache where
  adds := (makes_wrapElement table binding cache).mono
    fun _ _ hMakes => hMakes.toAdds
  retries := by
    unfold wrapElement
    cases binding with
    | host id =>
        exact (repeats_wrapHostElementWithin hAcyclic _ id
          cache).retries
    | generated binding =>
        apply Retries.inspect
        · exact fun _ _ => (Repeats.pure _ _).retries
        · exact fun _ _ => element_of_adds
    | generatedPackage name =>
        exact retries_packageElement name cache
    | nativeType name => exact (Repeats.throw _ _).retries
    | pointer pointee => exact (Repeats.throw _ _).retries
    | pointerToUnbound => exact (Repeats.throw _ _).retries
  again := fun _ _ hRun _ hLater =>
    wrapElement_again hAcyclic hRun hLater

/- An element stays in its family. -/
theorem elementOf_mono
    {family : ElementFamily}
    {id : ElementId}
    {data : ElementData}
    (hGrown : Grown cache later)
    (hRead : cache.elementOf family id = .ok data) :
    ∃ data', later.elementOf family id = .ok data' ∧
      data.Kept data' := by
  rcases elementOf_eq_ok hRead with ⟨hData, hAccepts⟩
  rcases hGrown.element? hData with ⟨data', hData', hKept⟩
  refine ⟨data', ?_, hKept⟩
  rw [← hKept.kind.accepts] at hAccepts
  unfold elementOf
  rw [bind_ok (element_eq_ok_iff.mpr hData'), if_pos hAccepts]
  rfl

/- A binding that has an element of a family keeps it. -/
theorem wrapElementOf_again
    {family : ElementFamily}
    {binding : Binding}
    {element : ElementId}
    (hAcyclic : table.Acyclic)
    (hRun : wrapElementOf table family binding cache =
      .ok element cache')
    (hLater : Grown cache' later) :
    wrapElementOf table' family binding later =
      .ok element later := by
  unfold wrapElementOf at hRun ⊢
  rcases run_bind_eq_ok hRun with ⟨found, middle, hFound, hRest⟩
  rcases run_bind_eq_ok hRest with ⟨data, _, hInspect, hPure⟩
  rcases run_inspectCache_eq_ok hInspect with ⟨hRead, rfl⟩
  cases hPure
  rcases elementOf_mono hLater hRead with ⟨data', hRead', _⟩
  rw [run_bind_ok (wrapElement_again hAcyclic hFound hLater),
    run_bind_ok (run_inspectCache_ok hRead')]
  rfl

theorem repeats_wrapElementOf
    (hAcyclic : table.Acyclic)
    (family : ElementFamily)
    (binding : Binding)
    (cache : Cache) :
    Repeats (wrapElementOf table family binding) cache where
  adds := (makes_wrapElementOf table family binding cache).mono
    fun _ _ hMakes => hMakes.toAdds
  retries := by
    unfold wrapElementOf
    apply Retries.bind
      (repeats_wrapElement hAcyclic binding cache)
    intro element middle _
    apply Retries.inspect
    · exact fun _ _ => (Repeats.pure _ _).retries
    · exact fun _ _ => elementOf_of_adds
  again := fun _ _ hRun _ hLater =>
    wrapElementOf_again hAcyclic hRun hLater

------------------------------------------------------------
-- Package Declarations
------------------------------------------------------------

/- Annotations are missing before any of them is resolved. -/
private theorem retries_wrapPackageDeclaration
    (hAcyclic : table.Acyclic)
    (id : BindingId)
    (annotations : List BindingId)
    (cache : Cache) :
    Retries (wrapPackageDeclaration table id annotations)
      cache := by
  unfold wrapPackageDeclaration
  apply Retries.bind
    (repeats_wrapElementOf hAcyclic .package (.host id) cache)
  intro element middle _
  apply Retries.inspect
  · intro data _
    split
    · apply Retries.bind
        (repeats_wrapUses hAcyclic annotations middle)
      intro found last _ error after hRun
      cases hRun
    · exact (Repeats.pure _ _).retries
  · exact fun _ _ => element_of_adds

/- A list of items is resolved to as many. -/
theorem length_of_wrapUses
    {annotations : List BindingId}
    {found : List AnnotationUse}
    (hRun : wrapUses table annotations cache =
      .ok found cache') :
    found.length = annotations.length := by
  unfold wrapUses at hRun
  induction annotations generalizing cache found with
  | nil =>
      rw [List.mapM_nil] at hRun
      cases hRun
      rfl
  | cons use annotations ih =>
      rw [List.mapM_cons] at hRun
      rcases run_bind_eq_ok hRun with ⟨first, _, _, hRest⟩
      rcases run_bind_eq_ok hRest with ⟨rest, _, hRest, hPure⟩
      cases hPure
      exact congrArg (· + 1) (ih hRest)

/-
  Once a declaration was answered, its package has some
  annotations, unless it has none itself.
-/
theorem settled_of_wrapPackageDeclaration
    {id : BindingId}
    {annotations : List BindingId}
    {element : ElementId}
    (hRun : wrapPackageDeclaration table id annotations cache =
      .ok element cache') :
    ∃ middle data,
      wrapElementOf table .package (.host id) cache =
          .ok element middle ∧
        Grown middle cache' ∧
        cache'.elements.get? element.raw = some data ∧
        (data.annotations ≠ [] ∨ annotations = []) := by
  rcases run_wrapPackageDeclaration_eq_ok table hRun with
    ⟨middle, data, hElement, hData, hPackage,
      ⟨hSettled, rfl⟩ |
        ⟨hBare, hGiven, found, last, hUses, rfl⟩⟩
  · exact ⟨_, data, hElement, Grown.refl _, hData, hSettled⟩
  · have hMade := (makes_wrapUses table annotations
      middle).run_ok hUses
    replace hData := hMade.get? hData
    refine ⟨middle, { data with annotations := found },
      hElement, hMade.changes.grown.trans
        (grown_withAnnotations hData hPackage hBare found),
      ?_, Or.inl ?_⟩
    · rw [get?_withAnnotations, if_pos rfl, hData]
      rfl
    · intro hNone
      apply hGiven
      rw [← List.length_eq_zero_iff,
        ← length_of_wrapUses hUses]
      exact List.length_eq_zero_iff.mpr hNone

/- Annotations that a package has are not taken away. -/
theorem settled_mono
    {element : ElementId}
    {data : ElementData}
    {annotations : List BindingId}
    (hGrown : Grown cache later)
    (hData : cache.elements.get? element.raw = some data)
    (hSettled : data.annotations ≠ [] ∨ annotations = []) :
    ∃ data', later.elements.get? element.raw = some data' ∧
      (data'.annotations ≠ [] ∨ annotations = []) := by
  rcases hGrown.element? hData with ⟨data', hData', hKept⟩
  refine ⟨data', hData', ?_⟩
  rcases hSettled with hSome | hNone
  · left
    rcases hKept.annotations with hSame | ⟨_, hBare⟩
    · rw [hSame]
      exact hSome
    · exact absurd hBare hSome
  · exact Or.inr hNone

/- A package that was declared keeps its element. -/
theorem wrapPackageDeclaration_again
    {id : BindingId}
    {annotations : List BindingId}
    {element : ElementId}
    (hAcyclic : table.Acyclic)
    (hRun : wrapPackageDeclaration table id annotations cache =
      .ok element cache')
    (hLater : Grown cache' later) :
    wrapPackageDeclaration table' id annotations later =
      .ok element later := by
  rcases settled_of_wrapPackageDeclaration hRun with
    ⟨middle, data, hElement, hMiddle, hData, hSettled⟩
  rcases settled_mono hLater hData hSettled with
    ⟨data', hData', hStill⟩
  exact run_wrapPackageDeclaration_settled table'
    (wrapElementOf_again hAcyclic hElement
      (hMiddle.trans hLater)) hData' hStill

------------------------------------------------------------
-- Generated Methods
------------------------------------------------------------

/- A parameter is refused before anything is made. -/
private theorem retries_newParameter
    (method : ElementId)
    (text : String)
    (ty : TypeId)
    (cache : Cache) :
    Retries (newParameter method text ty) cache := by
  unfold newParameter
  apply Retries.inspect
  · intro data _ error after hRun
    cases hRun
  · exact fun _ _ => elementOf_of_adds

/- The type of a method is made when all is read. -/
private theorem retries_executableTypeOf
    (method : ElementId)
    (cache : Cache) :
    Retries (executableTypeOf method) cache := by
  apply Retries.of_untouched
  intro error after hRun
  unfold executableTypeOf at hRun
  rcases run_bind_eq_error hRun with
    hFail | ⟨data, middle, hInspect, hRest⟩
  · have hState := finalState_inspect
      (·.elementOf .executable method) cache
    rw [hFail] at hState
    exact hState
  · rcases run_inspectCache_eq_ok hInspect with ⟨_, rfl⟩
    cases hTy : data.ty with
    | some ty =>
        simp only [hTy] at hRest
        cases hRest
    | none =>
        cases hKind : data.kind with
        | executable selector params returnType =>
            simp only [hTy, hKind] at hRest
            rw [run_bind_ok (run_get _)] at hRest
            cases hFound :
                middle.executables.lookup method with
            | some ty =>
                simp only [hFound] at hRest
                cases hRest
            | none =>
                simp only [hFound] at hRest
                rcases run_bind_eq_error hRest with
                  hFail | ⟨types, _, _, hAdd⟩
                · have hState :=
                    finalState_parameterTypes params middle
                  rw [hFail] at hState
                  exact hState
                · cases hAdd
        | _ =>
            simp only [hTy, hKind] at hRest
            cases hRest
            rfl

------------------------------------------------------------
-- Operations
------------------------------------------------------------

/- A fatal failure is met again if the failure is. -/
private theorem Retries.fatal
    {operation : CacheM α}
    (hRetries : Retries operation cache) :
    Retries (CacheM.fatal operation) cache := by
  intro error after hRun
  cases hFirst : operation cache with
  | ok answer middle =>
      cases (run_fatal_ok hFirst).symm.trans hRun
  | error cause middle =>
      cases (run_fatal_error hFirst).symm.trans hRun
      rcases hRetries cause after hFirst with ⟨hAdds, hAgain⟩
      exact ⟨hAdds, run_fatal_error hAgain⟩

/- Whatever is asked, a failure is met again and does no harm. -/
theorem retries_answer
    (hAcyclic : table.Acyclic)
    (operation : Operation)
    (cache : Cache) :
    Retries (operation.answer table) cache := by
  have hNever : ∀ {α : Type} {run : CacheM α} {cache : Cache},
      (∀ error after, run cache ≠ .error error after) →
        Retries run cache :=
    fun hOk error after hRun => absurd hRun (hOk error after)
  cases operation with
  | intern text =>
      apply Retries.map
      cases text with
      | some text => exact (repeats_intern text cache).retries
      | none => exact (Repeats.throw _ _).retries
  | wrapType binding =>
      exact (retries_wrapType hAcyclic binding cache).map _
  | wrapExecutable id =>
      exact (repeats_wrapExecutable hAcyclic id
        cache).retries.map _
  | wrapElement binding =>
      exact (repeats_wrapElement hAcyclic binding
        cache).retries.map _
  | wrapElementOf family binding =>
      exact (repeats_wrapElementOf hAcyclic family binding
        cache).retries.map _
  | wrapPackageDeclaration id annotations =>
      exact (retries_wrapPackageDeclaration hAcyclic id
        annotations cache).map _
  | packageElement name =>
      exact (retries_packageElement name cache).map _
  | nativeType text =>
      exact (repeats_nativeType text cache).retries.map _
  | pointerType pointee =>
      exact (retries_synthesize _ cache).map _
  | syntheticArrayType component =>
      exact (retries_synthesize _ cache).map _
  | primitiveType kind =>
      exact ((repeats_wrapHostType hAcyclic _
        cache).retries.fatal).map _
  | newTypeElement text enclosing modifiers =>
      apply hNever
      intro error after hRun
      cases hRun
  | newField text ty declaring modifiers =>
      apply hNever
      intro error after hRun
      cases hRun
  | newMethod selector declaring returnType modifiers =>
      apply hNever
      intro error after hRun
      cases hRun
  | newParameter method text ty =>
      exact (retries_newParameter method text ty cache).map _
  | executableTypeOf method =>
      exact (retries_executableTypeOf method cache).map _

/- Operations that look for a wrapper before they make one. -/
def Operation.Shares : Operation → Prop
  | wrapType _ => True
  | wrapExecutable _ => True
  | wrapElement _ => True
  | wrapElementOf _ _ => True
  | wrapPackageDeclaration _ _ => True
  | packageElement _ => True
  | nativeType _ => True
  | pointerType _ => True
  | syntheticArrayType _ => True
  | primitiveType _ => True
  | _ => False

/- What was looked for once is found in every later state. -/
theorem Operation.Shares.again
    (hAcyclic : table.Acyclic)
    {operation : Operation}
    {answer : Answer}
    (hShares : operation.Shares)
    (hRun : operation.answer table cache = .ok answer cache')
    (hLater : Grown cache' later) :
    operation.answer table' later = .ok answer later := by
  have hMapped : ∀ {α : Type} {run run' : CacheM α}
      {build : α → Answer},
      (∀ found, run cache = .ok found cache' →
          run' later = .ok found later) →
        (build <$> run) cache = .ok answer cache' →
          (build <$> run') later = .ok answer later := by
    intro α run run' build hAgain hMap
    rcases run_map_eq_ok hMap with ⟨found, hFound, rfl⟩
    exact run_map_ok build (hAgain found hFound)
  cases operation with
  | wrapType binding =>
      exact hMapped (fun _ hFound =>
        wrapType_again hAcyclic hFound hLater) hRun
  | wrapExecutable id =>
      exact hMapped (fun _ hFound =>
        wrapExecutable_again hFound hLater) hRun
  | wrapElement binding =>
      exact hMapped (fun _ hFound =>
        wrapElement_again hAcyclic hFound hLater) hRun
  | wrapElementOf family binding =>
      exact hMapped (fun _ hFound =>
        wrapElementOf_again hAcyclic hFound hLater) hRun
  | wrapPackageDeclaration id annotations =>
      exact hMapped (fun _ hFound =>
        wrapPackageDeclaration_again hAcyclic hFound hLater)
        hRun
  | packageElement name =>
      refine hMapped (fun element hFound => ?_) hRun
      have hWrap : Cache.wrapElement table
          (.generatedPackage name) cache =
            .ok element cache' := hFound
      have hAgain : Cache.wrapElement table'
          (.generatedPackage name) later =
            .ok element later :=
        Cache.wrapElement_again hAcyclic hWrap hLater
      exact hAgain
  | nativeType text =>
      exact hMapped (fun _ hFound =>
        (repeats_nativeType text cache).again _ _ hFound later
          hLater) hRun
  | pointerType pointee =>
      exact hMapped (fun _ hFound =>
        synthesize_again hFound hLater) hRun
  | syntheticArrayType component =>
      exact hMapped (fun _ hFound =>
        synthesize_again hFound hLater) hRun
  | primitiveType kind =>
      refine hMapped (fun ty hFound => run_fatal_ok ?_) hRun
      cases hWrap : Cache.wrapHostType table
          (BindingTable.primitive kind) cache with
      | ok found middle =>
          cases (run_fatal_ok hWrap).symm.trans hFound
          exact wrapHostType_again hAcyclic hWrap hLater
      | error error middle =>
          cases (run_fatal_error hWrap).symm.trans hFound
  | _ => exact hShares.elim

/-
  Over a table without circular bindings, when an operation
  fails: every live type and every live element stays exactly
  what it was; what was wrapped or made as a shape before, in
  the same generation and over an earlier table, is found
  again by its handle; and the operation, asked again over the
  same table, meets the same error and leaves the cache
  exactly as it finds it.
-/
theorem failed_operations_are_harmless
    {table : BindingTable}
    {cache after : Cache}
    {operation : Operation}
    {error : CacheError}
    (hAcyclic : table.Acyclic)
    (hRun : operation.answer table cache =
      .error error after) :
    (∀ ty data, cache.typeData ty = .ok data →
      after.typeData ty = .ok data) ∧
    (∀ element data, cache.element element = .ok data →
      after.element element = .ok data) ∧
    (∀ earlier : Operation, earlier.Shares →
      ∀ past first middle answer,
        earlier.answer past first = .ok answer middle →
          Later (past, middle) (table, cache) →
            earlier.answer table after = .ok answer after) ∧
    operation.answer table after = .error error after := by
  rcases retries_answer hAcyclic operation cache error after
    hRun with ⟨hAdds, hAgain⟩
  have hGrown := hAdds.changes.grown
  refine ⟨?_, ?_, ?_, hAgain⟩
  · intro ty data hData
    exact typeData_eq_ok_iff.mpr
      (hGrown.type? (typeData_eq_ok_iff.mp hData))
  · intro element data hData
    exact element_of_adds hAdds hData
  · intro earlier hShares past first middle answer hAnswer
      hLater
    exact hShares.again (hLater.acyclic hAcyclic) hAnswer
      (hLater.grown.trans hGrown)

/- A table with a method whose second parameter is not there. -/
def lostParameterTable : BindingTable :=
  ⟨#[.method {
    name := "f"
    parameterTypes := [BindingTable.primitive .int, ⟨99⟩] }]⟩

/- A new cache in which `boolean` was wrapped. -/
def booleanWrapped : Cache :=
  finalState ((Operation.wrapType
    (.host (BindingTable.primitive .boolean))).answer
      lostParameterTable {})

/- The cache after the method was refused. -/
def intLeftOver : Cache :=
  finalState ((Operation.wrapExecutable ⟨9⟩).answer
    lostParameterTable booleanWrapped)

/-
  The refused method leaves its first parameter behind. What
  was wrapped before is found, and the refusal is met again.
-/
theorem failed_operations_are_harmless_lostParameter :
    lostParameterTable.Acyclic ∧
      booleanWrapped.typeCount = 1 ∧
      intLeftOver.typeCount = 2 ∧
      (Operation.wrapType
          (.host (BindingTable.primitive .boolean))).answer
            lostParameterTable intLeftOver =
        .ok (.type ⟨2⟩) intLeftOver ∧
      (Operation.wrapExecutable ⟨9⟩).answer lostParameterTable
          intLeftOver =
        .error (.violation (.danglingBinding ⟨99⟩))
          intLeftOver := by
  have hAcyclic : lostParameterTable.Acyclic :=
    BindingTable.acyclic_of_older (by decide +kernel)
  have hWrapped : (Operation.wrapType
      (.host (BindingTable.primitive .boolean))).answer
        lostParameterTable {} =
          .ok (.type ⟨2⟩) booleanWrapped := by
    apply eq_ok_of_answer?
    decide +kernel
  have hRun : (Operation.wrapExecutable ⟨9⟩).answer
      lostParameterTable booleanWrapped =
        .error (.violation (.danglingBinding ⟨99⟩))
          intLeftOver := by
    apply eq_error_of_error?
    decide +kernel
  rcases failed_operations_are_harmless hAcyclic hRun with
    ⟨_, _, hShared, hAgain⟩
  refine ⟨hAcyclic, by decide +kernel, by decide +kernel,
    ?_, hAgain⟩
  exact hShared (.wrapType _) trivial _ _ _ _ hWrapped
    (.same _ _)

end Cache

end Lowering
