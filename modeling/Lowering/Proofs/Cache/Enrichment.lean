import Lowering.Proofs.Cache.Packages

/-
  This file proves that a package gets its annotations at most
  once, and all or none of them.

  A package has no annotations until it is declared with some,
  all of which can be wrapped. From then on it has the mirrors
  of these, whatever is done until the next reset. A later
  declaration is answered with the package as it is, even one
  that could not be wrapped.

  Key definitions include:
    * `Cache.Bare`
    * `Cache.EnrichedBy`
    * `Cache.Operation.WrapsPackage`

  Main results:
    * `Cache.run_enriching`
    * `Cache.run_declaring_invalid`
    * `Cache.answer_of_wrapsPackage`
    * `Cache.annotationsOf_of_bare`
    * `Cache.annotationsOf_of_enrichedBy`
    * `Cache.packages_are_enriched_once`
-/

namespace Lowering

namespace Cache

variable {table : BindingTable}
variable {cache after : Cache}
variable {id : BindingId}

------------------------------------------------------------
-- Declarations
------------------------------------------------------------

/- A package with annotations is answered as it is. -/
theorem run_declaring_annotated
    (hFounded : cache.Founded table)
    {name : String}
    (hPackage : table.get? id = some (.package name))
    (hSome : cache.annotationsOf id ≠ []) :
    ∃ element,
      cache.hostElement? id = some element ∧
        ∀ annotations,
          wrapPackageDeclaration table id annotations cache =
            .ok element cache := by
  cases hElement : cache.hostElement? id with
  | none =>
      unfold annotationsOf at hSome
      rw [hElement] at hSome
      exact absurd rfl hSome
  | some element =>
      rcases run_wrapPackageElement hFounded hPackage with
        ⟨found, middle, data, hRun, hWrap, _, hData⟩
      cases (run_wrapHostElement_found table
        hElement).symm.trans hRun
      rw [annotationsOf_eq hElement hData] at hSome
      exact ⟨element, rfl, fun annotations =>
        run_wrapPackageDeclaration_settled table hWrap hData
          (Or.inl hSome)⟩

/- A package without annotations gets those that can be. -/
theorem run_enriching
    (hFounded : cache.Founded table)
    {annotations : List BindingId}
    (hEnriches : (Operation.wrapPackageDeclaration id
      annotations).Enriches table id)
    (hBare : cache.annotationsOf id = []) :
    ∃ element after,
      wrapPackageDeclaration table id annotations cache =
          .ok element after ∧
        annotations.mapM (after.use? table) =
          some (after.annotationsOf id) := by
  rcases hEnriches with ⟨_, hGiven, ⟨name, hPackage⟩, hAll⟩
  rcases run_wrapPackageElement hFounded hPackage with
    ⟨element, middle, data, _, hWrap, hElement, hData⟩
  have hFirst := (makes_wrapElementOf table _ _
    cache).run_ok hWrap
  have hOnly := atMostPackage_of_get? hPackage
  rw [← annotationsOf_makes hOnly hFirst,
    annotationsOf_eq hElement hData] at hBare
  rcases exists_wrapUses hAll middle with
    ⟨found, last, hUses, hFound⟩
  have hSecond := (makes_wrapUses table _ _).run_ok hUses
  have hLast := hSecond.changes.grown.hostElement? hElement
  refine ⟨element, last.withAnnotations element found, ?_, ?_⟩
  · unfold wrapPackageDeclaration
    rw [run_bind_ok hWrap, run_bind_ok
      (run_inspectCache_ok (element_eq_ok_iff.mpr hData)),
      if_pos (by simp [hBare, hGiven]), run_bind_ok hUses]
    rfl
  · have hKind := accepts_of_wrapElementOf hWrap
    rcases hKind with ⟨_, hSame, hAccepts⟩
    cases hData.symm.trans hSame
    have hGrown := grown_withAnnotations
      (hSecond.get? hData) hAccepts hBare found
    have hNow : (last.withAnnotations element
        found).elements.get? element.raw =
          some { data with annotations := found } := by
      rw [get?_withAnnotations, if_pos rfl, hSecond.get? hData]
      rfl
    rw [annotationsOf_eq (hGrown.hostElement? hLast) hNow]
    exact hFound

/- A declaration that cannot be wrapped is refused. -/
private theorem run_declaring_error
    (hFounded : cache.Founded table)
    (hPackage : AtMostPackage table id)
    {annotations : List BindingId}
    (hInvalid : ¬ ∀ use ∈ annotations, table.Annotates use)
    (hBare : cache.annotationsOf id = []) :
    ∃ error after,
      wrapPackageDeclaration table id annotations cache =
        .error error after := by
  cases hRun : wrapPackageDeclaration table id annotations
      cache with
  | error error after => exact ⟨error, after, rfl⟩
  | ok element after =>
      exfalso
      rcases run_wrapPackageDeclaration_eq_ok table hRun with
        ⟨middle, data, hWrap, hData, _, hCases⟩
      have hFirst := (makes_wrapElementOf table _ _
        cache).run_ok hWrap
      have hElement := hostElement?_of_wrapPackage hPackage
        (run_wrapHostElement_of hWrap)
      rw [← annotationsOf_makes hPackage hFirst,
        annotationsOf_eq hElement hData] at hBare
      rcases hCases with
        ⟨hSome | rfl, _⟩ | ⟨_, _, found, last, hUses, _⟩
      · exact hSome hBare
      · exact hInvalid (by simp)
      · exact hInvalid (annotates_of_wrapUses
          (hFounded.makes hFirst).types hUses)

/- A package that refuses a declaration gets no annotations. -/
theorem run_declaring_invalid
    (hFounded : cache.Founded table)
    (hPackage : AtMostPackage table id)
    {annotations : List BindingId}
    (hInvalid : ¬ ∀ use ∈ annotations, table.Annotates use)
    (hBare : cache.annotationsOf id = []) :
    ∃ error after,
      wrapPackageDeclaration table id annotations cache =
          .error error after ∧
        after.annotationsOf id = [] := by
  rcases run_declaring_error hFounded hPackage hInvalid hBare
    with ⟨error, after, hRun⟩
  refine ⟨error, after, hRun, ?_⟩
  have hFinal := finalState_answer table
    (.wrapPackageDeclaration id annotations) cache
  unfold Operation.answer at hFinal
  rw [finalState_map, hRun] at hFinal
  have hOther : ¬ (Operation.wrapPackageDeclaration id
      annotations).Enriches table id :=
    fun hEnriches => hInvalid hEnriches.2.2.2
  have hKept := annotationsOf_perform hFounded hPackage
    (Or.inl hOther)
  rw [← hFinal] at hKept
  exact hKept.trans hBare

------------------------------------------------------------
-- The Same Element
------------------------------------------------------------

/- An operation wraps a package, with or without a declaration. -/
def Operation.WrapsPackage
    (id : BindingId) : Operation → Prop
  | .wrapElement binding => binding = .host id
  | .wrapElementOf _ binding => binding = .host id
  | .wrapPackageDeclaration other _ => other = id
  | _ => False

/- However a package is wrapped, its element is answered. -/
theorem hostElement?_of_answer
    (hPackage : AtMostPackage table id)
    {operation : Operation}
    (hWraps : operation.WrapsPackage id)
    {answer : Answer}
    (hRun : operation.answer table cache = .ok answer after) :
    ∃ element,
      answer = .element element ∧
        after.hostElement? id = some element := by
  have hMapped : ∀ {run : CacheM ElementId},
      (∀ element, run cache = .ok element after →
        after.hostElement? id = some element) →
        (Answer.element <$> run) cache = .ok answer after →
          ∃ element, answer = .element element ∧
            after.hostElement? id = some element := by
    intro run hElement hMap
    rcases run_map_eq_ok hMap with ⟨element, hFound, hAnswer⟩
    exact ⟨element, hAnswer, hElement element hFound⟩
  cases operation with
  | wrapElement binding =>
      cases hWraps
      exact hMapped (fun element hFound =>
        hostElement?_of_wrapPackage hPackage hFound) hRun
  | wrapElementOf family binding =>
      cases hWraps
      exact hMapped (fun element hFound =>
        hostElement?_of_wrapPackage hPackage
          (run_wrapHostElement_of hFound)) hRun
  | wrapPackageDeclaration other annotations =>
      cases hWraps
      refine hMapped (fun element hFound => ?_) hRun
      rcases run_wrapPackageDeclaration_eq_ok table hFound with
        ⟨middle, data, hWrap, hData, hKind, hCases⟩
      have hElement := hostElement?_of_wrapPackage hPackage
        (run_wrapHostElement_of hWrap)
      rcases hCases with
        ⟨_, rfl⟩ | ⟨hBare, _, found, last, hUses, rfl⟩
      · exact hElement
      · have hLast := (makes_wrapUses table _ _).run_ok hUses
        exact Grown.hostElement? (hLast.changes.grown.trans
          (grown_withAnnotations (hLast.get? hData) hKind hBare
            found)) hElement
  | _ => exact hWraps.elim

/- The element of a package is the same at any time. -/
theorem answer_of_wrapsPackage
    {name : String}
    (hPackage : table.get? id = some (.package name))
    {operation operation' : Operation}
    (hWraps : operation.WrapsPackage id)
    (hWraps' : operation'.WrapsPackage id)
    {answer answer' : Answer}
    (hRun : operation.answer table cache = .ok answer after)
    {later : BindingTable × Cache}
    (hLater : Later (table, after) later)
    {last : Cache}
    (hRun' : operation'.answer later.1 later.2 =
      .ok answer' last) :
    answer' = answer := by
  have hFirst := atMostPackage_of_get? hPackage
  have hThen := atMostPackage_of_get? (hLater.get? hPackage)
  rcases hostElement?_of_answer hFirst hWraps hRun with
    ⟨element, rfl, hElement⟩
  rcases hostElement?_of_answer hThen hWraps' hRun' with
    ⟨element', rfl, hElement'⟩
  have hGrown := hLater.grown.trans (later_of_answer hRun').grown
  cases (hGrown.hostElement? hElement).symm.trans hElement'
  rfl

------------------------------------------------------------
-- Steps That Enrich
------------------------------------------------------------

def Step.Enriches
    (table : BindingTable)
    (id : BindingId) : Step → Prop
  | .perform operation => operation.Enriches table id
  | _ => False

/- No step so far enriched a package. -/
def Bare
    (start : BindingTable × Cache)
    (id : BindingId)
    (steps : List Step) : Prop :=
  ∀ front step back, steps = front ++ step :: back →
    ¬ step.Enriches (advanceAll start front).1 id

/- The first step that enriched a package gave annotations. -/
def EnrichedBy
    (start : BindingTable × Cache)
    (id : BindingId)
    (annotations : List BindingId)
    (steps : List Step) : Prop :=
  ∃ front back,
    steps = front ++
        .perform (.wrapPackageDeclaration id annotations) ::
          back ∧
      Bare start id front ∧
      (Operation.wrapPackageDeclaration id annotations).Enriches
        (advanceAll start front).1 id

section Steps

variable {state : BindingTable × Cache}
variable {steps : List Step}

/- The first step did not enrich, and neither did the others. -/
private theorem Bare.cons
    {step : Step}
    (hBare : Bare state id (step :: steps)) :
    ¬ step.Enriches state.1 id ∧
      Bare (advance state step) id steps := by
  refine ⟨hBare [] step steps rfl, ?_⟩
  rintro front other back rfl
  exact hBare (step :: front) other back rfl

/- What is a package later was no other thing before. -/
private theorem AtMostPackage.before
    {before after : BindingTable × Cache}
    (hLater : Later before after)
    (hPackage : AtMostPackage after.1 id) :
    AtMostPackage before.1 id :=
  fun host hGet => hPackage host (hLater.get? hGet)

/- A step that does not enrich leaves the annotations alone. -/
private theorem annotationsOf_advance
    (hReached : Reached state)
    (hPackage : AtMostPackage state.1 id)
    {step : Step}
    (hStep : step ≠ .reset)
    (hOther : ¬ step.Enriches state.1 id ∨
      state.2.annotationsOf id ≠ []) :
    (advance state step).2.annotationsOf id =
      state.2.annotationsOf id := by
  cases step with
  | perform operation =>
      exact annotationsOf_perform hReached.founded hPackage hOther
  | add binding => rfl
  | reset => exact absurd rfl hStep

/- Without a step that enriches there are no annotations. -/
theorem annotationsOf_of_bare
    (hReached : Reached state)
    (hSteps : .reset ∉ steps)
    (hPackage : AtMostPackage (advanceAll state steps).1 id)
    (hNone : state.2.annotationsOf id = [])
    (hBare : Bare state id steps) :
    (advanceAll state steps).2.annotationsOf id = [] := by
  induction steps generalizing state with
  | nil => exact hNone
  | cons step steps ih =>
      have hLater := later_advanceAll hSteps state
      rw [List.mem_cons, not_or] at hSteps
      apply ih (reached_advance hReached step) hSteps.2 hPackage
      · rw [annotationsOf_advance hReached
          (hPackage.before hLater) (Ne.symm hSteps.1)
          (Or.inl hBare.cons.1)]
        exact hNone
      · exact hBare.cons.2

/- Annotations stay the mirrors that they are. -/
private theorem mirrors_advanceAll
    (hReached : Reached state)
    (hSteps : .reset ∉ steps)
    (hPackage : AtMostPackage (advanceAll state steps).1 id)
    {annotations : List BindingId}
    (hGiven : annotations ≠ [])
    (hMirrors : annotations.mapM (state.2.use? state.1) =
      some (state.2.annotationsOf id)) :
    annotations.mapM ((advanceAll state steps).2.use?
        (advanceAll state steps).1) =
      some ((advanceAll state steps).2.annotationsOf id) := by
  induction steps generalizing state with
  | nil => exact hMirrors
  | cons step steps ih =>
      have hLater := later_advanceAll hSteps state
      rw [List.mem_cons, not_or] at hSteps
      apply ih (reached_advance hReached step) hSteps.2 hPackage
      have hStep := later_advance state step (Ne.symm hSteps.1)
      have hSome : state.2.annotationsOf id ≠ [] := by
        intro hNone
        rw [hNone] at hMirrors
        cases annotations with
        | nil => exact hGiven rfl
        | cons use annotations =>
            simp [List.mapM_cons, Option.bind_eq_some_iff]
              at hMirrors
      rw [annotationsOf_advance hReached
        (hPackage.before hLater) (Ne.symm hSteps.1)
        (Or.inr hSome)]
      apply mapM_mono ?_ hMirrors
      intro use found hUse
      exact use?_overTable (fun _ _ => hStep.get?)
        (use?_mono hStep.grown hUse)

/- After the first step that enriches there are its mirrors. -/
theorem annotationsOf_of_enrichedBy
    (hReached : Reached state)
    (hSteps : .reset ∉ steps)
    (hPackage : AtMostPackage (advanceAll state steps).1 id)
    (hNone : state.2.annotationsOf id = [])
    {annotations : List BindingId}
    (hEnriched : EnrichedBy state id annotations steps) :
    annotations ≠ [] ∧
      annotations.mapM ((advanceAll state steps).2.use?
          (advanceAll state steps).1) =
        some ((advanceAll state steps).2.annotationsOf id) := by
  rcases hEnriched with ⟨front, back, rfl, hBare, hEnriches⟩
  rw [advanceAll_append] at hPackage ⊢
  rw [List.mem_append, not_or, List.mem_cons, not_or] at hSteps
  rcases hSteps with ⟨hFront, _, hBack⟩
  have hGiven := hEnriches.2.1
  refine ⟨hGiven, ?_⟩
  have hMiddle := reached_advanceAll hReached front
  have hFirst : AtMostPackage (advanceAll state front).1 id :=
    hPackage.before (later_advanceAll (by simpa using hBack) _)
  have hEmpty := annotationsOf_of_bare hReached hFront hFirst
    hNone hBare
  rcases run_enriching hMiddle.founded hEnriches hEmpty with
    ⟨element, after, hRun, hMirrors⟩
  have hAnswer : (Operation.wrapPackageDeclaration
      id annotations).answer _ _ = .ok _ after :=
    run_map_ok _ hRun
  apply mirrors_advanceAll (reached_advance hMiddle _) hBack
    hPackage hGiven
  unfold advance
  simp only [finalState_of_answer hAnswer]
  exact hMirrors

end Steps

/- A reset leaves no package with annotations. -/
private theorem annotationsOf_reset :
    cache.reset.annotationsOf id = [] := by
  unfold annotationsOf
  cases hElement : cache.reset.hostElement? id with
  | none => rfl
  | some element =>
      rcases get?_of_hostElement? hElement with
        ⟨data, hData, _⟩
      exact (Generation.get?_ne_of_empty rfl hData).elim

/-
  Between two resets, whatever the steps: a package has no
  annotations until a step enriches it, and from then on the
  mirrors of those that the first such step gave, in order. A
  declaration of a package with annotations is answered and
  changes nothing; one that cannot be wrapped is refused by a
  package without, which stays so. Wrapping the package itself
  is always answered; and whoever wraps it, at whatever time,
  is answered the same element.
-/
theorem packages_are_enriched_once
    {table : BindingTable}
    {cache : Cache}
    {steps : List Step}
    {state : BindingTable × Cache}
    {package : BindingId}
    {name : String}
    (hReached : Reached (table, cache))
    (hSteps : .reset ∉ steps)
    (hState : advanceAll (table, cache.reset) steps = state)
    (hPackage : state.1.get? package = some (.package name)) :
    (Bare (table, cache.reset) package steps →
      state.2.annotationsOf package = []) ∧
    (∀ annotations,
      EnrichedBy (table, cache.reset) package annotations
          steps →
        annotations ≠ [] ∧
          annotations.mapM (state.2.use? state.1) =
            some (state.2.annotationsOf package)) ∧
    (state.2.annotationsOf package ≠ [] →
      ∃ element, state.2.hostElement? package = some element ∧
        ∀ annotations,
          wrapPackageDeclaration state.1 package annotations
            state.2 = .ok element state.2) ∧
    (state.2.annotationsOf package = [] →
      ∀ annotations,
        (¬ ∀ use ∈ annotations, state.1.Annotates use) →
          ∃ error after,
            wrapPackageDeclaration state.1 package annotations
                state.2 = .error error after ∧
              after.annotationsOf package = []) ∧
    (∃ element after,
      wrapElement state.1 (.host package) state.2 =
          .ok element after ∧
        wrapElementOf state.1 .package (.host package)
            state.2 = .ok element after) ∧
    ∀ operation operation' : Operation,
      operation.WrapsPackage package →
        operation'.WrapsPackage package →
          ∀ answer after more,
            operation.answer state.1 state.2 =
                .ok answer after →
              .reset ∉ more →
                ∀ later, advanceAll (state.1, after) more =
                    later →
                  ∀ answer' last,
                    operation'.answer later.1 later.2 =
                        .ok answer' last →
                      answer' = answer := by
  subst hState
  have hStart := hReached.reset
  have hNow := reached_advanceAll hStart steps
  have hOnly := atMostPackage_of_get? hPackage
  have hNone : (table, cache.reset).2.annotationsOf package =
      [] := annotationsOf_reset
  refine ⟨?_, ?_, ?_, ?_, ?_, ?_⟩
  · exact annotationsOf_of_bare hStart hSteps hOnly hNone
  · exact fun annotations =>
      annotationsOf_of_enrichedBy hStart hSteps hOnly hNone
  · exact run_declaring_annotated hNow.founded hPackage
  · exact fun hBare annotations hInvalid =>
      run_declaring_invalid hNow.founded hOnly hInvalid hBare
  · rcases run_wrapPackageElement hNow.founded hPackage with
      ⟨element, after, _, hRun, hWrap, _, _⟩
    exact ⟨element, after, hRun, hWrap⟩
  · intro operation operation' hWraps hWraps' answer after more
      hRun hMore later hLater answer' last hRun'
    subst hLater
    exact answer_of_wrapsPackage hPackage hWraps hWraps' hRun
      (later_advanceAll hMore _) hRun'

/- A table with a package, an annotation type, and a use of it. -/
def annotatedTable : BindingTable :=
  ⟨#[.package "p",
    .type { name := "A", binaryName := "LA;" },
    .annotationUse ⟨10⟩]⟩

/- The package is declared with what is not there. -/
def declareDangling : Step :=
  .perform (.wrapPackageDeclaration ⟨9⟩ [⟨99⟩])

/- It is declared three times, properly the second time. -/
def declarations : List Step :=
  [declareDangling,
    .perform (.wrapPackageDeclaration ⟨9⟩ [⟨11⟩]),
    declareDangling]

def declaredThrice : BindingTable × Cache :=
  advanceAll (annotatedTable, ({} : Cache).reset) declarations

/-
  The package has the annotations of the second declaration.
  The third one was answered, and would be again.
-/
theorem packages_are_enriched_once_declaredThrice :
    declaredThrice.2.annotationsOf ⟨9⟩ = [⟨⟨11⟩, ⟨2⟩⟩] ∧
      ([⟨11⟩] : List BindingId).mapM
          (declaredThrice.2.use? declaredThrice.1) =
        some (declaredThrice.2.annotationsOf ⟨9⟩) ∧
      ∃ element,
        wrapPackageDeclaration declaredThrice.1 ⟨9⟩ [⟨99⟩]
            declaredThrice.2 =
          .ok element declaredThrice.2 := by
  have hSteps : .reset ∉ declarations := by
    simp [declarations, declareDangling]
  have hPackage : declaredThrice.1.get? ⟨9⟩ =
      some (.package "p") := by
    decide +kernel
  rcases packages_are_enriched_once (.new annotatedTable)
    hSteps rfl hPackage with ⟨_, hEnriched, hSettled, _⟩
  have hType : annotatedTable.get? ⟨10⟩ =
      some (.type { name := "A", binaryName := "LA;" }) := by
    decide +kernel
  have hUse : annotatedTable.get? ⟨11⟩ =
      some (.annotationUse ⟨10⟩) := by
    decide +kernel
  have hAnnotates : annotatedTable.Annotates ⟨11⟩ :=
    ⟨⟨10⟩, hUse, .intro hType trivial
      (by simp [TypeBinding.parts, TypeBinding.form])⟩
  have hDangling : ¬ annotatedTable.Annotates ⟨99⟩ := by
    rintro ⟨_, hGet, _⟩
    cases (show annotatedTable.get? ⟨99⟩ = none by
      decide +kernel).symm.trans hGet
  have hBy : EnrichedBy (annotatedTable, ({} : Cache).reset)
      ⟨9⟩ [⟨11⟩] declarations := by
    refine ⟨[declareDangling], [declareDangling], rfl, ?_,
      rfl, by simp, ⟨"p", by decide +kernel⟩, ?_⟩
    · intro front step back hSplit hEnriches
      cases front with
      | nil =>
          cases hSplit
          exact hDangling (hEnriches.2.2.2 ⟨99⟩ (by simp))
      | cons first front =>
          simp at hSplit
    · intro use hMem
      cases List.mem_singleton.mp hMem
      exact hAnnotates
  have hSome : declaredThrice.2.annotationsOf ⟨9⟩ =
      [⟨⟨11⟩, ⟨2⟩⟩] := by
    decide +kernel
  have hNonempty : declaredThrice.2.annotationsOf ⟨9⟩ ≠ [] := by
    simp [hSome]
  refine ⟨hSome, (hEnriched _ hBy).2, ?_⟩
  rcases hSettled hNonempty with ⟨element, _, hAll⟩
  exact ⟨element, hAll _⟩

end Cache

end Lowering
