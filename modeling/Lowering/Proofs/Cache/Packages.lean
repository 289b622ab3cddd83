import Lowering.Proofs.Cache.Mirrors
import Lowering.Proofs.Cache.Steps
import Lowering.Proofs.Cache.Additions

/-
  This file proves what wrapping a package and declaring it do,
  whatever else is in the table: the package always gets its
  one element, and a declaration gives it all its annotations
  or none.

  A cache is founded in a table if what it wraps is there: it
  made types only of what prescribes them, and the elements of
  packages are packages. Every cache that is reached is founded
  in its table.

  Key definitions include:
    * `BindingTable.Annotates`
    * `Cache.annotationsOf`
    * `Cache.Founded`

  Main results:
    * `Cache.Reached.founded`
    * `Cache.exists_wrapUses`
    * `Cache.annotates_of_wrapUses`
    * `Cache.hostElement?_of_wrapPackage`
    * `Cache.annotationsOf_perform`
-/

namespace Lowering

/-
  An annotation binding whose annotation type prescribes a
  type.
-/
def BindingTable.Annotates
    (table : BindingTable)
    (id : BindingId) : Prop :=
  ∃ ty,
    table.get? id = some (.annotationUse ty) ∧
      table.Wrappable ty

namespace Cache

variable {table : BindingTable}
variable {cache before after : Cache}

------------------------------------------------------------
-- Annotation Uses
------------------------------------------------------------

/- What annotates gets a use that mirrors it. -/
private theorem exists_wrapUse
    {id : BindingId}
    (hAnnotates : table.Annotates id)
    (cache : Cache) :
    ∃ use after,
      wrapUse table id cache = .ok use after ∧
        after.use? table id = some use := by
  rcases hAnnotates with ⟨annotationType, hGet, hWrappable⟩
  rcases exists_wrapHostType hWrappable cache with
    ⟨ty, after, hRun, hType⟩
  have hNoted : table.annotationType id =
      .ok annotationType := by
    unfold BindingTable.annotationType
    rw [hGet]
  refine ⟨⟨id, ty⟩, after, ?_, ?_⟩
  · unfold wrapUse
    rw [hNoted]
    simp only [consult, pure_bind]
    rw [run_bind_ok hRun]
    rfl
  · unfold use?
    rw [hGet]
    simp only [hType, Option.map_some]

/- If all of a list annotate, all of them get their uses. -/
theorem exists_wrapUses
    {annotations : List BindingId}
    (hAll : ∀ id ∈ annotations, table.Annotates id)
    (cache : Cache) :
    ∃ found after,
      wrapUses table annotations cache = .ok found after ∧
        annotations.mapM (after.use? table) = some found := by
  unfold wrapUses
  induction annotations generalizing cache with
  | nil => exact ⟨[], cache, rfl, rfl⟩
  | cons id annotations ih =>
      rcases exists_wrapUse (hAll id (by simp)) cache with
        ⟨use, middle, hFirst, hUse⟩
      rcases ih (fun other hMem => hAll other (by simp [hMem]))
        middle with ⟨found, after, hRest, hFound⟩
      have hGrown := ((makes_wrapUses table annotations
        middle).run_ok hRest).changes.grown
      refine ⟨use :: found, after, ?_, ?_⟩
      · rw [List.mapM_cons, run_bind_ok hFirst,
          run_bind_ok hRest]
        rfl
      · rw [List.mapM_cons, use?_mono hGrown hUse]
        simp [hFound]

/- If all of a list get their uses, all of them annotate. -/
theorem annotates_of_wrapUses
    (hCache : cache.WrapsOnly table)
    {annotations : List BindingId}
    {found : List AnnotationUse}
    (hRun : wrapUses table annotations cache = .ok found after) :
    ∀ id ∈ annotations, table.Annotates id := by
  unfold wrapUses at hRun
  induction annotations generalizing cache found with
  | nil => simp
  | cons id annotations ih =>
      rw [List.mapM_cons] at hRun
      rcases run_bind_eq_ok hRun with
        ⟨use, middle, hFirst, hTail⟩
      rcases run_bind_eq_ok hTail with ⟨rest, _, hRest, hLast⟩
      cases hLast
      unfold wrapUse at hFirst
      rcases run_bind_eq_ok hFirst with
        ⟨annotationType, _, hConsult, hType⟩
      rcases run_consult_eq_ok hConsult with ⟨hNoted, rfl⟩
      rcases run_bind_eq_ok hType with ⟨ty, _, hWrap, hPure⟩
      cases hPure
      have hMiddle := (keepsWraps_wrapHostType table _ _).run_ok
        hWrap hCache
      intro other hMem
      rcases List.mem_cons.mp hMem with rfl | hMem
      · exact ⟨annotationType, get?_of_annotationType hNoted,
          wrappable_of_wrapHostType hCache hWrap⟩
      · exact ih hMiddle hRest other hMem

------------------------------------------------------------
-- Founded Caches
------------------------------------------------------------

/-
  Types were made of bindings that prescribe them, and elements
  of bindings in the table, those of packages as packages.
-/
structure Founded
    (cache : Cache)
    (table : BindingTable) : Prop where
  types : cache.WrapsOnly table
  elements : ∀ handle data id,
    cache.elements.get? handle = some data →
      data.origin = .host id →
        ∃ host, table.get? id = some host ∧
          ∀ name, host = .package name → data.kind = .package

/- A cache without wrappers is founded in any table. -/
private theorem founded_of_empty
    (hTypes : cache.types.items = #[])
    (hElements : cache.elements.items = #[])
    (table : BindingTable) :
    cache.Founded table where
  types := wrapsOnly_of_empty hTypes table
  elements := by
    intro handle data id hData
    exact (Generation.get?_ne_of_empty hElements hData).elim

private theorem Founded.overTable
    {table' : BindingTable}
    (hTable : ∀ id host,
      table.get? id = some host → table'.get? id = some host)
    (hFounded : cache.Founded table) :
    cache.Founded table' where
  types := hFounded.types.overTable hTable
  elements := by
    intro handle data id hData hOrigin
    rcases hFounded.elements handle data id hData hOrigin with
      ⟨host, hGet, hPackage⟩
    exact ⟨host, hTable id host hGet, hPackage⟩

/- Wrappers that are made are founded. -/
theorem Founded.makes
    (hFounded : before.Founded table)
    (hMakes : Makes table before after) :
    after.Founded table where
  types := hMakes.wraps hFounded.types
  elements := by
    intro handle data id hData hOrigin
    rcases hMakes.plain handle data hData with hOld | hPlain
    · exact hFounded.elements handle data id hOld hOrigin
    · exact hPlain.hosts id hOrigin

/- An element may change if its origin and kind are kept. -/
private theorem Founded.changed
    (hFounded : before.Founded table)
    (hTypes : after.types = before.types)
    (hElements : ∀ handle data id,
      after.elements.get? handle = some data →
        data.origin = .host id →
          ∃ old, before.elements.get? handle = some old ∧
            old.origin = data.origin ∧
            (old.kind = .package → data.kind = .package)) :
    after.Founded table where
  types := by
    intro handle data id hType
    rw [hTypes] at hType
    exact hFounded.types handle data id hType
  elements := by
    intro handle data id hData hOrigin
    rcases hElements handle data id hData hOrigin with
      ⟨old, hOld, hSame, hKind⟩
    rcases hFounded.elements handle old id hOld
      (hSame.trans hOrigin) with ⟨host, hGet, hPackage⟩
    exact ⟨host, hGet, fun name hName =>
      hKind (hPackage name hName)⟩

/- Every operation leaves a founded cache founded. -/
private theorem Founded.perform
    (hFounded : cache.Founded table)
    (operation : Operation) :
    (finalState (operation.perform table cache)).Founded
      table := by
  have hEffect := effect_perform table operation cache
  generalize finalState (operation.perform table cache) = after
    at hEffect
  cases hEffect with
  | makes hMakes => exact hFounded.makes hMakes
  | @parameter method _ _ _ _ _ data hRead hSpelled =>
      rcases makes_named table hRead hSpelled with
        ⟨hNamed, hLive⟩
      refine Founded.changed (hFounded.makes hNamed) rfl ?_
      intro handle found id hFound hOrigin
      rw [get?_withParameter hLive] at hFound
      split at hFound
      · next hMethod =>
        cases hFound
        refine ⟨data, hMethod ▸ hLive, rfl, ?_⟩
        intro hPackage
        simp only [hPackage]
        rfl
      · split at hFound
        · cases hFound
          cases hOrigin
        · exact ⟨found, hFound, rfl, fun hKind => hKind⟩
  | annotations hWrapped hData _ _ _ hResolved =>
      have hMakes :=
        (makes_resolved hWrapped hData hResolved).1
      refine Founded.changed (hFounded.makes hMakes) rfl ?_
      intro handle found id hFound hOrigin
      rw [get?_withAnnotations] at hFound
      split at hFound
      · rcases Option.map_eq_some_iff.mp hFound with
          ⟨old, hOld, rfl⟩
        exact ⟨old, hOld, rfl, fun hKind => hKind⟩
      · exact ⟨found, hFound, rfl, fun hKind => hKind⟩
  | executable =>
      refine ⟨?_, hFounded.elements⟩
      intro handle data id hType hOrigin
      rcases get?_push_cases hType with ⟨_, rfl⟩ | hOld
      · cases hOrigin
      · exact hFounded.types handle data id hOld hOrigin

/- Every cache is founded in its table. -/
theorem Reached.founded
    {state : BindingTable × Cache}
    (hReached : Reached state) :
    state.2.Founded state.1 :=
  hReached.keeps (fun table cache => cache.Founded table)
    (fun table => founded_of_empty rfl rfl table)
    (fun _ _ operation hFounded => hFounded.perform operation)
    (fun _ _ _ hFounded =>
      hFounded.overTable fun _ _ => get?_add)
    (fun table _ _ => founded_of_empty rfl rfl table)

------------------------------------------------------------
-- The Element Of A Package
------------------------------------------------------------

section Packages

variable {id : BindingId}

/- Wrapping a package finds its element or makes it. -/
theorem run_wrapPackage
    {name : String}
    (hPackage : table.get? id = some (.package name))
    (cache : Cache) :
    ∃ element middle,
      wrapHostElement table id cache = .ok element middle ∧
        middle.hostElement? id = some element := by
  unfold wrapHostElement wrapHostElementWithin
  rw [run_bind_ok (run_get cache)]
  cases hFound : cache.hostElement? id with
  | some element => exact ⟨element, cache, rfl, hFound⟩
  | none =>
      simp only []
      have hDescribe : ∃ data middle,
          describeHost table
              (wrapHostElementWithin table table.size) id cache =
            .ok data middle ∧
          middle.elements = cache.elements := by
        unfold describeHost
        simp only [hPackage]
        exact ⟨_, _, rfl, rfl⟩
      rcases hDescribe with ⟨data, middle, hData, hSame⟩
      have hNone := hFound
      rw [hostElement?_eq] at hNone
      replace hNone : middle.findElement?
          (·.origin = .host id) = none := by
        unfold findElement? at hNone ⊢
        rw [hSame]
        exact hNone
      have hAdd : addElement data middle = .ok _ _ := rfl
      rw [run_bind_ok hData]
      refine ⟨_, _, hAdd, ?_⟩
      rw [hostElement?_eq]
      exact findElement?_addElement hNone
        (by simp [(described_of_describeHost hData).origin])
        hAdd

/- An element that is there is found by wrapping. -/
theorem run_wrapHostElement_found
    (table : BindingTable)
    {element : ElementId}
    (hFound : cache.hostElement? id = some element) :
    wrapHostElement table id cache = .ok element cache := by
  unfold wrapHostElement wrapHostElementWithin
  rw [run_bind_ok (run_get cache)]
  simp only [hFound]
  rfl

/- Nothing but a package may be known by a handle. -/
def AtMostPackage
    (table : BindingTable)
    (id : BindingId) : Prop :=
  ∀ host, table.get? id = some host →
    ∃ name, host = .package name

theorem atMostPackage_of_get?
    {name : String}
    (hPackage : table.get? id = some (.package name)) :
    AtMostPackage table id := by
  intro host hGet
  cases hPackage.symm.trans hGet
  exact ⟨name, rfl⟩

/- What is wrapped for a package is found for it. -/
theorem hostElement?_of_wrapPackage
    (hPackage : AtMostPackage table id)
    {element : ElementId}
    (hRun : wrapHostElement table id cache =
      .ok element after) :
    after.hostElement? id = some element := by
  cases hFound : cache.hostElement? id with
  | some found =>
      cases (run_wrapHostElement_found table hFound).symm.trans
        hRun
      exact hFound
  | none =>
      cases hGet : table.get? id with
      | some host =>
          rcases hPackage host hGet with ⟨name, rfl⟩
          rcases run_wrapPackage hGet cache with
            ⟨_, _, hWrap, hElement⟩
          cases hWrap.symm.trans hRun
          exact hElement
      | none =>
          unfold wrapHostElement wrapHostElementWithin at hRun
          rw [run_bind_ok (run_get cache)] at hRun
          simp only [hFound, describeHost, hGet] at hRun
          cases hRun

/- A package is wrapped as an element of its family. -/
theorem run_wrapPackageElement
    (hFounded : cache.Founded table)
    {name : String}
    (hPackage : table.get? id = some (.package name)) :
    ∃ element middle data,
      wrapHostElement table id cache = .ok element middle ∧
        wrapElementOf table .package (.host id) cache =
          .ok element middle ∧
        middle.hostElement? id = some element ∧
        middle.elements.get? element.raw = some data := by
  rcases run_wrapPackage hPackage cache with
    ⟨element, middle, hRun, hElement⟩
  have hWrap : wrapElement table (.host id) cache =
      .ok element middle := hRun
  have hMiddle := hFounded.makes
    ((makes_wrapElement table _ cache).run_ok hWrap)
  rcases get?_of_hostElement? hElement with
    ⟨data, hData, hOrigin⟩
  rcases hMiddle.elements _ data id hData hOrigin with
    ⟨host, hGet, hKind⟩
  cases hGet.symm.trans hPackage
  have hAccepts : middle.elementOf .package element =
      .ok data := by
    unfold elementOf
    rw [bind_ok (element_eq_ok_iff.mpr hData), hKind name rfl]
    rfl
  refine ⟨element, middle, data, hRun, ?_, hElement, hData⟩
  unfold wrapElementOf
  rw [run_bind_ok hWrap,
    run_bind_ok (run_inspectCache_ok hAccepts)]
  rfl

------------------------------------------------------------
-- The Annotations Of A Package
------------------------------------------------------------

/- The annotations of the element of a binding, if it has one. -/
def annotationsOf
    (cache : Cache)
    (id : BindingId) : List AnnotationUse :=
  ((cache.hostElement? id).bind
    fun element => cache.elements.get? element.raw).elim
      [] (·.annotations)

theorem annotationsOf_eq
    {element : ElementId}
    {data : ElementData}
    (hElement : cache.hostElement? id = some element)
    (hData : cache.elements.get? element.raw = some data) :
    cache.annotationsOf id = data.annotations := by
  unfold annotationsOf
  simp only [hElement, Option.bind_some, hData, Option.elim_some]

/-
  The annotations stay the same if those of every element of
  the binding do, and a new one has none.
-/
private theorem annotationsOf_kept
    (hGrown : Grown before after)
    (hSame : ∀ handle data,
      after.elements.get? handle = some data →
        data.origin = .host id →
          data.annotations =
            (before.elements.get? handle).elim
              [] (·.annotations)) :
    after.annotationsOf id = before.annotationsOf id := by
  cases hElement : before.hostElement? id with
  | some element =>
      have hStill := hGrown.hostElement? hElement
      rcases get?_of_hostElement? hStill with
        ⟨data, hData, hOrigin⟩
      rcases get?_of_hostElement? hElement with ⟨old, hOld, _⟩
      rw [annotationsOf_eq hStill hData,
        annotationsOf_eq hElement hOld,
        hSame _ data hData hOrigin, hOld]
      rfl
  | none =>
      have hNone : before.annotationsOf id = [] := by
        unfold annotationsOf
        rw [hElement]
        rfl
      rw [hNone]
      cases hNew : after.hostElement? id with
      | none =>
          unfold annotationsOf
          rw [hNew]
          rfl
      | some element =>
          rcases get?_of_hostElement? hNew with
            ⟨data, hData, hOrigin⟩
          rw [annotationsOf_eq hNew hData,
            hSame _ data hData hOrigin]
          cases hOld : before.elements.get? element.raw with
          | none => rfl
          | some old =>
              rcases hGrown.element? hOld with
                ⟨found, hFound, hKept⟩
              cases hData.symm.trans hFound
              rw [hostElement?_eq, findElement?_eq_none_iff]
                at hElement
              have hOther := hElement _ old hOld
              simp [← hKept.origin, hOrigin] at hOther

/- Wrappers that are made leave the annotations alone. -/
theorem annotationsOf_makes
    (hPackage : AtMostPackage table id)
    (hMakes : Makes table before after) :
    after.annotationsOf id = before.annotationsOf id := by
  apply annotationsOf_kept hMakes.changes.grown
  intro handle data hData hOrigin
  cases hOld : before.elements.get? handle with
  | some old =>
      cases hData.symm.trans (hMakes.get? hOld)
      rfl
  | none =>
      rcases hMakes.plain handle data hData with
        hBefore | hPlain
      · cases hOld.symm.trans hBefore
      · rcases hPlain.hosts id hOrigin with
          ⟨host, hGet, hKind⟩
        rcases hPackage host hGet with ⟨name, rfl⟩
        exact hPlain.packages (hKind name rfl)

/- The element of a binding says of which one it is. -/
theorem origin_of_wrapHostElement
    {element : ElementId}
    (hRun : wrapHostElement table id cache =
      .ok element after) :
    ∃ data, after.elements.get? element.raw = some data ∧
      data.origin = .host id := by
  cases hFound : cache.hostElement? id with
  | some found =>
      cases (run_wrapHostElement_found table hFound).symm.trans
        hRun
      exact get?_of_hostElement? hFound
  | none =>
      unfold wrapHostElement wrapHostElementWithin at hRun
      rw [run_bind_ok (run_get cache)] at hRun
      simp only [hFound] at hRun
      rcases run_bind_eq_ok hRun with ⟨data, _, hData, hAdd⟩
      cases hAdd
      exact ⟨data, Generation.get?_push_next _ _,
        (described_of_describeHost hData).origin⟩

/- What is wrapped as one of a family is wrapped. -/
theorem run_wrapHostElement_of
    {family : ElementFamily}
    {element : ElementId}
    (hRun : wrapElementOf table family (.host id) cache =
      .ok element after) :
    wrapHostElement table id cache = .ok element after := by
  unfold wrapElementOf at hRun
  rcases run_bind_eq_ok hRun with ⟨found, _, hWrap, hRest⟩
  rcases run_bind_eq_ok hRest with ⟨_, _, hInspect, hPure⟩
  rcases run_inspectCache_eq_ok hInspect with ⟨_, rfl⟩
  cases hPure
  exact hWrap

/-
  An operation declares a package with annotations, all of
  which can be wrapped.
-/
def Operation.Enriches
    (table : BindingTable)
    (id : BindingId) : Operation → Prop
  | .wrapPackageDeclaration other annotations =>
    other = id ∧ annotations ≠ [] ∧
      (∃ name, table.get? id = some (.package name)) ∧
      ∀ use ∈ annotations, table.Annotates use
  | _ => False

/-
  No operation changes the annotations of a package but one
  that enriches it, and that only if there are none.
-/
theorem annotationsOf_perform
    (hFounded : cache.Founded table)
    (hPackage : AtMostPackage table id)
    {operation : Operation}
    (hOther : ¬ operation.Enriches table id ∨
      cache.annotationsOf id ≠ []) :
    (finalState (operation.perform table cache)).annotationsOf
      id = cache.annotationsOf id := by
  have hEffect := effect_perform table operation cache
  generalize finalState (operation.perform table cache) = after
    at hEffect
  cases hEffect with
  | makes hMakes => exact annotationsOf_makes hPackage hMakes
  | @parameter method _ _ _ named name data hRead hSpelled =>
      rcases makes_named table hRead hSpelled with
        ⟨hNamed, hLive⟩
      rw [← annotationsOf_makes hPackage hNamed]
      apply annotationsOf_kept (grown_withParameter _ _ _ _)
      intro handle found hFound hOrigin
      rw [get?_withParameter hLive] at hFound
      split at hFound
      · next hMethod =>
        cases hFound
        rw [hMethod, hLive]
        rfl
      · split at hFound
        · cases hFound
          cases hOrigin
        · rw [hFound]
          rfl
  | @annotations other given _ middle last element data found
      hWrapped hData hKind hBare hGiven hResolved =>
      have hFirst := (makes_wrapElementOf table _ _
        cache).run_ok hWrapped
      have hWrap := run_wrapHostElement_of hWrapped
      by_cases hSame : other = id
      · subst hSame
        have hElement := hostElement?_of_wrapPackage hPackage
          hWrap
        have hNone := annotationsOf_eq hElement hData
        rw [annotationsOf_makes hPackage hFirst, hBare]
          at hNone
        rcases hOther with hNot | hSome
        · exfalso
          apply hNot
          have hMiddle := hFounded.makes hFirst
          rcases origin_of_wrapHostElement hWrap with
            ⟨_, hFound, hOrigin⟩
          rcases hMiddle.elements _ _ _ hFound hOrigin with
            ⟨host, hGet, _⟩
          rcases hPackage host hGet with ⟨name, rfl⟩
          exact ⟨rfl, hGiven, ⟨name, hGet⟩,
            annotates_of_wrapUses hMiddle.types hResolved⟩
        · exact absurd hNone hSome
      · rcases makes_resolved hWrapped hData hResolved with
          ⟨hMakes, hLive⟩
        rw [← annotationsOf_makes hPackage hMakes]
        apply annotationsOf_kept
          (grown_withAnnotations hLive hKind hBare _)
        intro handle now hNow hOrigin
        rw [get?_withAnnotations] at hNow
        split at hNow
        · next hHandle =>
          rcases origin_of_wrapHostElement hWrap with
            ⟨_, hFound, hFrom⟩
          cases hFound.symm.trans hData
          rw [hHandle, hLive] at hNow
          cases hNow
          cases hFrom.symm.trans hOrigin
          exact absurd rfl hSame
        · rw [hNow]
          rfl
  | executable => rfl

end Packages

end Cache

end Lowering
