import Lowering.Proofs.Cache.Orderly

/-
  This file proves that a type binding gets a type if and only
  if it prescribes one, whatever else the table holds: other
  bindings may be circular, dangling or of the wrong sort.

  What prescribes a type is never made of itself, so the search
  for it ends within its depth. Conversely no type is ever made
  of what prescribes none, and so none is found for it.

  Key definitions include:
    * `BindingTable.Part`
    * `Cache.WrapsOnly`
    * `Cache.KeepsWraps`

  Main results:
    * `BindingTable.Wrappable.not_cycle`
    * `Cache.behaves_kindOfType`
    * `Cache.exists_wrapHostType`
    * `Cache.wrappable_of_wrapHostType`
-/

namespace Lowering

------------------------------------------------------------
-- Parts
------------------------------------------------------------

namespace BindingTable

variable {table : BindingTable}

/- The type of a binding is made of that of another one. -/
def Part
    (table : BindingTable)
    (whole part : BindingId) : Prop :=
  ∃ binding,
    table.get? whole = some (.type binding) ∧
      part ∈ binding.parts

/- What prescribes a type is not made of itself. -/
theorem Wrappable.not_cycle
    {id : BindingId}
    (hWrappable : table.Wrappable id) :
    ¬ Relation.TransGen table.Part id id := by
  induction hWrappable with
  | @intro id binding hBound _ _ ih =>
      intro hCycle
      rcases Relation.TransGen.head'_iff.mp hCycle with
        ⟨part, hFirst, hBack⟩
      rcases hFirst with ⟨found, hFound, hPart⟩
      cases hBound.symm.trans hFound
      exact ih part hPart
        (Relation.TransGen.tail' hBack ⟨_, hBound, hPart⟩)

/- What prescribes a type does so as the table grows. -/
theorem Wrappable.overTable
    {table' : BindingTable}
    (hTable : ∀ id host,
      table.get? id = some host → table'.get? id = some host)
    {id : BindingId}
    (hWrappable : table.Wrappable id) :
    table'.Wrappable id := by
  induction hWrappable with
  | intro hBound hFormed _ ih =>
      exact .intro (hTable _ _ hBound) hFormed ih

end BindingTable

namespace Cache

variable {table : BindingTable}

------------------------------------------------------------
-- The Kind Of A Binding
------------------------------------------------------------

section Kinds

variable {R : Cache → Cache → Prop}
variable {Allowed : CacheError → Prop}
variable (Before : Cache → Prop)
variable (Promise : BindingId → Prop)
variable {wrap : BindingId → CacheM TypeId}

private theorem forall_of_forall₂
    {α β : Type}
    {property : α → Prop}
    {items : List α}
    {answers : List β}
    (hAll : List.Forall₂ (fun item _ => property item)
      items answers) :
    ∀ item ∈ items, property item := by
  induction hAll with
  | nil => simp
  | cons hFirst _ ih => simpa using ⟨hFirst, ih⟩

/-
  The kind of a binding behaves as its parts do. It is found
  if the binding has what its form needs.
-/
theorem behaves_kindOfType
    (hHistory : IsHistory R)
    (hIntern : ∀ text cache, Follows R (intern text) cache)
    (hBefore : ∀ {first second}, R first second →
      Before first → Before second)
    {binding : TypeBinding}
    (hAllowed : ¬ binding.Formed → ∀ error, Allowed error)
    (hParts : ∀ part ∈ binding.parts, ∀ cache, Before cache →
      Behaves R Allowed (wrap part) cache
        fun _ _ => Promise part)
    (id : BindingId)
    {cache : Cache}
    (hCache : Before cache) :
    Behaves R Allowed (kindOfType table wrap id binding) cache
      fun kind _ => kind.isExecutable = false ∧
        binding.Formed ∧
        ∀ part ∈ binding.parts, Promise part := by
  rw [kindOfType_eq]
  unfold TypeBinding.Formed at hAllowed ⊢
  unfold TypeBinding.parts at hParts ⊢
  have hName : ∀ {build : Name → TypeKind} (text : String),
      (∀ name, (build name).isExecutable = false) →
        Behaves R Allowed (build <$> intern text) cache
          fun kind _ => kind.isExecutable = false := by
    intro build text hBuild
    refine ⟨(hIntern text cache).map hHistory _, ?_, ?_⟩
    · intro kind after hRun
      cases hRun
      exact hBuild _
    · intro error after hRun
      cases hRun
  cases hForm : binding.form with
  | array =>
      simp only [hForm] at hAllowed hParts ⊢
      cases hComponent : binding.component with
      | none =>
          rw [hComponent] at hAllowed
          exact .throw hHistory (hAllowed (by simp) _)
      | some component =>
          rw [hComponent] at hParts
          apply Behaves.map hHistory
          apply (hParts component (by simp) cache hCache).promise
          intro ty after _ hPart
          exact ⟨rfl, rfl, by simpa using hPart⟩
  | intersection =>
      simp only [hForm] at hParts ⊢
      apply Behaves.map hHistory
      have hKept : ∀ {first second : Cache}, R first second →
          ∀ {part : BindingId} {_ : TypeId},
            Promise part → Promise part :=
        fun _ _ _ hPart => hPart
      apply (Behaves.mapM hHistory hBefore hKept binding.bounds
        hParts hCache).promise
      intro types after _ hAll
      exact ⟨rfl, trivial, forall_of_forall₂ hAll⟩
  | wildcard =>
      simp only [hForm] at hParts ⊢
      cases hBounds : binding.bounds with
      | nil =>
          apply Behaves.map hHistory
          exact .pure hHistory ⟨rfl, trivial, by simp⟩
      | cons bound bounds =>
          simp only [hBounds, List.head?_cons,
            Option.toList_some, List.mem_singleton,
            forall_eq] at hParts ⊢
          apply Behaves.map hHistory
          apply Behaves.map hHistory
          apply (hParts cache hCache).promise
          exact fun _ _ _ hPart => ⟨rfl, trivial, hPart⟩
  | primitive =>
      simp only [hForm] at hAllowed ⊢
      cases hKind :
          PrimitiveKind.ofBinaryName? binding.binaryName with
      | none =>
          rw [hKind] at hAllowed
          exact .throw hHistory (hAllowed (by simp) _)
      | some kind =>
          exact .pure hHistory ⟨rfl, rfl, by simp⟩
  | void =>
      simp only []
      exact .pure hHistory ⟨rfl, trivial, by simp⟩
  | _ =>
      simp only []
      apply (hName _ fun _ => rfl).promise
      exact fun _ _ _ hKind => ⟨hKind, trivial, by simp⟩

end Kinds

------------------------------------------------------------
-- What Prescribes A Type Gets One
------------------------------------------------------------

/- Types were made for no bindings but some. -/
private def Leaves
    (ids : BindingId → Prop)
    (before after : Cache) : Prop :=
  ∀ id, ¬ ids id →
    before.typeOf? id = none → after.typeOf? id = none

private theorem leaves_isHistory (ids : BindingId → Prop) :
    IsHistory (Leaves ids) where
  refl _ _ _ hNone := hNone
  trans hFirst hSecond id hOther hNone :=
    hSecond id hOther (hFirst id hOther hNone)

private theorem Leaves.mono
    {ids ids' : BindingId → Prop}
    {before after : Cache}
    (hLeaves : Leaves ids before after)
    (hIds : ∀ id, ids id → ids' id) :
    Leaves ids' before after :=
  fun id hOther => hLeaves id fun hId => hOther (hIds id hId)

/- A type of a binding is made for that binding only. -/
private theorem leaves_addType
    {ids : BindingId → Prop}
    {id : BindingId}
    (hId : ids id)
    (kind : TypeKind)
    (cache : Cache) :
    Follows (Leaves ids) (addType kind (.host id)) cache := by
  intro other hOther hNone
  rw [typeOf?_eq, findType?_eq_none_iff] at hNone ⊢
  intro handle data hType
  change (cache.types.push _).get? handle = _ at hType
  rw [Generation.get?_push] at hType
  split at hType
  · cases hType
    have hDistinct : id ≠ other := by
      rintro rfl
      exact hOther hId
    simp [hDistinct]
  · exact hNone handle data hType

/- The step of the search: the parts get types first. -/
private theorem behaves_wrapHostType_step
    {depth : Nat}
    {id : BindingId}
    (hParts : ∀ part, table.Part id part →
      table.Wrappable part → ∀ cache,
        Behaves
          (Leaves (Relation.ReflTransGen table.Part part))
          (fun _ => False)
          (wrapHostTypeWithin table depth part) cache
          fun ty after => after.typeOf? part = some ty)
    (hWrappable : table.Wrappable id)
    (cache : Cache) :
    Behaves (Leaves (Relation.ReflTransGen table.Part id))
      (fun _ => False) (wrapHostTypeWithin table (depth + 1) id)
      cache fun ty after => after.typeOf? id = some ty := by
  have hHistory :=
    leaves_isHistory (Relation.ReflTransGen table.Part id)
  have hNotSelf := hWrappable.not_cycle
  have hParts' : ∀ {binding : TypeBinding},
      table.get? id = some (.type binding) →
        (∀ part ∈ binding.parts, table.Wrappable part) →
          ∀ part ∈ binding.parts, ∀ cache, True →
            Behaves (Leaves (Relation.TransGen table.Part id))
              (fun _ => False)
              (wrapHostTypeWithin table depth part) cache
              fun _ _ => True := by
    intro binding hBound hWrappables part hMem cache _
    have hPart : table.Part id part := ⟨binding, hBound, hMem⟩
    have hRun := hParts part hPart (hWrappables part hMem) cache
    apply (hRun.mono ?_).promise
    · exact fun _ _ _ _ => trivial
    · exact fun _ _ hLeaves => hLeaves.mono fun _ hReach =>
        Relation.TransGen.head' hPart hReach
  cases hWrappable with
  | @intro _ binding hBound hFormed hWrappables =>
      unfold wrapHostTypeWithin
      apply Behaves.get hHistory
      cases hFound : cache.typeOf? id with
      | some ty => exact .pure hHistory hFound
      | none =>
          have hBinding : table.typeBinding id = .ok binding := by
            unfold BindingTable.typeBinding
            rw [hBound]
          rw [hBinding]
          have hKind : Behaves _ _
              (kindOfType table (wrapHostTypeWithin table depth)
                id binding) cache _ :=
            behaves_kindOfType (fun _ => True) (fun _ => True)
              (leaves_isHistory
                (Relation.TransGen table.Part id))
              (fun _ _ _ _ hNone => hNone)
              (fun _ _ => trivial)
              (fun hNot _ => absurd hFormed hNot)
              (hParts' hBound hWrappables) id trivial
          have hWider := hKind.mono fun _ _ hLeaves =>
            hLeaves.mono fun _ hReach => hReach.to_reflTransGen
          simp only [consult, pure_bind]
          apply hWider.bind hHistory
          intro kind middle hRun _ hMade
          have hNone := hKind.follows.run_ok hRun id hNotSelf
            hFound
          refine ⟨leaves_addType .refl kind middle, ?_, ?_⟩
          · intro ty after hAdd
            rw [typeOf?_eq] at hNone ⊢
            exact findType?_addType hNone (by simp [hMade.1]) hAdd
          · intro error after hAdd
            cases hAdd

/-
  What prescribes a type gets one, to any depth above the
  number of bindings: the search meets each of them at most
  once.
-/
private theorem behaves_wrapHostType
    {id : BindingId}
    (hWrappable : table.Wrappable id)
    (cache : Cache) :
    Behaves (Leaves (Relation.ReflTransGen table.Part id))
      (fun _ => False) (wrapHostType table id) cache
      fun ty after => after.typeOf? id = some ty := by
  have hAll : table.Wrappable id → ∀ cache,
      Behaves (Leaves (Relation.ReflTransGen table.Part id))
        (fun _ => False) (wrapHostType table id) cache
        fun ty after => after.typeOf? id = some ty := by
    unfold wrapHostType
    apply induction_within_depth
      (R := fun whole part => table.Part whole part ∧
        table.Wrappable whole)
      (P := fun depth id => table.Wrappable id → ∀ cache,
        Behaves (Leaves (Relation.ReflTransGen table.Part id))
          (fun _ => False) (wrapHostTypeWithin table depth id)
          cache fun ty after => after.typeOf? id = some ty)
      ?_ table.ids ?_ ?_ _ table.card_ids_lt id
    · intro id hCycle
      rcases Relation.TransGen.head'_iff.mp hCycle with
        ⟨_, ⟨_, hWhole⟩, _⟩
      apply hWhole.not_cycle
      exact Relation.TransGen.mono (fun _ _ hStep => hStep.1) _ _
        hCycle
    · rintro id part ⟨⟨binding, hGet, _⟩, _⟩
      exact BindingTable.mem_ids_of_get? hGet
    · intro depth id ih hWhole cache
      apply behaves_wrapHostType_step ?_ hWhole cache
      exact fun part hPart hWrappable =>
        ih part ⟨hPart, hWhole⟩ hWrappable
  exact hAll hWrappable cache

/- What prescribes a type gets one, and it is found then. -/
theorem exists_wrapHostType
    {id : BindingId}
    (hWrappable : table.Wrappable id)
    (cache : Cache) :
    ∃ ty after,
      wrapHostType table id cache = .ok ty after ∧
        after.typeOf? id = some ty := by
  have hRun := behaves_wrapHostType hWrappable cache
  cases hWrap : wrapHostType table id cache with
  | ok ty after =>
      exact ⟨ty, after, rfl, hRun.answer ty after hWrap⟩
  | error error after =>
      exact (hRun.failure error after hWrap).elim

------------------------------------------------------------
-- What Prescribes No Type Gets None
------------------------------------------------------------

/- Every live type of a type binding is one it prescribes. -/
def WrapsOnly (cache : Cache) (table : BindingTable) : Prop :=
  ∀ handle data id,
    cache.types.get? handle = some data →
      data.origin = .host id →
        data.kind.isExecutable = false → table.Wrappable id

/- Types were made for no bindings that prescribe none. -/
def KeepsWraps
    (table : BindingTable)
    (before after : Cache) : Prop :=
  before.WrapsOnly table → after.WrapsOnly table

theorem KeepsWraps.isHistory (table : BindingTable) :
    IsHistory (KeepsWraps table) where
  refl _ hBefore := hBefore
  trans hFirst hSecond hBefore := hSecond (hFirst hBefore)

/- A cache without types wraps nothing. -/
theorem wrapsOnly_of_empty
    {cache : Cache}
    (hItems : cache.types.items = #[])
    (table : BindingTable) :
    cache.WrapsOnly table := by
  intro handle data id hType
  exact (Generation.get?_ne_of_empty hItems hType).elim

theorem WrapsOnly.overTable
    {cache : Cache}
    {table' : BindingTable}
    (hTable : ∀ id host,
      table.get? id = some host → table'.get? id = some host)
    (hCache : cache.WrapsOnly table) :
    cache.WrapsOnly table' :=
  fun handle data id hType hOrigin hKind =>
    (hCache handle data id hType hOrigin hKind).overTable hTable

/- A type may be made if it is none of another binding. -/
theorem keepsWraps_addType
    {kind : TypeKind}
    {origin : TypeOrigin}
    (hNew : ∀ id, origin = .host id →
      kind.isExecutable = false → table.Wrappable id)
    (cache : Cache) :
    Follows (KeepsWraps table) (addType kind origin) cache := by
  intro hCache handle data id hType hOrigin hKind
  change (cache.types.push _).get? handle = _ at hType
  rw [Generation.get?_push] at hType
  split at hType
  · cases hType
    exact hNew id hOrigin hKind
  · exact hCache handle data id hType hOrigin hKind

/- A type that is found is that of a binding with a type. -/
private theorem WrapsOnly.wrappable
    {cache : Cache}
    (hCache : cache.WrapsOnly table)
    {id : BindingId}
    {ty : TypeId}
    (hType : cache.typeOf? id = some ty) :
    table.Wrappable id := by
  rcases get?_of_typeOf? hType with
    ⟨data, hData, hOrigin, hKind⟩
  exact hCache _ data id hData hOrigin hKind

/- Whatever is wrapped, to any depth, prescribes a type. -/
private theorem behaves_wrapHostTypeWithin
    (depth : Nat)
    (id : BindingId)
    {cache : Cache}
    (hCache : cache.WrapsOnly table) :
    Behaves (KeepsWraps table) (fun _ => True)
      (wrapHostTypeWithin table depth id) cache
      fun _ _ => table.Wrappable id := by
  have hHistory := KeepsWraps.isHistory table
  induction depth generalizing id cache with
  | zero => exact .throw hHistory trivial
  | succ depth ih =>
      unfold wrapHostTypeWithin
      apply Behaves.get hHistory
      cases hFound : cache.typeOf? id with
      | some ty =>
          exact .pure hHistory (hCache.wrappable hFound)
      | none =>
          simp only []
          apply (Behaves.consult hHistory
            fun _ _ => trivial).bind hHistory
          rintro binding _ _ _ ⟨hSame, hBinding⟩
          rw [hSame]
          have hKind : Behaves _ _
              (kindOfType table (wrapHostTypeWithin table depth)
                id binding) cache _ :=
            behaves_kindOfType (·.WrapsOnly table)
              table.Wrappable hHistory (fun _ _ hText => hText)
              (fun hStep hFirst => hStep hFirst)
              (fun _ _ => trivial)
              (fun part _ _ hState => ih part hState) id hCache
          apply hKind.bind hHistory
          rintro kind middle _ _ ⟨_, hFormed, hParts⟩
          have hWrappable : table.Wrappable id :=
            .intro (typeBinding_eq_ok hBinding) hFormed hParts
          refine ⟨?_, fun _ _ _ => hWrappable,
            fun _ _ _ => trivial⟩
          apply keepsWraps_addType
          rintro _ ⟨⟩ _
          exact hWrappable

theorem keepsWraps_wrapHostType
    (table : BindingTable)
    (id : BindingId)
    (cache : Cache) :
    Follows (KeepsWraps table) (wrapHostType table id)
      cache := by
  intro hCache
  exact (behaves_wrapHostTypeWithin _ id hCache).follows hCache

/- What gets a type prescribes one. -/
theorem wrappable_of_wrapHostType
    {cache after : Cache}
    (hCache : cache.WrapsOnly table)
    {id : BindingId}
    {ty : TypeId}
    (hRun : wrapHostType table id cache = .ok ty after) :
    table.Wrappable id :=
  (behaves_wrapHostTypeWithin _ id hCache).answer ty after hRun

end Cache

end Lowering
