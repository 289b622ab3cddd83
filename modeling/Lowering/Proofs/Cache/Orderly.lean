import Mathlib.Data.Finset.Image
import Lowering.Proofs.Behaves
import Lowering.Proofs.Depth
import Lowering.Proofs.Cache.Move

/-
  This file defines when an operation behaves in order: it
  changes the cache by moves only, an answer meets its
  promise, and with names of the cache it fails by refusing
  its input and not by a fault. It proves this of wrapping
  bindings as types.

  References between bindings are followed to a depth. Where
  they are not circular the depth suffices, for a path meets
  every binding of the table at most once.

  Key definitions include:
    * `Cache.Orderly`

  Main results:
    * `Cache.Orderly.bind`
    * `Cache.orderly_wrapHostType`
    * `Cache.orderly_wrapExecutable`
-/

namespace Lowering

------------------------------------------------------------
-- Depth
------------------------------------------------------------

namespace BindingTable

/- The handles of the bindings in a table. -/
def ids (table : BindingTable) : Finset BindingId :=
  (Finset.range table.size).image BindingId.mk

theorem card_ids_lt (table : BindingTable) :
    table.ids.card < table.size + 1 := by
  have hCard : table.ids.card ≤ (Finset.range table.size).card :=
    Finset.card_image_le
  rw [Finset.card_range] at hCard
  omega

theorem mem_ids_of_get?
    {table : BindingTable}
    {id : BindingId}
    {host : HostBinding}
    (hGet : table.get? id = some host) :
    id ∈ table.ids :=
  Finset.mem_image.mpr
    ⟨id.raw, Finset.mem_range.mpr (lt_size_of_get? hGet), rfl⟩

end BindingTable

namespace Cache

variable {table : BindingTable}
variable {own : Prop}

------------------------------------------------------------
-- Orderly Operations
------------------------------------------------------------

/-
  An operation moves the cache, keeps its promise where it
  answers, and refuses where it does not, at least if the
  caller has its own names only.
-/
structure Orderly
    {α : Type}
    (table : BindingTable)
    (own : Prop)
    (operation : CacheM α)
    (cache : Cache)
    (Promise : α → Cache → Prop) : Prop where
  moves : Follows (Moves table own) operation cache
  answer : ∀ answer after,
    operation cache = .ok answer after → Promise answer after
  refusal : own → ∀ error after,
    operation cache = .error error after →
      ∃ cause, error = .violation cause

namespace Orderly

variable {α β : Type}
variable {Promise : α → Cache → Prop}
variable {Promise' : β → Cache → Prop}
variable {cache : Cache}

/- An operation is orderly if it behaves accordingly. -/
theorem behaves
    {operation : CacheM α}
    (hRun : Orderly table own operation cache Promise) :
    Behaves (Moves table own)
      (fun error => own → ∃ cause, error = .violation cause)
      operation cache Promise where
  follows := hRun.moves
  answer := hRun.answer
  failure := fun error after hEq hOwn =>
    hRun.refusal hOwn error after hEq

theorem of_behaves
    {operation : CacheM α}
    (hRun : Behaves (Moves table own)
      (fun error => own → ∃ cause, error = .violation cause)
      operation cache Promise) :
    Orderly table own operation cache Promise where
  moves := hRun.follows
  answer := hRun.answer
  refusal := fun hOwn error after hEq =>
    hRun.failure error after hEq hOwn

theorem pure
    {answer : α}
    (hPromise : Promise answer cache) :
    Orderly table own (Pure.pure answer : CacheM α) cache
      Promise :=
  of_behaves (.pure (Moves.isHistory table own) hPromise)

theorem refuse (cause : ContractViolation) :
    Orderly table own (CacheM.refuse cause) cache Promise :=
  of_behaves (.throw (Moves.isHistory table own)
    fun _ => ⟨cause, rfl⟩)

/- An operation keeps any promise that it is seen to keep. -/
theorem promise
    {operation : CacheM α}
    {Promise₁ : α → Cache → Prop}
    (hRun : Orderly table own operation cache Promise₁)
    (hPromise : ∀ answer after,
      operation cache = .ok answer after →
        Promise₁ answer after → Promise answer after) :
    Orderly table own operation cache Promise :=
  of_behaves (hRun.behaves.promise hPromise)

/- A sequence is orderly if its parts are. -/
theorem bind
    {first : CacheM α}
    {next : α → CacheM β}
    (hFirst : Orderly table own first cache Promise)
    (hNext : ∀ answer after,
      first cache = .ok answer after →
        Moves table own cache after →
          Promise answer after →
            Orderly table own (next answer) after Promise') :
    Orderly table own (first >>= next) cache Promise' := by
  apply of_behaves
  apply hFirst.behaves.bind (Moves.isHistory table own)
  intro answer after hRun hMoves hPromise
  exact (hNext answer after hRun hMoves hPromise).behaves

theorem map
    {operation : CacheM α}
    {change : α → β}
    (hRun : Orderly table own operation cache fun answer after =>
      Promise' (change answer) after) :
    Orderly table own (change <$> operation) cache Promise' :=
  of_behaves (.map (Moves.isHistory table own) hRun.behaves)

/- What follows a read of the state may use what was read. -/
theorem get
    {next : Cache → CacheM α}
    (hNext : Orderly table own (next cache) cache Promise) :
    Orderly table own (MonadState.get >>= next) cache
      Promise :=
  of_behaves (.get (Moves.isHistory table own) hNext.behaves)

/- A question moves nothing. -/
theorem inspect
    {question : Cache → Except CacheError α}
    (hRefusal : own → ∀ error,
      question cache = .error error →
        ∃ cause, error = .violation cause) :
    Orderly table own (CacheM.inspect question) cache
      fun answer after =>
        after = cache ∧ question cache = .ok answer :=
  of_behaves (.inspect (Moves.isHistory table own)
    fun error hError hOwn => hRefusal hOwn error hError)

theorem consult (question : Except ContractViolation α) :
    Orderly table own (Cache.consult question) cache
      fun answer after => after = cache ∧ question = .ok answer :=
  of_behaves (.consult (Moves.isHistory table own)
    fun cause _ _ => ⟨cause, rfl⟩)

private theorem mapM_of_forall₂
    {find : α → Option β}
    {items : List α}
    {answers : List β}
    (hFound : List.Forall₂
      (fun item answer => find item = some answer)
      items answers) :
    items.mapM find = some answers := by
  induction hFound with
  | nil => rfl
  | cons hFirst _ ih =>
      rw [List.mapM_cons, hFirst, ih]
      rfl

/- Promises to each item that stay kept are kept to all. -/
theorem mapM
    {operation : α → CacheM β}
    {find : Cache → α → Option β}
    (hMono : ∀ {before after : Cache}, Grown before after →
      ∀ {item answer}, find before item = some answer →
        find after item = some answer)
    (items : List α)
    (hEach : ∀ item ∈ items, ∀ cache,
      Orderly table own (operation item) cache
        fun answer after => find after item = some answer)
    (cache : Cache) :
    Orderly table own (items.mapM operation) cache
      fun answers after =>
        items.mapM (find after) = some answers := by
  have hKept : ∀ {first second : Cache},
      Moves table own first second →
        ∀ {item : α} {answer : β},
          find first item = some answer →
            find second item = some answer :=
    fun hMoves _ _ hFound => hMono hMoves.grown hFound
  refine promise (of_behaves (.mapM (Moves.isHistory table own)
    (fun _ _ => trivial) hKept items
    (fun item hMem state _ => (hEach item hMem state).behaves)
    trivial)) ?_
  exact fun _ _ _ hFound => mapM_of_forall₂ hFound

/- An operation may be asked to promise nothing. -/
theorem loose
    {operation : CacheM α}
    (hRun : Orderly table own operation cache Promise) :
    Orderly table own operation cache fun _ _ => True :=
  hRun.promise fun _ _ _ _ => trivial

theorem forEach
    {operation : α → CacheM β}
    (items : List α)
    (hEach : ∀ item ∈ items, ∀ cache,
      Orderly table own (operation item) cache fun _ _ => True)
    (cache : Cache) :
    Orderly table own (items.mapM operation) cache
      fun _ _ => True := by
  refine promise (of_behaves
    (.mapM_forall (Moves.isHistory table own)
      (fun _ _ => trivial) (fun _ _ _ => trivial) items
      (fun item hMem state _ => (hEach item hMem state).behaves)
      trivial)) ?_
  exact fun _ _ _ _ => trivial

theorem forOption
    {operation : α → CacheM β}
    (item : Option α)
    (hEach : ∀ found, item = some found → ∀ cache,
      Orderly table own (operation found) cache
        fun _ _ => True)
    (cache : Cache) :
    Orderly table own (item.mapM operation) cache
      fun _ _ => True := by
  have hAll := Behaves.optionMapM (Moves.isHistory table own)
    item fun found hItem => (hEach found hItem cache).behaves
  exact (of_behaves hAll).loose

end Orderly

------------------------------------------------------------
-- Type Bindings
------------------------------------------------------------

theorem orderly_intern
    (text : String)
    (cache : Cache) :
    Orderly table own (intern text) cache fun name after =>
      after.names.find? text = some name where
  moves := (Move.text cache text).moves
  answer := by
    intro name after hRun
    cases hRun
    exact Interner.find?_intern cache.names text
  refusal := by
    intro _ error after hRun
    cases hRun

/- The type that is added is the next one. -/
theorem orderly_addType
    {cache : Cache}
    {kind : TypeKind}
    {origin : TypeOrigin}
    (hMove : Move table own cache
      (cache.pushType ⟨kind, origin⟩)) :
    Orderly table own (addType kind origin) cache
      fun _ _ => True where
  moves := hMove.moves
  answer := fun _ _ _ => trivial
  refusal := by
    intro _ error after hRun
    cases hRun

/- The kind of a binding is the one that is prescribed. -/
private theorem orderly_kindOfType
    {wrap : BindingId → CacheM TypeId}
    {binding : TypeBinding}
    (id : BindingId)
    (hWrap : ∀ part,
      binding.component = some part ∨ part ∈ binding.bounds →
        ∀ cache, Orderly table own (wrap part) cache
          fun ty after => after.typeOf? part = some ty)
    (cache : Cache) :
    Orderly table own (kindOfType table wrap id binding) cache
      fun kind after => after.prescribed? binding = some kind := by
  have hName : ∀ build : Name → TypeKind,
      Orderly table own (build <$> intern binding.name) cache
        fun kind after =>
          (after.names.find? binding.name).map build =
            some kind := by
    intro build
    apply Orderly.map
    apply (orderly_intern binding.name cache).promise
    intro name after _ hFound
    rw [hFound]
    rfl
  rw [kindOfType_eq]
  unfold prescribed?
  cases hForm : binding.form with
  | array =>
      simp only []
      cases hComponent : binding.component with
      | none => exact .refuse _
      | some component =>
          apply Orderly.map
          apply (hWrap component (Or.inl hComponent) cache).promise
          intro ty after _ hType
          simp [hType]
  | intersection =>
      apply Orderly.map
      apply (Orderly.mapM Grown.typeOf? binding.bounds
        (fun part hMem => hWrap part (Or.inr hMem)) cache).promise
      intro types after _ hTypes
      simp only [hTypes, Option.map_some]
  | native => exact hName .native
  | void => exact .pure rfl
  | primitive =>
      simp only []
      cases hKind :
          PrimitiveKind.ofBinaryName? binding.binaryName with
      | none => exact .refuse _
      | some kind => exact .pure rfl
  | typeVariable => exact hName .typeVariable
  | wildcard =>
      simp only []
      cases hBounds : binding.bounds with
      | nil => exact .pure rfl
      | cons bound bounds =>
          apply Orderly.map
          apply Orderly.map
          have hBound : bound ∈ binding.bounds := by
            rw [hBounds]
            exact List.mem_cons_self
          apply (hWrap bound (Or.inr hBound) cache).promise
          intro ty after _ hType
          simp [hType]
  | declared => exact hName .declared

/-
  Wrapping a type binding is orderly if that of the bindings
  of which it consists is, one level less deep.
-/
private theorem orderly_wrapHostType_step
    (hAcyclic : table.Acyclic)
    {depth : Nat}
    {id : BindingId}
    (hParts : ∀ part, table.Consists id part →
      ∀ cache, Orderly table own
        (wrapHostTypeWithin table depth part) cache
        fun ty after => after.typeOf? part = some ty)
    (cache : Cache) :
    Orderly table own (wrapHostTypeWithin table (depth + 1) id)
      cache fun ty after => after.typeOf? id = some ty := by
  suffices Orderly table own
      (wrapHostTypeWithin table (depth + 1) id) cache
      fun _ _ => True from
    this.promise fun ty after hRun _ =>
      typeOf?_of_wrapHostTypeWithin hAcyclic hRun
  unfold wrapHostTypeWithin
  apply Orderly.get
  cases cache.typeOf? id with
  | some ty => exact .pure trivial
  | none =>
      simp only []
      apply (Orderly.consult (table.typeBinding id)).bind
      rintro binding _ _ _ ⟨rfl, hBinding⟩
      have hGet := typeBinding_eq_ok hBinding
      apply (orderly_kindOfType id (fun part hPart =>
        hParts part ⟨binding, hGet, hPart⟩) _).bind
      intro kind middle _ _ hKind
      apply orderly_addType
      apply Move.wrapper
      unfold prescribedOf?
      rw [hGet]
      exact hKind

/-
  To any depth, whoever asks: where the depth does not suffice
  there is no promise to keep.
-/
theorem orderly_wrapHostTypeWithin
    (hAcyclic : table.Acyclic)
    (depth : Nat)
    (id : BindingId)
    (cache : Cache) :
    Orderly table False (wrapHostTypeWithin table depth id) cache
      fun ty after => after.typeOf? id = some ty := by
  induction depth generalizing id cache with
  | zero =>
      refine ⟨Follows.throw (Moves.isHistory table False) _ _,
        ?_, False.elim⟩
      intro ty after hRun
      cases hRun
  | succ depth ih =>
      exact orderly_wrapHostType_step hAcyclic
        (fun part _ => ih part) cache

/- The depth of one more than there are bindings suffices. -/
theorem orderly_wrapHostType
    (hAcyclic : table.Acyclic)
    (id : BindingId) :
    ∀ cache, Orderly table own (wrapHostType table id) cache
      fun ty after => after.typeOf? id = some ty := by
  apply induction_within_depth
    (P := fun depth id => ∀ cache, Orderly table own
      (wrapHostTypeWithin table depth id) cache
      fun ty after => after.typeOf? id = some ty)
    hAcyclic.consists table.ids ?_ ?_ _ table.card_ids_lt id
  · rintro id part ⟨binding, hGet, _⟩
    exact BindingTable.mem_ids_of_get? hGet
  · intro depth id hParts cache
    exact orderly_wrapHostType_step hAcyclic hParts cache

------------------------------------------------------------
-- Method Bindings
------------------------------------------------------------

theorem orderly_wrapReturnType
    (hAcyclic : table.Acyclic)
    (binding : MethodBinding)
    (cache : Cache) :
    Orderly table own (wrapReturnType table binding) cache
      fun ty after => after.returned? binding = some ty := by
  unfold wrapReturnType returned?
  cases binding.returnType with
  | none => exact .pure rfl
  | some id => exact orderly_wrapHostType hAcyclic id cache

theorem orderly_wrapExecutable
    (hAcyclic : table.Acyclic)
    (id : BindingId)
    (cache : Cache) :
    Orderly table own (wrapExecutable table id) cache
      fun _ _ => True := by
  unfold wrapExecutable
  apply Orderly.get
  cases cache.executableOf? id with
  | some ty => exact .pure trivial
  | none =>
      simp only []
      apply (Orderly.consult (table.methodBinding id)).bind
      rintro binding _ _ _ ⟨rfl, hBinding⟩
      have hGet := methodBinding_eq_ok hBinding
      apply (Orderly.mapM Grown.typeOf? binding.parameterTypes
        (fun param _ => orderly_wrapHostType hAcyclic param)
        _).bind
      intro params middle _ _ hParams
      apply (orderly_wrapReturnType hAcyclic binding middle).bind
      intro returnType after _ hMoves hReturn
      apply orderly_addType
      apply Move.wrapper
      unfold prescribedOf?
      simp only [hGet, signature?,
        mapM_typeOf?_mono hMoves.grown hParams, hReturn]
      rfl

------------------------------------------------------------
-- Synthetic Types
------------------------------------------------------------

theorem orderly_synthesize
    {kind : TypeKind}
    {cache : Cache}
    (hSpelled : own → ∀ name ∈ kind.names, cache.Knows name) :
    Orderly table own (synthesize kind) cache
      fun _ _ => True := by
  unfold synthesize
  apply Orderly.get
  split
  · exact .pure trivial
  · exact orderly_addType (.shape cache kind hSpelled)

theorem orderly_nativeType
    (text : String)
    (cache : Cache) :
    Orderly table own (nativeType text) cache
      fun _ _ => True := by
  unfold nativeType
  apply (orderly_intern text cache).bind
  intro name after _ _ hFound
  apply orderly_synthesize
  intro _ other hMem
  rw [List.mem_singleton.mp hMem]
  exact knows_of_find? hFound

theorem orderly_pointerType
    (pointee : TypeId)
    (cache : Cache) :
    Orderly table own (pointerType pointee) cache
      fun _ _ => True :=
  orderly_synthesize (by simp [TypeKind.names])

theorem orderly_syntheticArrayType
    (component : TypeId)
    (cache : Cache) :
    Orderly table own (syntheticArrayType component) cache
      fun _ _ => True :=
  orderly_synthesize (by simp [TypeKind.names])

end Cache

end Lowering
