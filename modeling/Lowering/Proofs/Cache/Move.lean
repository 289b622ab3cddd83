import Lowering.Proofs.Cache.Live
import Lowering.Proofs.Cache.WrapType
import Lowering.Proofs.Cache.Prescription

/-
  This file states once what an operation over a given table
  can do to the cache, move by move, and derives from it what
  is true of the wrappers of every cache: those of the host
  are what the table prescribes, and all are spelled in names
  of the cache as long as the callers keep to such names, and
  those of generated elements have their elements.

  A move says more than a change does: of what the item is
  made that it adds.

  Key definitions include:
    * `Cache.Knows`
    * `Cache.Move`
    * `Cache.Moves`
    * `Cache.Coherent`
    * `Cache.Spelled`
    * `Cache.Owned`

  Main results:
    * `Cache.Moves.coherent`
    * `Cache.Moves.spelled`
    * `Cache.Moves.owned`
-/

namespace Lowering

namespace Cache

variable {table : BindingTable}
variable {own : Prop}

------------------------------------------------------------
-- Moves
------------------------------------------------------------

/- A name is one of this cache. -/
def Knows (cache : Cache) (name : Name) : Prop :=
  (cache.names.text? name).isSome

/-
  What an operation can do to the cache: intern a text; wrap a
  binding as the type that the table prescribes; make a shape,
  the type of a generated method, an element, or a class with
  its type; give a parameter to a method; modify an element.
  If the caller has its own names only, all is spelled in
  those.
-/
inductive Move (table : BindingTable) (own : Prop) :
    Cache → Cache → Prop
  | text (cache : Cache) (text : String) :
      Move table own cache
        { cache with names := (cache.names.intern text).2 }
  | wrapper
      (cache : Cache)
      (id : BindingId)
      (kind : TypeKind)
      (prescribed : cache.prescribedOf? table id = some kind) :
      Move table own cache
        (cache.pushType ⟨kind, .host id⟩)
  | shape
      (cache : Cache)
      (kind : TypeKind)
      (spelled : own → ∀ name ∈ kind.names, cache.Knows name) :
      Move table own cache
        (cache.pushType ⟨kind, .synthetic⟩)
  | executable
      (cache : Cache)
      (method : ElementId)
      (types : List TypeId)
      (returnType : TypeId)
      (arity : cache.HasArity method types.length)
      (missing : cache.executables.lookup method = none) :
      Move table own cache
        (cache.withExecutable method types returnType)
  | element
      (cache : Cache)
      (data : ElementData)
      (spelled : own → cache.Knows data.name) :
      Move table own cache
        (cache.pushElement data)
  | declared
      (cache : Cache)
      (data : ElementData)
      (generated : data.origin = .generated)
      (class_ : data.kind = .type)
      (spelled : own → cache.Knows data.name) :
      Move table own cache
        ((cache.pushType
          ⟨.declared data.name,
            .generated ⟨cache.elements.next⟩⟩).pushElement data)
  | parameter
      (cache : Cache)
      (method : ElementId)
      (name : Name)
      (ty : TypeId)
      (arity : ∃ arity, cache.HasArity method arity)
      (spelled : own → cache.Knows name) :
      Move table own cache (cache.withParameter method name ty)
  | modified
      (cache : Cache)
      (id : ElementId)
      (edit : ElementEdit)
      (kept : ∀ data : ElementData,
        cache.elements.get? id.raw = some data →
          data.Kept (edit.apply data))
      (kinds : ∀ data : ElementData,
        (edit.apply data).kind = data.kind) :
      Move table own cache (cache.editElement id edit)

/- Any number of moves, one after the other. -/
def Moves (table : BindingTable) (own : Prop) :
    Cache → Cache → Prop :=
  Relation.ReflTransGen (Move table own)

theorem Moves.isHistory
    (table : BindingTable)
    (own : Prop) :
    IsHistory (Moves table own) where
  refl := fun _ => Relation.ReflTransGen.refl
  trans := Relation.ReflTransGen.trans

theorem Move.moves
    {before after : Cache}
    (hMove : Move table own before after) :
    Moves table own before after :=
  Relation.ReflTransGen.single hMove

/- Only the primitive of its name is wrapped for a primitive. -/
private theorem prescribedOf?_primitive
    {cache : Cache}
    {primitive : PrimitiveKind}
    {kind : TypeKind}
    (hKind : cache.prescribedOf? table
      (BindingTable.primitive primitive) = some kind) :
    kind = .primitive primitive := by
  unfold prescribedOf? at hKind
  rw [table.get?_primitive] at hKind
  cases primitive <;> cases hKind <;> rfl

/- A move is a change of the cache. -/
theorem Move.change
    {before after : Cache}
    (hMove : Move table own before after) :
    Change False before after := by
  cases hMove with
  | text text => exact .text before text
  | wrapper id kind hKind =>
      apply Change.type _ _ False.elim
      · intro element hOrigin
        cases hOrigin
      · intro primitive hOrigin
        cases hOrigin
        exact prescribedOf?_primitive hKind
  | shape kind _ =>
      apply Change.type _ _ False.elim
      · intro element hOrigin
        cases hOrigin
      · intro primitive hOrigin
        cases hOrigin
  | executable method types returnType hArity hMissing =>
      exact .executable _ _ _ _ hArity hMissing
  | element data _ => exact .element _ _ False.elim
  | declared data hGenerated hClass _ =>
      exact .declared _ _ _ hGenerated hClass
  | parameter method name ty hArity _ =>
      exact .parameter _ _ _ _ hArity
  | modified id edit hKept hKinds =>
      exact .modified _ _ _ hKept hKinds

/- Nothing is lost by moves. -/
theorem Moves.grown
    {before after : Cache}
    (hMoves : Moves table own before after) :
    Grown before after := by
  induction hMoves with
  | refl => exact Grown.refl _
  | tail _ hMove ih => exact ih.trans hMove.change.grown

theorem Knows.mono
    {before after : Cache}
    {name : Name}
    (hGrown : Grown before after)
    (hKnows : before.Knows name) :
    after.Knows name := by
  rcases Option.isSome_iff_exists.mp hKnows with ⟨text, hText⟩
  unfold Knows
  rw [hGrown.names name text hText]
  rfl

/- A text that was interned has a known name. -/
theorem knows_of_find?
    {cache : Cache}
    {text : String}
    {name : Name}
    (hFind : cache.names.find? text = some name) :
    cache.Knows name := by
  unfold Knows
  rw [Interner.text?_of_find? hFind]
  rfl

------------------------------------------------------------
-- Coherent Caches
------------------------------------------------------------

/-
  Every live type of a host binding is what the table
  prescribes for that binding.
-/
def Coherent (cache : Cache) (table : BindingTable) : Prop :=
  ∀ handle data id,
    cache.types.get? handle = some data →
      data.origin = .host id →
        cache.prescribedOf? table id = some data.kind

theorem Coherent.new (table : BindingTable) :
    Coherent {} table := by
  intro handle data id hType
  have hBounds := Generation.bounds_of_get? hType
  exact absurd hBounds.1 (Nat.not_le.mpr hBounds.2)

theorem Coherent.reset
    (cache : Cache)
    (table : BindingTable) :
    cache.reset.Coherent table := by
  intro handle data id hType
  have hBounds := Generation.bounds_of_get? hType
  exact absurd hBounds.1 (Nat.not_le.mpr hBounds.2)

/- What a table prescribes, a grown one does too. -/
theorem Coherent.overTable
    {cache : Cache}
    {table' : BindingTable}
    (hTable : ∀ id host,
      table.get? id = some host → table'.get? id = some host)
    (hCoherent : cache.Coherent table) :
    cache.Coherent table' := by
  intro handle data id hType hOrigin
  exact prescribedOf?_mono hTable (Grown.refl cache)
    (hCoherent handle data id hType hOrigin)

private theorem coherent_push
    {before after : Cache}
    {added : TypeData}
    (hGrown : Grown before after)
    (hTypes : after.types = before.types.push added)
    (hAdded : ∀ id, added.origin = .host id →
      before.prescribedOf? table id = some added.kind)
    (hCoherent : before.Coherent table) :
    after.Coherent table := by
  intro handle data id hType hOrigin
  apply prescribedOf?_mono (fun _ _ hGet => hGet) hGrown
  rw [hTypes, Generation.get?_push] at hType
  split at hType
  · cases hType
    exact hAdded id hOrigin
  · exact hCoherent handle data id hType hOrigin

/- A move leaves a coherent cache. -/
theorem Move.coherent
    {before after : Cache}
    (hMove : Move table own before after)
    (hCoherent : before.Coherent table) :
    after.Coherent table := by
  have hGrown := hMove.change.grown
  have hSame : after.types = before.types →
      after.Coherent table := by
    intro hTypes handle data id hType hOrigin
    rw [hTypes] at hType
    exact prescribedOf?_mono (fun _ _ hGet => hGet) hGrown
      (hCoherent handle data id hType hOrigin)
  cases hMove with
  | text text => exact hSame rfl
  | wrapper id kind hKind =>
      apply coherent_push hGrown rfl ?_ hCoherent
      intro other hOrigin
      cases hOrigin
      exact hKind
  | shape kind _ =>
      apply coherent_push hGrown rfl ?_ hCoherent
      intro other hOrigin
      cases hOrigin
  | executable method types returnType _ _ =>
      apply coherent_push hGrown rfl ?_ hCoherent
      intro other hOrigin
      cases hOrigin
  | element data _ => exact hSame rfl
  | declared data _ _ _ =>
      apply coherent_push hGrown rfl ?_ hCoherent
      intro other hOrigin
      cases hOrigin
  | parameter method name ty _ _ => exact hSame rfl
  | modified id edit _ _ => exact hSame rfl

/- Moves leave a coherent cache. -/
theorem Moves.coherent
    {before after : Cache}
    (hMoves : Moves table own before after)
    (hCoherent : before.Coherent table) :
    after.Coherent table := by
  induction hMoves with
  | refl => exact hCoherent
  | tail _ hMove ih => exact hMove.coherent ih

------------------------------------------------------------
-- Spelled Caches
------------------------------------------------------------

/- Live wrappers are spelled in names of the cache. -/
structure Spelled (cache : Cache) : Prop where
  types : ∀ handle data,
    cache.types.get? handle = some data →
      ∀ name ∈ data.kind.names, cache.Knows name
  elements : ∀ handle data,
    cache.elements.get? handle = some data →
      cache.Knows data.name

/- A cache without live wrappers is spelled. -/
private theorem spelled_of_empty
    {cache : Cache}
    (hTypes : cache.types.items = #[])
    (hElements : cache.elements.items = #[]) :
    cache.Spelled := by
  constructor
  · intro handle data hType
    exact (Generation.get?_ne_of_empty hTypes hType).elim
  · intro handle data hElement
    exact (Generation.get?_ne_of_empty hElements hElement).elim

theorem Spelled.new : Spelled {} :=
  spelled_of_empty rfl rfl

theorem Spelled.reset (cache : Cache) : cache.reset.Spelled :=
  spelled_of_empty rfl rfl

/- A prescribed kind is spelled in names of the cache. -/
private theorem knows_of_prescribedOf?
    {cache : Cache}
    {id : BindingId}
    {kind : TypeKind}
    (hKind : cache.prescribedOf? table id = some kind) :
    ∀ name ∈ kind.names, cache.Knows name := by
  have hMap : ∀ {α : Type} {found : Option α}
      {build : α → TypeKind},
      (∀ item, (build item).names = []) →
        found.map build = some kind →
          ∀ name ∈ kind.names, cache.Knows name := by
    intro α found build hNone hBuilt name hName
    rcases Option.map_eq_some_iff.mp hBuilt with ⟨item, _, rfl⟩
    rw [hNone] at hName
    cases hName
  have hFind : ∀ {text : String} {build : Name → TypeKind},
      (∀ name, (build name).names = [name]) →
        (cache.names.find? text).map build = some kind →
          ∀ name ∈ kind.names, cache.Knows name := by
    intro text build hOne hBuilt name hName
    rcases Option.map_eq_some_iff.mp hBuilt with
      ⟨found, hFound, rfl⟩
    rw [hOne] at hName
    rw [List.mem_singleton.mp hName]
    exact knows_of_find? hFound
  unfold prescribedOf? at hKind
  split at hKind
  · next binding _ =>
    unfold prescribed? at hKind
    cases hForm : binding.form with
    | array =>
        simp only [hForm] at hKind
        exact hMap (fun _ => rfl) hKind
    | intersection =>
        simp only [hForm] at hKind
        exact hMap (fun _ => rfl) hKind
    | native =>
        simp only [hForm] at hKind
        exact hFind (fun _ => rfl) hKind
    | void =>
        simp only [hForm] at hKind
        cases hKind
        simp [TypeKind.names]
    | primitive =>
        simp only [hForm] at hKind
        exact hMap (fun _ => rfl) hKind
    | typeVariable =>
        simp only [hForm] at hKind
        exact hFind (fun _ => rfl) hKind
    | wildcard =>
        simp only [hForm] at hKind
        split at hKind
        · cases hKind
          simp [TypeKind.names]
        · exact hMap (fun _ => rfl) hKind
    | declared =>
        simp only [hForm] at hKind
        exact hFind (fun _ => rfl) hKind
  · simp only [signature?, Option.bind_eq_bind,
      Option.bind_eq_some_iff] at hKind
    rcases hKind with ⟨params, _, returnType, _, hPure⟩
    cases hPure
    simp [TypeKind.names]
  · cases hKind

private theorem types_push_spelled
    {before after : Cache}
    {added : TypeData}
    (hGrown : Grown before after)
    (hTypes : after.types = before.types.push added)
    (hAdded : ∀ name ∈ added.kind.names, before.Knows name)
    (hSpelled : before.Spelled)
    (handle : Nat)
    (data : TypeData)
    (hType : after.types.get? handle = some data) :
    ∀ name ∈ data.kind.names, after.Knows name := by
  intro name hName
  apply Knows.mono hGrown
  rw [hTypes, Generation.get?_push] at hType
  split at hType
  · cases hType
    exact hAdded name hName
  · exact hSpelled.types handle data hType name hName

private theorem elements_push_spelled
    {before after : Cache}
    {added : ElementData}
    (hGrown : Grown before after)
    (hAdded : before.Knows added.name)
    (hSpelled : before.Spelled)
    (handle : Nat)
    (data : ElementData)
    (hElement :
      (before.elements.push added).get? handle = some data) :
    after.Knows data.name := by
  apply Knows.mono hGrown
  rw [Generation.get?_push] at hElement
  split at hElement
  · cases hElement
    exact hAdded
  · exact hSpelled.elements handle data hElement

/- A move in names of the cache leaves a spelled cache. -/
theorem Move.spelled
    {before after : Cache}
    (hMove : Move table own before after)
    (hOwn : own)
    (hSpelled : before.Spelled) :
    after.Spelled := by
  have hGrown := hMove.change.grown
  have hTypes : after.types = before.types →
      ∀ handle data, after.types.get? handle = some data →
        ∀ name ∈ data.kind.names, after.Knows name := by
    intro hSame handle data hType name hName
    rw [hSame] at hType
    exact Knows.mono hGrown
      (hSpelled.types handle data hType name hName)
  have hElements : after.elements = before.elements →
      ∀ handle data, after.elements.get? handle = some data →
        after.Knows data.name := by
    intro hSame handle data hElement
    rw [hSame] at hElement
    exact Knows.mono hGrown
      (hSpelled.elements handle data hElement)
  cases hMove with
  | text text => exact ⟨hTypes rfl, hElements rfl⟩
  | wrapper id kind hKind =>
      exact ⟨types_push_spelled hGrown rfl
        (knows_of_prescribedOf? hKind) hSpelled, hElements rfl⟩
  | shape kind hNames =>
      exact ⟨types_push_spelled hGrown rfl (hNames hOwn)
        hSpelled, hElements rfl⟩
  | executable method types returnType _ _ =>
      refine ⟨types_push_spelled hGrown rfl ?_ hSpelled,
        hElements rfl⟩
      simp [TypeKind.names]
  | element data hName =>
      exact ⟨hTypes rfl, elements_push_spelled hGrown
        (hName hOwn) hSpelled⟩
  | declared data _ _ hName =>
      refine ⟨types_push_spelled hGrown rfl ?_ hSpelled, ?_⟩
      · intro name hMem
        rw [List.mem_singleton.mp hMem]
        exact hName hOwn
      · intro handle found hElement
        exact elements_push_spelled hGrown (hName hOwn) hSpelled
          handle found hElement
  | parameter method name ty _ hName =>
      refine ⟨hTypes rfl, ?_⟩
      intro handle data hElement
      rcases exists_kept_of_modify
        (fun old _ => kept_addParameter _ old) hElement with
        ⟨old, hOld, hSame⟩
      rw [hSame.name]
      exact elements_push_spelled hGrown (hName hOwn) hSpelled
        handle old hOld
  | modified id edit hKept _ =>
      refine ⟨hTypes rfl, ?_⟩
      intro handle data hElement
      rcases exists_kept_of_modify hKept hElement with
        ⟨old, hOld, hSame⟩
      rw [hSame.name]
      exact Knows.mono hGrown
        (hSpelled.elements handle old hOld)

/- Moves in names of the cache leave a spelled cache. -/
theorem Moves.spelled
    {before after : Cache}
    (hMoves : Moves table own before after)
    (hOwn : own)
    (hSpelled : before.Spelled) :
    after.Spelled := by
  induction hMoves with
  | refl => exact hSpelled
  | tail _ hMove ih => exact hMove.spelled hOwn ih

------------------------------------------------------------
-- Owned Types
------------------------------------------------------------

/- The types of generated elements have live elements. -/
def Owned (cache : Cache) : Prop :=
  ∀ handle data element,
    cache.types.get? handle = some data →
      data.origin = .generated element →
        ∃ owner, cache.elements.get? element.raw = some owner

/- A cache without live types is owned. -/
private theorem owned_of_empty
    {cache : Cache}
    (hTypes : cache.types.items = #[]) :
    cache.Owned := by
  intro handle data element hType
  exact (Generation.get?_ne_of_empty hTypes hType).elim

theorem Owned.new : Owned {} :=
  owned_of_empty rfl

theorem Owned.reset (cache : Cache) : cache.reset.Owned :=
  owned_of_empty rfl

/- A move leaves an owned cache. -/
theorem Move.owned
    {before after : Cache}
    (hMove : Move table own before after)
    (hOwned : before.Owned) :
    after.Owned := by
  have hGrown := hMove.change.grown
  have hKept : ∀ {id : Nat} {owner : ElementData},
      before.elements.get? id = some owner →
        ∃ owner, after.elements.get? id = some owner := by
    intro id owner hOwner
    rcases hGrown.element? hOwner with ⟨owner', hOwner', _⟩
    exact ⟨owner', hOwner'⟩
  have hSame : after.types = before.types → after.Owned := by
    intro hTypes handle data element hType hOrigin
    rw [hTypes] at hType
    rcases hOwned handle data element hType hOrigin with
      ⟨owner, hOwner⟩
    exact hKept hOwner
  have hPush : ∀ added : TypeData,
      after.types = before.types.push added →
        (∀ element, added.origin = .generated element →
          ∃ owner,
            after.elements.get? element.raw = some owner) →
          after.Owned := by
    intro added hTypes hAdded handle data element hType hOrigin
    rw [hTypes, Generation.get?_push] at hType
    split at hType
    · cases hType
      exact hAdded element hOrigin
    · rcases hOwned handle data element hType hOrigin with
        ⟨owner, hOwner⟩
      exact hKept hOwner
  cases hMove with
  | text text => exact hSame rfl
  | wrapper id kind _ => exact hPush _ rfl (by simp)
  | shape kind _ => exact hPush _ rfl (by simp)
  | executable method types returnType hArity _ =>
      apply hPush _ rfl
      intro element hOrigin
      cases hOrigin
      rcases hArity with ⟨owner, _, _, _, hOwner, _⟩
      exact ⟨owner, hOwner⟩
  | element data _ => exact hSame rfl
  | declared data _ _ _ =>
      apply hPush _ rfl
      intro element hOrigin
      cases hOrigin
      exact ⟨data, Generation.get?_push_next _ _⟩
  | parameter method name ty _ _ => exact hSame rfl
  | modified id edit _ _ => exact hSame rfl

/- Moves leave an owned cache. -/
theorem Moves.owned
    {before after : Cache}
    (hMoves : Moves table own before after)
    (hOwned : before.Owned) :
    after.Owned := by
  induction hMoves with
  | refl => exact hOwned
  | tail _ hMove ih => exact hMove.owned ih

end Cache

end Lowering
