import Lowering.Cache.Synthesis
import Lowering.Proofs.Cache.Canonical
import Lowering.Proofs.Cache.WrapElement

/-
  This file defines the operations of the cache and its
  histories, and proves what is true of a cache after any
  history: it is sound, and if no binding of the table leads
  back to itself, it is canonical.

  A history is any sequence of operations, failed ones among
  them, during which the table may grow.

  Key definitions include:
    * `Cache.Operation`
    * `Cache.Operation.perform`
    * `Cache.Later`
    * `Cache.Reached`
    * `Cache.performAll`

  Main results:
    * `Cache.follows_perform`
    * `Cache.Later.changes`
    * `Cache.Reached.keeps`
    * `Cache.Reached.sound`
    * `Cache.Reached.canonical`
-/

namespace Lowering

namespace Cache

variable {strict : Prop}

------------------------------------------------------------
-- Generated Elements
------------------------------------------------------------

/- A generated element that is no package can be made. -/
private theorem follows_addGenerated
    {data : ElementData}
    (hOrigin : data.origin = .generated)
    (hKind : data.kind ≠ .package)
    (cache : Cache) :
    Follows (Changes strict) (addElement data) cache := by
  apply Change.changes
  apply Change.element
  intro _ id other _ _
  exact ⟨hOrigin, fun hPackage => absurd hPackage hKind⟩

/- A class and its type are made together. -/
theorem follows_newTypeElement
    (text : String)
    (enclosing : Option ElementId)
    (modifiers : Modifiers)
    (cache : Cache) :
    Follows (Changes strict)
      (newTypeElement text enclosing modifiers) cache := by
  have hHistory := Changes.isHistory strict
  unfold newTypeElement
  apply (follows_intern text cache).bind hHistory
  intro name cache₁ _
  apply Follows.get hHistory
  apply Change.changes
  exact Change.declared cache₁ name _ rfl rfl

theorem follows_newField
    (text : String)
    (ty : TypeId)
    (declaring : ElementId)
    (modifiers : Modifiers)
    (cache : Cache) :
    Follows (Changes strict)
      (newField text ty declaring modifiers) cache := by
  have hHistory := Changes.isHistory strict
  unfold newField
  apply (follows_intern text cache).bind hHistory
  intro name cache₁ _
  exact follows_addGenerated rfl (by simp) cache₁

theorem follows_newMethod
    (selector : String)
    (declaring : ElementId)
    (returnType : TypeId)
    (modifiers : Modifiers)
    (cache : Cache) :
    Follows (Changes strict)
      (newMethod selector declaring returnType modifiers)
      cache := by
  have hHistory := Changes.isHistory strict
  unfold newMethod
  apply (follows_intern _ cache).bind hHistory
  intro name cache₁ _
  apply (follows_intern selector cache₁).bind hHistory
  intro full cache₂ _
  exact follows_addGenerated rfl (by simp) cache₂

/- What is found as a method has parameters. -/
theorem hasArity_of_elementOf
    {cache : Cache}
    {method : ElementId}
    {data : ElementData}
    (hMethod : cache.elementOf .executable method = .ok data) :
    ∃ arity, cache.HasArity method arity := by
  rcases elementOf_eq_ok hMethod with ⟨hLive, hAccepts⟩
  cases hKind : data.kind with
  | executable selector params returnType =>
      exact ⟨_, data, selector, params, returnType, hLive, hKind,
        rfl⟩
  | _ =>
      rw [hKind] at hAccepts
      cases hAccepts

/- A method gets a parameter and loses its type at once. -/
theorem follows_newParameter
    (method : ElementId)
    (text : String)
    (ty : TypeId)
    (cache : Cache) :
    Follows (Changes strict) (newParameter method text ty)
      cache := by
  have hHistory := Changes.isHistory strict
  unfold newParameter
  apply (Follows.inspect hHistory _ cache).bind hHistory
  intro data cache₁ hInspect
  rcases run_inspectCache_eq_ok hInspect with ⟨hElement, rfl⟩
  apply (follows_intern text cache₁).bind hHistory
  intro name cache₂ hName
  have hBefore := hasArity_of_elementOf hElement
  have hArity : ∃ arity, cache₂.HasArity method arity := by
    cases hName
    exact hBefore
  apply Change.changes
  exact Change.parameter cache₂ method name ty hArity

------------------------------------------------------------
-- Executable Types
------------------------------------------------------------

private theorem run_parameterType_eq_ok
    {param : ElementId}
    {cache cache' : Cache}
    {ty : TypeId}
    (hRun : parameterType param cache = .ok ty cache') :
    cache' = cache := by
  unfold parameterType at hRun
  rcases run_bind_eq_ok hRun with ⟨_, _, hInspect, hPure⟩
  rcases run_inspectCache_eq_ok hInspect with ⟨_, rfl⟩
  cases hPure
  rfl

/- Reading the parameters keeps their number and the cache. -/
theorem run_parameterTypes_eq_ok
    {params : List ElementId}
    {cache cache' : Cache}
    {types : List TypeId}
    (hRun : params.mapM parameterType cache =
      .ok types cache') :
    types.length = params.length ∧ cache' = cache := by
  induction params generalizing types with
  | nil =>
      rw [List.mapM_nil] at hRun
      cases hRun
      exact ⟨rfl, rfl⟩
  | cons param params ih =>
      rw [List.mapM_cons] at hRun
      rcases run_bind_eq_ok hRun with ⟨ty, _, hFirst, hRest⟩
      rcases run_bind_eq_ok hRest with ⟨rest, _, hMap, hPure⟩
      rw [run_parameterType_eq_ok hFirst] at hMap
      cases hPure
      rcases ih hMap with ⟨hLength, hSame⟩
      exact ⟨congrArg (· + 1) hLength, hSame⟩

/-
  The executable type of a generated method is made if none is
  remembered, and then it is.
-/
theorem typesOnly_executableTypeOf
    (method : ElementId)
    (cache : Cache) :
    Follows (TypesOnly strict) (executableTypeOf method)
      cache := by
  have hHistory := TypesOnly.isHistory strict
  unfold executableTypeOf
  apply (Follows.inspect hHistory _ cache).bind hHistory
  intro data cache₁ hInspect
  rcases run_inspectCache_eq_ok hInspect with ⟨hElement, rfl⟩
  rcases elementOf_eq_ok hElement with ⟨hLive, _⟩
  split
  · exact Follows.pure hHistory _ _
  · next selector params returnType hKind _ =>
    apply Follows.get hHistory
    cases hFound : cache₁.executables.lookup method with
    | some ty => exact Follows.pure hHistory _ _
    | none =>
        simp only []
        have hRead : Follows (TypesOnly strict)
            (params.mapM parameterType) cache₁ := by
          apply Follows.mapM hHistory
          intro param _ state
          unfold parameterType
          apply (Follows.inspect hHistory _ state).bind hHistory
          intro _ state' _
          exact Follows.pure hHistory _ _
        apply hRead.bind hHistory
        intro types cache₂ hRun
        rcases run_parameterTypes_eq_ok hRun with ⟨hLength, rfl⟩
        refine ⟨Change.changes ?_, rfl⟩
        exact Change.executable _ method types returnType
          ⟨data, selector, params, returnType, hLive, hKind,
            hLength.symm⟩ hFound
  · apply Follows.get hHistory
    exact Follows.throw hHistory _ _

theorem follows_executableTypeOf
    (method : ElementId)
    (cache : Cache) :
    Follows (Changes strict) (executableTypeOf method) cache :=
  (typesOnly_executableTypeOf method cache).mono
    fun _ _ hOnly => hOnly.changes

------------------------------------------------------------
-- Operations
------------------------------------------------------------

/- What can be asked of a cache, apart from a reset. -/
inductive Operation
  | intern (text : Option String)
  | wrapType (binding : Binding)
  | wrapExecutable (id : BindingId)
  | wrapElement (binding : Binding)
  | wrapElementOf (family : ElementFamily) (binding : Binding)
  | wrapPackageDeclaration
      (id : BindingId)
      (annotations : List BindingId)
  | packageElement (name : Name)
  | nativeType (text : String)
  | pointerType (pointee : TypeId)
  | syntheticArrayType (component : TypeId)
  | primitiveType (kind : PrimitiveKind)
  | newTypeElement
      (text : String)
      (enclosing : Option ElementId)
      (modifiers : Modifiers)
  | newField
      (text : String)
      (ty : TypeId)
      (declaring : ElementId)
      (modifiers : Modifiers)
  | newMethod
      (selector : String)
      (declaring : ElementId)
      (returnType : TypeId)
      (modifiers : Modifiers)
  | newParameter
      (method : ElementId)
      (text : String)
      (ty : TypeId)
  | executableTypeOf (method : ElementId)

/- Perform an operation for its effect on the cache. -/
def Operation.perform
    (table : BindingTable) : Operation → CacheM Unit
  | intern text => discard (Cache.internOptional text)
  | wrapType binding => discard (Cache.wrapType table binding)
  | wrapExecutable id =>
    discard (Cache.wrapExecutable table id)
  | wrapElement binding =>
    discard (Cache.wrapElement table binding)
  | wrapElementOf family binding =>
    discard (Cache.wrapElementOf table family binding)
  | wrapPackageDeclaration id annotations =>
    discard (Cache.wrapPackageDeclaration table id annotations)
  | packageElement name => discard (Cache.packageElement name)
  | nativeType text => discard (Cache.nativeType text)
  | pointerType pointee => discard (Cache.pointerType pointee)
  | syntheticArrayType component =>
    discard (Cache.syntheticArrayType component)
  | primitiveType kind =>
    discard (Cache.primitiveType table kind)
  | newTypeElement text enclosing modifiers =>
    discard (Cache.newTypeElement text enclosing modifiers)
  | newField text ty declaring modifiers =>
    discard (Cache.newField text ty declaring modifiers)
  | newMethod selector declaring returnType modifiers =>
    discard
      (Cache.newMethod selector declaring returnType modifiers)
  | newParameter method text ty =>
    discard (Cache.newParameter method text ty)
  | executableTypeOf method =>
    discard (Cache.executableTypeOf method)

/- Every operation changes the cache in allowed ways only. -/
theorem follows_perform
    {table : BindingTable}
    (hAcyclic : strict → table.Acyclic)
    (operation : Operation)
    (cache : Cache) :
    Follows (Changes strict) (operation.perform table)
      cache := by
  have hHistory := Changes.isHistory strict
  have hDiscard : ∀ {α : Type} {run : CacheM α},
      Follows (Changes strict) run cache →
        Follows (Changes strict) (discard run) cache :=
    fun hRun => hRun.map hHistory _
  have hTypes : ∀ {α : Type} {run : CacheM α},
      Follows (TypesOnly strict) run cache →
        Follows (Changes strict) run cache :=
    fun hRun => hRun.mono fun _ _ hOnly => hOnly.changes
  cases operation with
  | intern text =>
      apply hDiscard
      cases text with
      | some text => exact follows_intern text cache
      | none => exact Follows.throw hHistory _ _
  | wrapType binding =>
      exact hDiscard (follows_wrapType hAcyclic binding cache)
  | wrapExecutable id =>
      exact hDiscard
        (hTypes (follows_wrapExecutable hAcyclic id cache))
  | wrapElement binding =>
      exact hDiscard (follows_wrapElement hAcyclic binding cache)
  | wrapElementOf family binding =>
      exact hDiscard
        (follows_wrapElementOf hAcyclic family binding cache)
  | wrapPackageDeclaration id annotations =>
      exact hDiscard (follows_wrapPackageDeclaration
        hAcyclic id annotations cache)
  | packageElement name =>
      exact hDiscard (follows_packageElement name cache)
  | nativeType text =>
      exact hDiscard (hTypes (follows_nativeType text cache))
  | pointerType pointee =>
      exact hDiscard (hTypes (follows_pointerType pointee cache))
  | syntheticArrayType component =>
      exact hDiscard
        (hTypes (follows_syntheticArrayType component cache))
  | primitiveType kind =>
      exact hDiscard
        (hTypes (follows_primitiveType hAcyclic kind cache))
  | newTypeElement text enclosing modifiers =>
      exact hDiscard
        (follows_newTypeElement text enclosing modifiers cache)
  | newField text ty declaring modifiers =>
      exact hDiscard
        (follows_newField text ty declaring modifiers cache)
  | newMethod selector declaring returnType modifiers =>
      exact hDiscard (follows_newMethod
        selector declaring returnType modifiers cache)
  | newParameter method text ty =>
      exact hDiscard (follows_newParameter method text ty cache)
  | executableTypeOf method =>
      exact hDiscard (follows_executableTypeOf method cache)

------------------------------------------------------------
-- Histories
------------------------------------------------------------

/-
  What can follow in the same generation: operations, which
  may fail, and bindings that are added to the table.
-/
inductive Later :
    BindingTable × Cache → BindingTable × Cache → Prop
  | same (table : BindingTable) (cache : Cache) :
      Later (table, cache) (table, cache)
  | perform
      {table table' : BindingTable}
      {cache cache' : Cache}
      (operation : Operation)
      (later : Later (table, cache) (table', cache')) :
      Later (table, cache)
        (table', finalState (operation.perform table' cache'))
  | add
      {table table' : BindingTable}
      {cache cache' : Cache}
      (binding : HostBinding)
      (later : Later (table, cache) (table', cache')) :
      Later (table, cache) ((table'.add binding).2, cache')

theorem Later.trans
    {first second third : BindingTable × Cache}
    (hFirst : Later first second)
    (hSecond : Later second third) :
    Later first third := by
  induction hSecond with
  | same => exact hFirst
  | perform operation _ ih => exact .perform operation (ih hFirst)
  | add binding _ ih => exact .add binding (ih hFirst)

/-
  The states of a new cache after any sequence of operations,
  failed ones and resets among them, over a growing table.
-/
inductive Reached : BindingTable × Cache → Prop
  | new (table : BindingTable) : Reached (table, {})
  | later
      {before after : BindingTable × Cache}
      (reached : Reached before)
      (later : Later before after) :
      Reached after
  | reset
      {table : BindingTable}
      {cache : Cache}
      (reached : Reached (table, cache)) :
      Reached (table, cache.reset)

/- Perform some operations over one table, in turn. -/
def performAll
    (table : BindingTable)
    (operations : List Operation)
    (cache : Cache) : Cache :=
  operations.foldl (fun cache operation =>
    finalState (operation.perform table cache)) cache

theorem Later.performAll
    {before : BindingTable × Cache}
    {table : BindingTable}
    {cache : Cache}
    (operations : List Operation)
    (hLater : Later before (table, cache)) :
    Later before (table, cache.performAll table operations) := by
  induction operations generalizing cache with
  | nil => exact hLater
  | cons operation operations ih =>
      exact ih (.perform operation hLater)

/- A table that has grown still has its bindings. -/
theorem get?_add
    {table : BindingTable}
    {host binding : HostBinding}
    {id : BindingId}
    (hGet : table.get? id = some host) :
    (table.add binding).2.get? id = some host := by
  unfold BindingTable.get? at hGet ⊢
  split at hGet
  · next hFixed =>
    rw [if_pos hFixed]
    exact hGet
  · next hFixed =>
    rw [if_neg hFixed]
    rcases Array.getElem?_eq_some_iff.mp hGet with ⟨hBound, _⟩
    simp only [BindingTable.add]
    rw [Array.getElem?_push, if_neg (by omega)]
    exact hGet

/- A part of a table without circular bindings has none. -/
theorem acyclic_of_add
    {table : BindingTable}
    {binding : HostBinding}
    (hAcyclic : (table.add binding).2.Acyclic) :
    table.Acyclic := by
  have hConsists :
      table.Consists ≤ (table.add binding).2.Consists := by
    rintro a b ⟨found, hGet, hPart⟩
    exact ⟨found, get?_add hGet, hPart⟩
  have hDeclares :
      table.Declares ≤ (table.add binding).2.Declares := by
    rintro a b (hOwner | hOwner | hOwner)
    · rcases hOwner with ⟨found, hGet, hOwner⟩
      exact Or.inl ⟨found, get?_add hGet, hOwner⟩
    · rcases hOwner with ⟨found, hGet, hOwner⟩
      exact Or.inr (Or.inl ⟨found, get?_add hGet, hOwner⟩)
    · rcases hOwner with ⟨found, hGet, hOwner⟩
      exact Or.inr (Or.inr ⟨found, get?_add hGet, hOwner⟩)
  constructor
  · intro id hReach
    exact hAcyclic.consists id
      (Relation.TransGen.mono hConsists _ _ hReach)
  · intro id hReach
    exact hAcyclic.declares id
      (Relation.TransGen.mono hDeclares _ _ hReach)

/- An earlier table has no more circular bindings. -/
theorem Later.acyclic
    {before after : BindingTable × Cache}
    (hLater : Later before after)
    (hAcyclic : after.1.Acyclic) :
    before.1.Acyclic := by
  induction hLater with
  | same table cache => exact hAcyclic
  | perform operation _ ih => exact ih hAcyclic
  | add binding _ ih => exact ih (acyclic_of_add hAcyclic)

/- What follows in a generation are allowed changes. -/
theorem Later.changes
    {before after : BindingTable × Cache}
    (hLater : Later before after)
    (hAcyclic : strict → after.1.Acyclic) :
    Changes strict before.2 after.2 := by
  induction hLater with
  | same table cache => exact Relation.ReflTransGen.refl
  | @perform table table' cache cache' operation _ ih =>
      exact Relation.ReflTransGen.trans (ih hAcyclic)
        (follows_perform hAcyclic operation cache')
  | add binding _ ih =>
      exact ih fun hStrict => acyclic_of_add (hAcyclic hStrict)

/- Nothing is lost in a generation. -/
theorem Later.grown
    {before after : BindingTable × Cache}
    (hLater : Later before after) :
    Grown before.2 after.2 := by
  have hChanges : Changes False before.2 after.2 :=
    hLater.changes False.elim
  exact hChanges.grown

------------------------------------------------------------
-- What Steps Keep
------------------------------------------------------------

section Keeps

variable (P : BindingTable → Cache → Prop)

/- What operations and added bindings keep is kept. -/
theorem Later.keeps
    (hPerform : ∀ table cache (operation : Operation),
      P table cache →
        P table (finalState (operation.perform table cache)))
    (hAdd : ∀ table cache binding,
      P table cache → P (table.add binding).2 cache)
    {before after : BindingTable × Cache}
    (hLater : Later before after)
    (hBefore : P before.1 before.2) :
    P after.1 after.2 := by
  induction hLater with
  | same table cache => exact hBefore
  | perform operation _ ih => exact hPerform _ _ _ (ih hBefore)
  | add binding _ ih => exact hAdd _ _ _ (ih hBefore)

/- What is true at first and kept by every step is always true. -/
theorem Reached.keeps
    (hNew : ∀ table, P table {})
    (hPerform : ∀ table cache (operation : Operation),
      P table cache →
        P table (finalState (operation.perform table cache)))
    (hAdd : ∀ table cache binding,
      P table cache → P (table.add binding).2 cache)
    (hReset : ∀ table cache,
      P table cache → P table cache.reset)
    {state : BindingTable × Cache}
    (hReached : Reached state) :
    P state.1 state.2 := by
  induction hReached with
  | new table => exact hNew table
  | later _ hLater ih => exact hLater.keeps P hPerform hAdd ih
  | reset _ ih => exact hReset _ _ ih

/-
  Where the last table has no circular bindings, it is enough
  that operations over such tables keep it.
-/
theorem Reached.keeps_of_acyclic
    (hNew : ∀ table, P table {})
    (hPerform : ∀ table cache (operation : Operation),
      table.Acyclic → P table cache →
        P table (finalState (operation.perform table cache)))
    (hAdd : ∀ table cache binding,
      P table cache → P (table.add binding).2 cache)
    (hReset : ∀ table cache,
      P table cache → P table cache.reset)
    {state : BindingTable × Cache}
    (hReached : Reached state)
    (hAcyclic : state.1.Acyclic) :
    P state.1 state.2 := by
  have hKeeps := hReached.keeps
    (fun table cache => table.Acyclic → P table cache)
  apply hKeeps ?_ ?_ ?_ ?_ hAcyclic
  · exact fun table _ => hNew table
  · exact fun table cache operation hKept hAcyclic =>
      hPerform table cache operation hAcyclic (hKept hAcyclic)
  · exact fun table cache binding hKept hAcyclic =>
      hAdd table cache binding (hKept (acyclic_of_add hAcyclic))
  · exact fun table cache hKept hAcyclic =>
      hReset table cache (hKept hAcyclic)

end Keeps

/- Every cache is sound. -/
theorem Reached.sound
    {state : BindingTable × Cache}
    (hReached : Reached state) :
    state.2.Sound := by
  have hKeeps := hReached.keeps fun _ cache => cache.Sound
  apply hKeeps
  · exact fun _ => Sound.new
  · intro table cache operation hSound
    have hChanges : Changes False cache
        (finalState (operation.perform table cache)) :=
      follows_perform False.elim operation cache
    exact hChanges.sound hSound
  · exact fun _ _ _ hSound => hSound
  · exact fun _ _ hSound => hSound.reset

/- Without circular bindings every cache is canonical. -/
theorem Reached.canonical
    {state : BindingTable × Cache}
    (hReached : Reached state)
    (hAcyclic : state.1.Acyclic) :
    state.2.Canonical := by
  induction hReached with
  | new table => exact Canonical.new
  | later hBefore hLater ih =>
      exact (hLater.changes fun _ => hAcyclic).canonical
        hBefore.sound (ih (hLater.acyclic hAcyclic))
  | reset _ _ => exact Canonical.reset _

end Cache

end Lowering
