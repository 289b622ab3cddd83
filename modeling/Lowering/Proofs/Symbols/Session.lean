import Lowering.Proofs.Symbols.Titles

/-
  This file describes the symbols that a run of lowering can
  start from. An environment is created over a cache that was
  reached in any way; since then, the cache may have been
  worked on, but was not reset, and runtime members may have
  been made.

  An environment can always be created, and its symbols are
  ready from then on. Each runtime method is recorded under its
  class and its selector.

  Key definitions include:
    * `Cache.Works`
    * `Symbols.create?`
    * `Symbols.Session`

  Main results:
    * `Symbols.run_create`
    * `Symbols.Session.ready`
    * `Symbols.Session.entitled`
    * `Symbols.Session.titled`
-/

namespace Lowering

------------------------------------------------------------
-- Work On The Cache
------------------------------------------------------------

namespace Cache

/- Work over a table that only adds to a cache. -/
structure Works
    (table : BindingTable)
    (before after : Cache) : Prop where
  adds : Adds before after
  later : Later (table, before) (table, after)

theorem Works.isHistory (table : BindingTable) :
    IsHistory (Works table) where
  refl := fun cache =>
    ⟨Adds.isHistory.refl cache, .same table cache⟩
  trans := fun hFirst hSecond =>
    ⟨Adds.isHistory.trans hFirst.adds hSecond.adds,
      hFirst.later.trans hSecond.later⟩

/- What does the work of an operation and only adds. -/
theorem works_of_perform
    {α : Type}
    {table : BindingTable}
    {run : CacheM α}
    {cache : Cache}
    (operation : Operation)
    (hAdds : Follows Adds run cache)
    (hSame : operation.perform table = discard run) :
    Follows (Works table) run cache := by
  refine ⟨hAdds, ?_⟩
  have hLater := Later.perform operation (.same table cache)
  have hState : finalState (discard run cache) =
      finalState (run cache) := by
    show finalState
      (EStateM.map (Function.const α ()) run cache) = _
    unfold EStateM.map
    cases run cache <;> rfl
  rwa [hSame, hState] at hLater

end Cache

namespace Symbols

------------------------------------------------------------
-- Environments In Use
------------------------------------------------------------

/-
  The symbols of an environment that was created since the last
  reset of the cache.
-/
inductive Session : BindingTable → Symbols → Prop
  | created
      {table : BindingTable}
      {cache cache' : Cache}
      {env : Environment}
      (reached : Cache.Reached (table, cache))
      (run : Environment.create cache = .ok env cache') :
      Session table ⟨cache', env⟩
  | later
      {table table' : BindingTable}
      {symbols : Symbols}
      {cache : Cache}
      (session : Session table symbols)
      (later : Cache.Later (table, symbols.cache)
        (table', cache)) :
      Session table' ⟨cache, symbols.env⟩
  | method
      {table : BindingTable}
      {symbols symbols' : Symbols}
      {cls method : ElementId}
      {selector : String}
      {returnType : TypeId}
      {modifiers : Modifiers}
      {params : List (String × TypeId)}
      (session : Session table symbols)
      (run : runtimeMethod cls selector returnType modifiers
        params symbols = .ok method symbols') :
      Session table symbols'
  | sizeField
      {table : BindingTable}
      {symbols symbols' : Symbols}
      {cls field : ElementId}
      (session : Session table symbols)
      (run : sizeField table cls symbols =
        .ok field symbols') :
      Session table symbols'

/- The symbols of a new environment over a cache. -/
def create? (cache : Cache) : Option Symbols :=
  match Environment.create cache with
  | .ok env cache => some ⟨cache, env⟩
  | .error _ _ => none

theorem Session.of_create?
    {table : BindingTable}
    {cache : Cache}
    {symbols : Symbols}
    (hReached : Cache.Reached (table, cache))
    (hCreate : create? cache = some symbols) :
    Session table symbols := by
  unfold create? at hCreate
  split at hCreate
  · next hRun =>
    cases hCreate
    exact .created hReached hRun
  · exact absurd hCreate (by simp)

------------------------------------------------------------
-- Creation
------------------------------------------------------------

/- A new class is there and named. -/
private theorem run_newTypeElement
    (text : String)
    (cache : Cache) :
    ∃ cls after,
      Cache.newTypeElement text none .onlyPublic cache =
          .ok cls after ∧
        Cache.Changes False cache after ∧
        IsClass after cls := by
  refine ⟨_, _, rfl, ?_, text, ?_⟩
  · exact (Cache.follows_newTypeElement text none .onlyPublic
      cache).run_ok rfl
  · refine Option.bind_eq_some_iff.mpr
      ⟨_, Generation.get?_push_next _ _, ?_⟩
    exact Option.bind_eq_some_iff.mpr ⟨text,
      Interner.text?_of_find? (Interner.find?_intern _ _), rfl⟩

/- The target scalar can always be made. -/
private theorem run_nativeType
    (text : String)
    (cache : Cache) :
    ∃ ty after,
      Cache.nativeType text cache = .ok ty after ∧
        Cache.Changes False cache after := by
  have hRun : ∃ ty after,
      Cache.nativeType text cache = .ok ty after := by
    rcases run_synthesize _ _ with ⟨ty, after, hRun⟩
    exact ⟨ty, after, hRun⟩
  rcases hRun with ⟨ty, after, hRun⟩
  refine ⟨ty, after, hRun, ?_⟩
  exact ((Cache.follows_nativeType text cache).run_ok
    hRun).changes

/-
  What is made for each value primitive is there for all: it is
  still there when the last one is made.
-/
private theorem run_tabulateM
    {act : PrimitiveKind → CacheM ElementId}
    (hAct : ∀ kind cache, ∃ cls after,
      act kind cache = .ok cls after ∧
        Cache.Changes False cache after ∧
        IsClass after cls)
    (cache : Cache) :
    ∃ classes after,
      PrimitiveKind.tabulateM act cache = .ok classes after ∧
        Cache.Changes False cache after ∧
        ∀ kind, IsClass after (classes kind) := by
  rcases hAct .boolean cache with ⟨c₁, s₁, r₁, h₁, p₁⟩
  rcases hAct .byte s₁ with ⟨c₂, s₂, r₂, h₂, p₂⟩
  rcases hAct .char s₂ with ⟨c₃, s₃, r₃, h₃, p₃⟩
  rcases hAct .short s₃ with ⟨c₄, s₄, r₄, h₄, p₄⟩
  rcases hAct .int s₄ with ⟨c₅, s₅, r₅, h₅, p₅⟩
  rcases hAct .long s₅ with ⟨c₆, s₆, r₆, h₆, p₆⟩
  rcases hAct .float s₆ with ⟨c₇, s₇, r₇, h₇, p₇⟩
  rcases hAct .double s₇ with ⟨c₈, s₈, r₈, h₈, p₈⟩
  have t₇ : Cache.Changes False s₇ s₈ := h₈
  have t₆ : Cache.Changes False s₆ s₈ := h₇.trans t₇
  have t₅ : Cache.Changes False s₅ s₈ := h₆.trans t₆
  have t₄ : Cache.Changes False s₄ s₈ := h₅.trans t₅
  have t₃ : Cache.Changes False s₃ s₈ := h₄.trans t₄
  have t₂ : Cache.Changes False s₂ s₈ := h₃.trans t₃
  have t₁ : Cache.Changes False s₁ s₈ := h₂.trans t₂
  have hRun : ∃ classes,
      PrimitiveKind.tabulateM act cache = .ok classes s₈ ∧
        classes .boolean = c₁ ∧ classes .byte = c₂ ∧
        classes .char = c₃ ∧ classes .short = c₄ ∧
        classes .int = c₅ ∧ classes .long = c₆ ∧
        classes .float = c₇ ∧ classes .double = c₈ := by
    unfold PrimitiveKind.tabulateM
    rw [run_bind_ok r₁, run_bind_ok r₂, run_bind_ok r₃,
      run_bind_ok r₄, run_bind_ok r₅, run_bind_ok r₆,
      run_bind_ok r₇, run_bind_ok r₈]
    exact ⟨_, rfl, rfl, rfl, rfl, rfl, rfl, rfl, rfl, rfl⟩
  rcases hRun with
    ⟨classes, hRun, rfl, rfl, rfl, rfl, rfl, rfl, rfl, rfl⟩
  refine ⟨classes, s₈, hRun, h₁.trans t₁, ?_⟩
  intro kind
  cases kind with
  | boolean => exact p₁.mono t₁.grown
  | byte => exact p₂.mono t₂.grown
  | char => exact p₃.mono t₃.grown
  | short => exact p₄.mono t₄.grown
  | int => exact p₅.mono t₅.grown
  | long => exact p₆.mono t₆.grown
  | float => exact p₇.mono t₇.grown
  | double => exact p₈

/-
  An environment can always be created, and only adds to the
  cache. No member is recorded in it.
-/
theorem run_create (cache : Cache) :
    ∃ env after,
      Environment.create cache = .ok env after ∧
        Cache.Changes False cache after ∧
        env.members = {} ∧
        Entitled ⟨after, env⟩ ∧
        (cache.Sound → Ready ⟨after, env⟩) := by
  rcases run_tabulateM
      (fun kind => run_newTypeElement kind.arrayClassName)
      cache with
    ⟨classes, s₁, r₁, h₁, p₁⟩
  rcases run_newTypeElement "IOSObjectArray" s₁ with
    ⟨objectArray, s₂, r₂, h₂, p₂⟩
  rcases run_newTypeElement "IOSClass" s₂ with
    ⟨iosClass, s₃, r₃, h₃, p₃⟩
  rcases run_nativeType "id" s₃ with ⟨idType, s₄, r₄, h₄⟩
  have t₃ : Cache.Changes False s₃ s₄ := h₄
  have t₂ : Cache.Changes False s₂ s₄ := h₃.trans t₃
  have t₁ : Cache.Changes False s₁ s₄ := h₂.trans t₂
  have hAll : Cache.Changes False cache s₄ := h₁.trans t₁
  have hRun : Environment.create cache =
      .ok { primitiveArrays := classes, objectArray, iosClass,
            idType } s₄ := by
    unfold Environment.create
    rw [run_bind_ok r₁, run_bind_ok r₂, run_bind_ok r₃,
      run_bind_ok r₄]
    rfl
  have hEntitled : Entitled ⟨s₄,
      { primitiveArrays := classes, objectArray, iosClass,
        idType }⟩ := {
    primitiveArrays := fun kind => (p₁ kind).mono t₁.grown
    objectArray := p₂.mono t₂.grown
    iosClass := p₃.mono t₃.grown
    methods := by
      intro cls name method hFound
      exact absurd hFound (by simp)
    sizeFields := by
      intro cls field hFound
      exact absurd hFound (by simp) }
  refine ⟨_, s₄, hRun, hAll, rfl, hEntitled,
    fun hSound => ?_⟩
  exact {
    sound := hAll.sound hSound
    primitiveArrays := fun kind =>
      (hEntitled.primitiveArrays kind).runtimeClass
    objectArray := hEntitled.objectArray.runtimeClass
    iosClass := hEntitled.iosClass.runtimeClass
    sizeFields := by
      intro cls field hFound
      exact absurd hFound (by simp) }

/- A new environment has no members. -/
theorem members_of_create
    {cache cache' : Cache}
    {env : Environment}
    (hRun : Environment.create cache = .ok env cache') :
    env.members = {} := by
  rcases run_create cache with
    ⟨env', after, hRun', _, hMembers, _, _⟩
  rw [hRun] at hRun'
  cases hRun'
  exact hMembers

/- Lowering can start from any symbols in use. -/
theorem Session.ready
    {table : BindingTable}
    {symbols : Symbols}
    (hSession : Session table symbols) :
    symbols.Ready := by
  induction hSession with
  | @created table cache cache' env hReached hRun =>
      rcases run_create cache with
        ⟨env', after, hRun', _, _, _, hReady⟩
      rw [hRun] at hRun'
      cases hRun'
      exact hReady hReached.sound
  | later _ hLater ih =>
      have hChanges : Cache.Changes False _ _ :=
        hLater.changes False.elim
      exact ih.ofCache (hChanges.sound ih.sound)
        hChanges.grown
  | method _ hRun ih =>
      exact ((chooses_runtimeMethod ih _ _ _ _ _).run_ok
        hRun).2.1
  | sizeField _ hRun ih =>
      exact ((chooses_sizeField ih _ _).run_ok hRun).2.1

/- The classes and the members in use have their titles. -/
theorem Session.entitled
    {table : BindingTable}
    {symbols : Symbols}
    (hSession : Session table symbols) :
    symbols.Entitled := by
  induction hSession with
  | @created table cache cache' env _ hRun =>
      rcases run_create cache with
        ⟨env', after, hRun', _, _, hEntitled, _⟩
      rw [hRun] at hRun'
      cases hRun'
      exact hEntitled
  | later _ hLater ih =>
      have hChanges : Cache.Changes False _ _ :=
        hLater.changes False.elim
      exact ih.mono
        (.of_members (Grown.ofCache hChanges.grown) rfl)
  | method hSession hRun ih =>
      exact ih.mono (adds_runtimeMethod hSession.ready hRun)
  | sizeField hSession hRun ih =>
      exact ih.mono (adds_sizeField hSession.ready hRun)

------------------------------------------------------------
-- Recorded Methods
------------------------------------------------------------

/- Each method that is in use has its title. -/
theorem Session.titled
    {table : BindingTable}
    {symbols : Symbols}
    (hSession : Session table symbols) :
    symbols.Titled := by
  intro cls name method hFound
  rcases hSession.entitled.methods cls name method hFound with
    ⟨selector, hText, hTitle⟩
  exact ⟨selector, hText, Cache.isMethodOf_of_title? hTitle⟩

end Symbols

end Lowering
