import Lowering.Workspace
import Lowering.Proofs.Cache.Live
import Lowering.Proofs.Cache.Operation

/-
  This file proves how symbols are looked up, that what was
  looked up once is looked up again later, and how a step that
  chooses symbols is described by lookups.

  A step chooses by a lookup if it ends with a violation or
  with what the lookup finds in its last state. Lookups are
  stable, so the choices of several steps can all be read off
  the symbols that are there in the end.

  Key definitions include:
    * `Symbols.kind?`
    * `Symbols.arrayClass?`
    * `Symbols.method?`
    * `Symbols.Grown`
    * `Symbols.Ready`
    * `Completes`
    * `Symbols.Chooses`

  Main results:
    * `Symbols.Grown.isHistory`
    * `Symbols.Chooses.bind`
    * `Symbols.Chooses.ofCache`
-/

namespace Lowering

------------------------------------------------------------
-- Runs That End Well
------------------------------------------------------------

/- A failure of the cache is none of the tree. -/
theorem LoweringError.ofCache_ne_treeFault
    (error : CacheError)
    (fault : TreeFault) :
    LoweringError.ofCache error ≠ .treeFault fault := by
  cases error <;> exact nofun

section Completes

variable {σ α β : Type}
variable {safe : Prop}

/-
  A run ends well: it has an answer, of which something is
  true, or it is refused with a violation. A fault is only
  allowed where nothing is known to be safe, such as a type
  with a component from before a reset, and is then one of the
  cache.
-/
def Completes
    (safe : Prop)
    (result : EStateM.Result LoweringError σ α)
    (post : α → σ → Prop) : Prop :=
  match result with
  | .ok answer state => post answer state
  | .error error _ =>
    (safe → ∃ cause, error = .violation cause) ∧
      ∀ fault, error ≠ .treeFault fault

theorem Completes.of_ok
    {operation : EStateM LoweringError σ α}
    {state state' : σ}
    {answer : α}
    {post : α → σ → Prop}
    (hRun : operation state = .ok answer state')
    (hPost : post answer state') :
    Completes safe (operation state) post := by
  rw [hRun]
  exact hPost

theorem Completes.bind
    {first : EStateM LoweringError σ α}
    {next : α → EStateM LoweringError σ β}
    {state : σ}
    {middle : α → σ → Prop}
    {post : β → σ → Prop}
    (hFirst : Completes safe (first state) middle)
    (hNext : ∀ answer state', middle answer state' →
      Completes safe (next answer state') post) :
    Completes safe ((first >>= next) state) post := by
  cases hRun : first state with
  | ok answer state' =>
      rw [run_bind_ok hRun]
      rw [hRun] at hFirst
      exact hNext answer state' hFirst
  | error error state' =>
      rw [run_bind_error hRun]
      rw [hRun] at hFirst
      exact hFirst

theorem Completes.mono
    {result : EStateM.Result LoweringError σ α}
    {post post' : α → σ → Prop}
    (hResult : Completes safe result post)
    (hMono : ∀ answer state, post answer state →
      post' answer state) :
    Completes safe result post' := by
  cases result with
  | ok answer state => exact hMono answer state hResult
  | error error state => exact hResult

end Completes

namespace Symbols

------------------------------------------------------------
-- Lookups
------------------------------------------------------------

/- The kind of a live type. -/
def kind? (symbols : Symbols) (ty : TypeId) : Option TypeKind :=
  (symbols.cache.type? ty).map (·.kind)

/- The text of a name. -/
def text? (symbols : Symbols) (name : Name) : Option String :=
  symbols.cache.names.text? name

/- The name of a text. -/
def name? (symbols : Symbols) (text : String) : Option Name :=
  symbols.cache.names.find? text

/- The name of a live element. -/
def elementName?
    (symbols : Symbols)
    (id : ElementId) : Option Name :=
  (symbols.cache.elements.get? id.raw).map (·.name)

/- The declared type of a live element. -/
def declaredType?
    (symbols : Symbols)
    (id : ElementId) : Option TypeId :=
  (symbols.cache.elements.get? id.raw).map
    (·.ty.getD Cache.noType)

/- The runtime class of arrays over a component. -/
def arrayClass?
    (symbols : Symbols)
    (component : TypeId) : Option ElementId :=
  (symbols.kind? component).map fun kind =>
    match kind.primitive? with
    | some primitive => symbols.env.primitiveArrays primitive
    | none => symbols.env.objectArray

/- The type of a value primitive. -/
def primitiveType?
    (symbols : Symbols)
    (kind : PrimitiveKind) : Option TypeId :=
  symbols.cache.typeOf? (BindingTable.primitive kind)

/- The synthetic type of a shape. -/
def synthetic?
    (symbols : Symbols)
    (kind : TypeKind) : Option TypeId :=
  symbols.cache.shapes.get? kind

/-
  The array over the primitive `int`: that of the host where
  it reported one, else a synthetic one.
-/
def intArrayType?
    (symbols : Symbols)
    (table : BindingTable)
    (int : TypeId) : Option TypeId :=
  match table.findArrayOf? (BindingTable.primitive .int) with
  | some id => symbols.cache.typeOf? id
  | none => symbols.synthetic? (.array int)

/- The method of a runtime class with a selector. -/
def method?
    (symbols : Symbols)
    (cls : ElementId)
    (selector : String) : Option ElementId := do
  let name ← symbols.name? selector
  symbols.env.members.methods.lookup (cls, name)

/- The field for the size of the arrays of a class. -/
def sizeField?
    (symbols : Symbols)
    (cls : ElementId) : Option ElementId :=
  symbols.env.members.sizeFields.lookup cls

------------------------------------------------------------
-- Growth
------------------------------------------------------------

/- Later symbols: the same classes, and no symbol is lost. -/
structure Grown (before after : Symbols) : Prop where
  cache : before.cache.Grown after.cache
  primitiveArrays :
    after.env.primitiveArrays = before.env.primitiveArrays
  objectArray : after.env.objectArray = before.env.objectArray
  iosClass : after.env.iosClass = before.env.iosClass
  idType : after.env.idType = before.env.idType
  methods : ∀ key method,
    before.env.members.methods.lookup key = some method →
      after.env.members.methods.lookup key = some method
  sizeFields : ∀ cls field,
    before.env.members.sizeFields.lookup cls = some field →
      after.env.members.sizeFields.lookup cls = some field

theorem Grown.isHistory : IsHistory Grown where
  refl _ := {
    cache := Cache.Grown.refl _
    primitiveArrays := rfl
    objectArray := rfl
    iosClass := rfl
    idType := rfl
    methods := fun _ _ hFound => hFound
    sizeFields := fun _ _ hFound => hFound }
  trans hFirst hSecond := {
    cache := hFirst.cache.trans hSecond.cache
    primitiveArrays :=
      hSecond.primitiveArrays.trans hFirst.primitiveArrays
    objectArray := hSecond.objectArray.trans hFirst.objectArray
    iosClass := hSecond.iosClass.trans hFirst.iosClass
    idType := hSecond.idType.trans hFirst.idType
    methods := fun key method hFound =>
      hSecond.methods key method
        (hFirst.methods key method hFound)
    sizeFields := fun cls field hFound =>
      hSecond.sizeFields cls field
        (hFirst.sizeFields cls field hFound) }

theorem Grown.refl (symbols : Symbols) : Grown symbols symbols :=
  isHistory.refl symbols

theorem Grown.trans
    {first second third : Symbols}
    (hFirst : Grown first second)
    (hSecond : Grown second third) :
    Grown first third :=
  isHistory.trans hFirst hSecond

theorem Grown.ofCache
    {symbols : Symbols}
    {cache : Cache}
    (hGrown : symbols.cache.Grown cache) :
    Grown symbols ⟨cache, symbols.env⟩ where
  cache := hGrown
  primitiveArrays := rfl
  objectArray := rfl
  iosClass := rfl
  idType := rfl
  methods := fun _ _ hFound => hFound
  sizeFields := fun _ _ hFound => hFound

------------------------------------------------------------
-- Stable Lookups
------------------------------------------------------------

/- A lookup that finds the same again in later symbols. -/
def Stable {α : Type} (lookup : Symbols → Option α) : Prop :=
  ∀ before after answer, Grown before after →
    lookup before = some answer → lookup after = some answer

section Stable

variable {α β : Type}

theorem stable_pure (answer : Option α) :
    Stable fun _ => answer :=
  fun _ _ _ _ hFound => hFound

theorem Stable.bind
    {first : Symbols → Option α}
    {next : α → Symbols → Option β}
    (hFirst : Stable first)
    (hNext : ∀ answer, Stable (next answer)) :
    Stable fun symbols =>
      first symbols >>= fun answer => next answer symbols := by
  intro before after answer hGrown hFound
  rcases Option.bind_eq_some_iff.mp hFound with
    ⟨middle, hMiddle, hLast⟩
  exact Option.bind_eq_some_iff.mpr
    ⟨middle, hFirst _ _ _ hGrown hMiddle,
      hNext middle _ _ _ hGrown hLast⟩

theorem Stable.map
    {lookup : Symbols → Option α}
    (hStable : Stable lookup)
    (change : α → β) :
    Stable fun symbols => (lookup symbols).map change := by
  intro before after answer hGrown hFound
  rcases Option.map_eq_some_iff.mp hFound with
    ⟨middle, hMiddle, hLast⟩
  exact Option.map_eq_some_iff.mpr
    ⟨middle, hStable _ _ _ hGrown hMiddle, hLast⟩

end Stable

theorem stable_kind? (ty : TypeId) : Stable (·.kind? ty) := by
  intro before after kind hGrown hFound
  rcases Option.map_eq_some_iff.mp hFound with
    ⟨data, hType, hKind⟩
  exact Option.map_eq_some_iff.mpr
    ⟨data, hGrown.cache.type? hType, hKind⟩

theorem stable_text? (name : Name) : Stable (·.text? name) :=
  fun _ _ text hGrown hFound =>
    hGrown.cache.names name text hFound

theorem stable_name? (text : String) : Stable (·.name? text) :=
  fun _ _ _ hGrown hFound => hGrown.cache.names.find? hFound

theorem stable_elementName? (id : ElementId) :
    Stable (·.elementName? id) := by
  intro before after name hGrown hFound
  rcases Option.map_eq_some_iff.mp hFound with
    ⟨data, hData, hName⟩
  rcases hGrown.cache.element? hData with ⟨data', hData', hKept⟩
  exact Option.map_eq_some_iff.mpr
    ⟨data', hData', hKept.name.trans hName⟩

theorem stable_declaredType? (id : ElementId) :
    Stable (·.declaredType? id) := by
  intro before after ty hGrown hFound
  rcases Option.map_eq_some_iff.mp hFound with ⟨data, hData, hTy⟩
  rcases hGrown.cache.element? hData with ⟨data', hData', hKept⟩
  apply Option.map_eq_some_iff.mpr
  refine ⟨data', hData', ?_⟩
  rw [hKept.ty]
  exact hTy

theorem stable_arrayClass? (component : TypeId) :
    Stable (·.arrayClass? component) := by
  intro before after cls hGrown hFound
  rcases Option.map_eq_some_iff.mp hFound with
    ⟨kind, hKind, hClass⟩
  apply Option.map_eq_some_iff.mpr
  refine ⟨kind, stable_kind? component _ _ _ hGrown hKind, ?_⟩
  rw [hGrown.primitiveArrays, hGrown.objectArray]
  exact hClass

theorem stable_primitiveType? (kind : PrimitiveKind) :
    Stable (·.primitiveType? kind) :=
  fun _ _ _ hGrown hFound => hGrown.cache.typeOf? hFound

theorem stable_synthetic? (kind : TypeKind) :
    Stable (·.synthetic? kind) :=
  fun _ _ _ hGrown hFound => hGrown.cache.shape? hFound

theorem stable_intArrayType?
    (table : BindingTable)
    (int : TypeId) :
    Stable (·.intArrayType? table int) := by
  unfold intArrayType?
  cases table.findArrayOf? (BindingTable.primitive .int) with
  | some id =>
      exact fun _ _ _ hGrown hFound =>
        hGrown.cache.typeOf? hFound
  | none => exact stable_synthetic? _

theorem stable_method?
    (cls : ElementId)
    (selector : String) :
    Stable (·.method? cls selector) :=
  (stable_name? selector).bind fun name _ _ method hGrown =>
    hGrown.methods (cls, name) method

theorem stable_sizeField? (cls : ElementId) :
    Stable (·.sizeField? cls) :=
  fun _ _ field hGrown => hGrown.sizeFields cls field

------------------------------------------------------------
-- Ready Symbols
------------------------------------------------------------

/- A live element with a known name. -/
def RuntimeClass (cache : Cache) (cls : ElementId) : Prop :=
  ∃ data text,
    cache.elements.get? cls.raw = some data ∧
      cache.names.text? data.name = some text

theorem RuntimeClass.mono
    {before after : Cache}
    {cls : ElementId}
    (hGrown : before.Grown after)
    (hClass : RuntimeClass before cls) :
    RuntimeClass after cls := by
  rcases hClass with ⟨data, text, hData, hText⟩
  rcases hGrown.element? hData with ⟨data', hData', hKept⟩
  refine ⟨data', text, hData', ?_⟩
  rw [hKept.name]
  exact hGrown.names _ _ hText

/-
  Symbols that lowered code can be written with: the runtime
  classes are there, and the fields for the sizes of arrays
  are named so.
-/
structure Ready (symbols : Symbols) : Prop where
  sound : symbols.cache.Sound
  primitiveArrays : ∀ kind, RuntimeClass symbols.cache
    (symbols.env.primitiveArrays kind)
  objectArray :
    RuntimeClass symbols.cache symbols.env.objectArray
  iosClass : RuntimeClass symbols.cache symbols.env.iosClass
  sizeFields : ∀ cls field,
    symbols.env.members.sizeFields.lookup cls = some field →
      ∃ data,
        symbols.cache.elements.get? field.raw = some data ∧
          symbols.cache.names.text? data.name = some "size"

/- Symbols stay ready when the cache grows. -/
theorem Ready.ofCache
    {symbols : Symbols}
    {cache : Cache}
    (hReady : symbols.Ready)
    (hSound : cache.Sound)
    (hGrown : symbols.cache.Grown cache) :
    Ready ⟨cache, symbols.env⟩ where
  sound := hSound
  primitiveArrays kind := (hReady.primitiveArrays kind).mono hGrown
  objectArray := hReady.objectArray.mono hGrown
  iosClass := hReady.iosClass.mono hGrown
  sizeFields := by
    intro cls field hField
    rcases hReady.sizeFields cls field hField with
      ⟨data, hData, hText⟩
    rcases hGrown.element? hData with ⟨data', hData', hKept⟩
    refine ⟨data', hData', ?_⟩
    rw [hKept.name]
    exact hGrown.names _ _ hText

/- The class of arrays over a live component is there. -/
theorem Ready.arrayClass
    {symbols : Symbols}
    {component : TypeId}
    {cls : ElementId}
    (hReady : symbols.Ready)
    (hClass : symbols.arrayClass? component = some cls) :
    RuntimeClass symbols.cache cls := by
  rcases Option.map_eq_some_iff.mp hClass with ⟨kind, _, hEq⟩
  cases hPrimitive : kind.primitive? with
  | some primitive =>
      simp only [hPrimitive] at hEq
      rw [← hEq]
      exact hReady.primitiveArrays primitive
  | none =>
      simp only [hPrimitive] at hEq
      rw [← hEq]
      exact hReady.objectArray

------------------------------------------------------------
-- Choices
------------------------------------------------------------

/-
  A step chooses by a lookup: it ends well, loses no symbol,
  leaves ready symbols, and answers what the lookup finds.
-/
def Chooses
    {α : Type}
    (safe : Prop)
    (step : SymbolM α)
    (symbols : Symbols)
    (lookup : Symbols → Option α) : Prop :=
  Completes safe (step symbols) fun answer symbols' =>
    symbols.Grown symbols' ∧ symbols'.Ready ∧
      lookup symbols' = some answer

/- What is asked and answered changes nothing. -/
theorem run_ask_ok
    {α : Type}
    {symbols : Symbols}
    {question : Cache → Except CacheError α}
    {answer : α}
    (hAnswer : question symbols.cache = .ok answer) :
    ask question symbols = .ok answer symbols :=
  run_liftCache_ok
    (run_fatal_ok (run_inspectCache_ok hAnswer))

namespace Chooses

variable {α β : Type} {symbols : Symbols} {safe : Prop}

/- What is known once a choice has been made. -/
theorem run_ok
    {step : SymbolM α}
    {lookup : Symbols → Option α}
    {after : Symbols}
    {answer : α}
    (hChooses : Chooses False step symbols lookup)
    (hRun : step symbols = .ok answer after) :
    symbols.Grown after ∧ after.Ready ∧
      lookup after = some answer := by
  unfold Chooses at hChooses
  rw [hRun] at hChooses
  exact hChooses

theorem pure
    (hReady : symbols.Ready)
    {answer : α}
    {lookup : Symbols → Option α}
    (hLookup : lookup symbols = some answer) :
    Chooses safe (pure answer) symbols lookup :=
  ⟨Grown.refl symbols, hReady, hLookup⟩

/- What the steps of a sequence choose is found in the end. -/
theorem bind
    {first : SymbolM α}
    {next : α → SymbolM β}
    {lookup : Symbols → Option α}
    {lookup' : α → Symbols → Option β}
    (hStable : Stable lookup)
    (hFirst : Chooses safe first symbols lookup)
    (hNext : ∀ answer symbols',
      symbols.Grown symbols' → symbols'.Ready →
        lookup symbols' = some answer →
          Chooses safe (next answer) symbols'
            (lookup' answer)) :
    Chooses safe (first >>= next) symbols fun symbols =>
      lookup symbols >>= fun answer =>
        lookup' answer symbols := by
  apply Completes.bind hFirst
  intro answer symbols' hMiddle
  rcases hMiddle with ⟨hGrown, hReady, hFound⟩
  apply (hNext answer symbols' hGrown hReady hFound).mono
  intro answer' symbols'' hLast
  rcases hLast with ⟨hGrown', hReady', hFound'⟩
  refine ⟨hGrown.trans hGrown', hReady', ?_⟩
  exact Option.bind_eq_some_iff.mpr
    ⟨answer, hStable _ _ _ hGrown' hFound, hFound'⟩

/- A step before the last, on which the answer does not rest. -/
theorem after
    {first : SymbolM α}
    {next : α → SymbolM β}
    {lookup : Symbols → Option α}
    {lookup' : Symbols → Option β}
    (hFirst : Chooses safe first symbols lookup)
    (hNext : ∀ answer symbols',
      symbols.Grown symbols' → symbols'.Ready →
        lookup symbols' = some answer →
          Chooses safe (next answer) symbols' lookup') :
    Chooses safe (first >>= next) symbols lookup' := by
  apply Completes.bind hFirst
  intro answer symbols' hMiddle
  rcases hMiddle with ⟨hGrown, hReady, hFound⟩
  apply (hNext answer symbols' hGrown hReady hFound).mono
  intro answer' symbols'' hLast
  exact ⟨hGrown.trans hLast.1, hLast.2⟩

/- What is known already need not be chosen again. -/
theorem known
    {step : SymbolM β}
    {lookup : Symbols → Option α}
    {lookup' : α → Symbols → Option β}
    {answer : α}
    (hStable : Stable lookup)
    (hKnown : lookup symbols = some answer)
    (hStep : Chooses safe step symbols (lookup' answer)) :
    Chooses safe step symbols fun symbols =>
      lookup symbols >>= fun answer =>
        lookup' answer symbols := by
  apply Completes.mono hStep
  intro answer' symbols' hPost
  rcases hPost with ⟨hGrown, hReady, hFound⟩
  refine ⟨hGrown, hReady, ?_⟩
  exact Option.bind_eq_some_iff.mpr
    ⟨answer, hStable _ _ _ hGrown hKnown, hFound⟩

/- A choice may be told by another lookup that agrees. -/
theorem congr
    {step : SymbolM α}
    {lookup lookup' : Symbols → Option α}
    (hStep : Chooses safe step symbols lookup)
    (hSame : ∀ symbols', symbols.Grown symbols' →
      symbols'.Ready → ∀ answer,
        lookup symbols' = some answer →
          lookup' symbols' = some answer) :
    Chooses safe step symbols lookup' := by
  apply Completes.mono hStep
  intro answer symbols' hPost
  exact ⟨hPost.1, hPost.2.1,
    hSame symbols' hPost.1 hPost.2.1 answer hPost.2.2⟩

/- Reading the environment changes nothing. -/
theorem environment
    {next : Environment → SymbolM β}
    {lookup : Symbols → Option β}
    (hNext : Chooses safe (next symbols.env) symbols lookup) :
    Chooses safe (Symbols.environment >>= next) symbols
      lookup := by
  have hRun : Symbols.environment symbols =
      .ok symbols.env symbols := rfl
  unfold Chooses
  rw [run_bind_ok hRun]
  exact hNext

/- An operation of the cache that has an answer is a choice. -/
theorem ofCache
    (hReady : symbols.Ready)
    {operation : CacheM α}
    {answer : α}
    {cache : Cache}
    {lookup : Symbols → Option α}
    (hRun : operation symbols.cache = .ok answer cache)
    (hChanges : Follows (Cache.Changes False) operation
      symbols.cache)
    (hLookup : lookup ⟨cache, symbols.env⟩ = some answer) :
    Chooses safe (liftM operation) symbols lookup := by
  replace hChanges := hChanges.run_ok hRun
  have hGrown := hChanges.grown
  exact Completes.of_ok (run_liftCache_ok hRun)
    ⟨Grown.ofCache hGrown,
      hReady.ofCache (hChanges.sound hReady.sound) hGrown,
      hLookup⟩

/-
  A question is a choice, if what it answers is what the
  lookup finds. Where it is safe to ask, there is an answer.
-/
theorem inspect
    (hReady : symbols.Ready)
    {question : Cache → Except CacheError α}
    {lookup : Symbols → Option α}
    (hSafe : safe → ∃ answer,
      question symbols.cache = .ok answer)
    (hLookup : ∀ answer,
      question symbols.cache = .ok answer →
        lookup symbols = some answer) :
    Chooses safe
      (liftM (CacheM.inspect question : CacheM α))
      symbols lookup := by
  cases hAnswer : question symbols.cache with
  | ok answer =>
      apply Chooses.ofCache hReady (run_inspectCache_ok hAnswer)
      · exact Follows.inspect
          (Cache.Changes.isHistory False) _ _
      · exact hLookup answer hAnswer
  | error error =>
      unfold Chooses
      rw [run_liftCache_error (run_inspectCache_error hAnswer)]
      refine ⟨?_, LoweringError.ofCache_ne_treeFault error⟩
      intro hIsSafe
      rcases hSafe hIsSafe with ⟨answer, hOk⟩
      rw [hAnswer] at hOk
      exact absurd hOk (by simp)

/- The same for a question whose violations are faults. -/
theorem ask
    (hReady : symbols.Ready)
    {question : Cache → Except CacheError α}
    {lookup : Symbols → Option α}
    (hSafe : safe → ∃ answer,
      question symbols.cache = .ok answer)
    (hLookup : ∀ answer,
      question symbols.cache = .ok answer →
        lookup symbols = some answer) :
    Chooses safe (Symbols.ask question) symbols lookup := by
  cases hAnswer : question symbols.cache with
  | ok answer =>
      exact Completes.of_ok (run_ask_ok hAnswer)
        ⟨Grown.refl symbols, hReady, hLookup answer hAnswer⟩
  | error error =>
      unfold Chooses Symbols.ask
      rw [run_liftCache_error
        (run_fatal_error (run_inspectCache_error hAnswer))]
      refine ⟨?_, LoweringError.ofCache_ne_treeFault _⟩
      intro hIsSafe
      rcases hSafe hIsSafe with ⟨answer, hOk⟩
      rw [hAnswer] at hOk
      exact absurd hOk (by simp)

end Chooses

end Symbols

end Lowering
