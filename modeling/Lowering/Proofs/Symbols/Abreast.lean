import Lowering.Proofs.Cache.Isolation.Reset
import Lowering.Proofs.Cache.SameTypes
import Lowering.Proofs.Symbols.Session

/-
  This file compares steps that choose symbols, taken from two
  later states of the same symbols. The states are abreast:
  they hold the same types at the same handles, and the same
  classes have a field for the size of their arrays. Names and
  elements that were made since the start may differ.

  Two steps agree if they end with the same error, or with
  answers that are the same in the sense that is asked, and
  the symbols are abreast again.

  Key definitions include:
    * `Symbols.Abreast`
    * `Symbols.SameName`
    * `Symbols.Agrees`

  Main results:
    * `Symbols.Agrees.bind`
    * `Symbols.agrees_arrayClass`
    * `Symbols.agrees_runtimeMethod`
    * `Symbols.agrees_sizeField`
-/

namespace Lowering

namespace Symbols

------------------------------------------------------------
-- Symbols Abreast
------------------------------------------------------------

/- Two later states of the same symbols. -/
structure Abreast (start symbols symbols' : Symbols) : Prop where
  adds : Adds start symbols
  adds' : Adds start symbols'
  ready : symbols.Ready
  ready' : symbols'.Ready
  distinct : symbols.cache.names.Distinct
  distinct' : symbols'.cache.names.Distinct
  types : symbols.cache.SameTypes symbols'.cache
  sizes : ∀ cls,
    (symbols.sizeField? cls).isSome =
      (symbols'.sizeField? cls).isSome

/- In the states of a session no text has two names. -/
theorem Session.distinct
    {table : BindingTable}
    {symbols : Symbols}
    (hSession : Session table symbols) :
    symbols.cache.names.Distinct := by
  induction hSession with
  | @created table cache cache' env hReached hRun =>
      rcases run_create cache with
        ⟨found, after, hRun', hChanges, _⟩
      rw [hRun] at hRun'
      cases hRun'
      exact hChanges.distinct hReached.distinct
  | later _ hLater ih =>
      have hChanges : Cache.Changes False _ _ :=
        hLater.changes False.elim
      exact hChanges.distinct ih
  | @method table symbols symbols' cls method selector
      returnType modifiers params _ hRun ih =>
      rcases run_runtimeMethod symbols cls selector returnType
        modifiers params with ⟨found, after, hRun', hAdds, _⟩
      rw [hRun] at hRun'
      cases hRun'
      exact hAdds.changes.distinct ih
  | @sizeField table symbols symbols' cls field _ hRun ih =>
      rcases run_sizeField symbols table cls with
        ⟨found, after, hRun', hAdds, _⟩
      rw [hRun] at hRun'
      cases hRun'
      exact hAdds.changes.distinct ih

/- A session is abreast of itself. -/
theorem Session.abreast
    {table : BindingTable}
    {symbols : Symbols}
    (hSession : Session table symbols) :
    Abreast symbols symbols symbols where
  adds := Adds.isHistory.refl symbols
  adds' := Adds.isHistory.refl symbols
  ready := hSession.ready
  ready' := hSession.ready
  distinct := hSession.distinct
  distinct' := hSession.distinct
  types := rfl
  sizes := fun _ => rfl

/- Names are the same if they have the same text. -/
def SameName
    (symbols symbols' : Symbols)
    (name name' : Name) : Prop :=
  ∃ text,
    symbols.text? name = some text ∧
      symbols'.text? name' = some text

theorem SameName.mono
    {first first' second second' : Symbols}
    {name name' : Name}
    (hGrown : Grown first second)
    (hGrown' : Grown first' second')
    (hSame : SameName first first' name name') :
    SameName second second' name name' := by
  rcases hSame with ⟨text, hText, hText'⟩
  exact ⟨text, hGrown.cache.names _ _ hText,
    hGrown'.cache.names _ _ hText'⟩

------------------------------------------------------------
-- Agreement
------------------------------------------------------------

variable {α α' β β' : Type}
variable {start symbols symbols' : Symbols}

/- Two steps on symbols that are abreast end alike. -/
def Agrees
    (start : Symbols)
    (Same : Symbols → Symbols → α → α' → Prop)
    (step : SymbolM α)
    (step' : SymbolM α')
    (symbols symbols' : Symbols) : Prop :=
  Coupled
    (fun answer after answer' after' =>
      Abreast start after after' ∧
        Grown symbols after ∧ Grown symbols' after' ∧
        Same after after' answer answer')
    (step symbols) (step' symbols')

namespace Agrees

variable {Same : Symbols → Symbols → α → α' → Prop}
variable {Same' : Symbols → Symbols → β → β' → Prop}

theorem pure
    (hAbreast : Abreast start symbols symbols')
    {answer : α}
    {answer' : α'}
    (hSame : Same symbols symbols' answer answer') :
    Agrees start Same (pure answer) (pure answer') symbols
      symbols' :=
  .ok ⟨hAbreast, Grown.refl _, Grown.refl _, hSame⟩

theorem bind
    {first : SymbolM α}
    {first' : SymbolM α'}
    {next : α → SymbolM β}
    {next' : α' → SymbolM β'}
    (hFirst : Agrees start Same first first' symbols symbols')
    (hNext : ∀ answer answer' after after',
      Abreast start after after' →
        Grown symbols after → Grown symbols' after' →
          Same after after' answer answer' →
            Agrees start Same' (next answer) (next' answer')
              after after') :
    Agrees start Same' (first >>= next) (first' >>= next')
      symbols symbols' := by
  apply Coupled.bind hFirst
  rintro answer after answer' after'
    ⟨hAbreast, hGrown, hGrown', hSame⟩
  apply Coupled.mono (hNext answer answer' after after'
    hAbreast hGrown hGrown' hSame)
  rintro found last found' last'
    ⟨hLast, hLater, hLater', hFound⟩
  exact ⟨hLast, hGrown.trans hLater, hGrown'.trans hLater',
    hFound⟩

/- Reading the environment changes nothing. -/
theorem environment
    {next : Environment → SymbolM α}
    {next' : Environment → SymbolM α'}
    (hNext : Agrees start Same (next symbols.env)
      (next' symbols'.env) symbols symbols') :
    Agrees start Same (Symbols.environment >>= next)
      (Symbols.environment >>= next') symbols symbols' := by
  have hRead : ∀ symbols : Symbols,
      Symbols.environment symbols =
        .ok symbols.env symbols := fun _ => rfl
  unfold Agrees
  rw [run_bind_ok (hRead symbols), run_bind_ok (hRead symbols')]
  exact hNext

theorem refuse
    (cause : LoweringViolation) :
    Agrees start Same (Symbols.refuse cause)
      (Symbols.refuse cause) symbols symbols' :=
  .throw _

/- Operations on caches that keep the types the same. -/
theorem ofCache
    (hAbreast : Abreast start symbols symbols')
    {operation : CacheM α}
    {operation' : CacheM α'}
    (hChanges : Follows (Cache.Changes False) operation
      symbols.cache)
    (hChanges' : Follows (Cache.Changes False) operation'
      symbols'.cache)
    (hRuns : Coupled
      (fun answer cache answer' cache' =>
        Cache.SameTypes cache cache' ∧
          Same ⟨cache, symbols.env⟩ ⟨cache', symbols'.env⟩
            answer answer')
      (operation symbols.cache) (operation' symbols'.cache)) :
    Agrees start Same (liftM operation) (liftM operation')
      symbols symbols' := by
  apply Coupled.liftCache (hRuns.follows hChanges hChanges')
  rintro answer cache answer' cache'
    ⟨hChanges, hChanges', hTypes, hSame⟩
  have hGrown : Grown symbols ⟨cache, symbols.env⟩ :=
    Grown.ofCache hChanges.grown
  have hGrown' : Grown symbols' ⟨cache', symbols'.env⟩ :=
    Grown.ofCache hChanges'.grown
  refine ⟨?_, hGrown, hGrown', hSame⟩
  exact {
    adds := Adds.isHistory.trans hAbreast.adds
      (.of_members hGrown rfl)
    adds' := Adds.isHistory.trans hAbreast.adds'
      (.of_members hGrown' rfl)
    ready := hAbreast.ready.ofCache
      (hChanges.sound hAbreast.ready.sound) hChanges.grown
    ready' := hAbreast.ready'.ofCache
      (hChanges'.sound hAbreast.ready'.sound) hChanges'.grown
    distinct := hChanges.distinct hAbreast.distinct
    distinct' := hChanges'.distinct hAbreast.distinct'
    types := hTypes
    sizes := hAbreast.sizes }

/- Questions that the caches answer alike. -/
theorem inspect
    (hAbreast : Abreast start symbols symbols')
    {question question' : Cache → Except CacheError α}
    {Same : Symbols → Symbols → α → α → Prop}
    (hSame : question symbols.cache =
      question' symbols'.cache)
    (hAnswer : ∀ answer,
      question symbols.cache = .ok answer →
        Same symbols symbols' answer answer) :
    Agrees start Same
      (liftM (CacheM.inspect question : CacheM α))
      (liftM (CacheM.inspect question' : CacheM α)) symbols
      symbols' := by
  have hHistory := Cache.Changes.isHistory False
  apply ofCache hAbreast
  · exact Follows.inspect hHistory _ _
  · exact Follows.inspect hHistory _ _
  · exact .inspect hSame fun answer hOk =>
      ⟨hAbreast.types, hAnswer answer hOk⟩

/- The same where violations are faults. -/
theorem ask
    (hAbreast : Abreast start symbols symbols')
    {question question' : Cache → Except CacheError α}
    {Same : Symbols → Symbols → α → α → Prop}
    (hSame : question symbols.cache =
      question' symbols'.cache)
    (hAnswer : ∀ answer,
      question symbols.cache = .ok answer →
        Same symbols symbols' answer answer) :
    Agrees start Same (Symbols.ask question)
      (Symbols.ask question') symbols symbols' := by
  have hHistory := Cache.Changes.isHistory False
  apply ofCache hAbreast
  · exact (Follows.inspect hHistory _ _).fatal
  · exact (Follows.inspect hHistory _ _).fatal
  · exact (Coupled.inspect hSame fun answer hOk =>
      ⟨hAbreast.types, hAnswer answer hOk⟩).fatal

end Agrees

------------------------------------------------------------
-- Names And Types
------------------------------------------------------------

section Types

variable (hAbreast : Abreast start symbols symbols')

include hAbreast

theorem agrees_intern (text : String) :
    Agrees start SameName
      (Cache.intern text : CacheM Name)
      (Cache.intern text : CacheM Name) symbols symbols' := by
  apply Agrees.ofCache hAbreast
  · exact Cache.follows_intern text _
  · exact Cache.follows_intern text _
  · refine .ok ⟨hAbreast.types, text, ?_, ?_⟩
    · exact Interner.text?_of_find? (Interner.find?_intern _ _)
    · exact Interner.text?_of_find? (Interner.find?_intern _ _)

theorem agrees_isPrimitive (ty : TypeId) :
    Agrees start
      (fun after _ primitive primitive' =>
        primitive = primitive' ∧
          after.cache.isPrimitive ty = .ok primitive)
      (ask (·.isPrimitive ty)) (ask (·.isPrimitive ty)) symbols
      symbols' :=
  .ask hAbreast (hAbreast.types.isPrimitive ty)
    fun _ hOk => ⟨rfl, hOk⟩

theorem agrees_componentType (ty : TypeId) :
    Agrees start (fun _ _ => Eq) (ask (·.componentType ty))
      (ask (·.componentType ty)) symbols symbols' :=
  .ask hAbreast (hAbreast.types.componentType ty)
    fun _ _ => rfl

/- The word of what is known to be a value primitive. -/
theorem agrees_categoryName
    {ty : TypeId}
    (hPrimitive : symbols.cache.isPrimitive ty = .ok true) :
    Agrees start (fun _ _ => Eq)
      (CacheM.inspect (·.categoryName ty) : CacheM String)
      (CacheM.inspect (·.categoryName ty) : CacheM String)
      symbols symbols' :=
  .inspect hAbreast (hAbreast.types.categoryName hPrimitive)
    fun _ _ => rfl

/- What could be written at the start is written the same. -/
theorem agrees_display
    {ty : TypeId}
    (hWritten : start.cache.Written ty) :
    Agrees start (fun _ _ => Eq) (ask (·.display ty))
      (ask (·.display ty)) symbols symbols' :=
  .ask hAbreast
    (hAbreast.types.display hAbreast.adds.grown.cache
      hAbreast.adds'.grown.cache hWritten)
    fun _ _ => rfl

theorem agrees_pointerType (pointee : TypeId) :
    Agrees start (fun _ _ => Eq)
      (Cache.pointerType pointee : CacheM TypeId)
      (Cache.pointerType pointee : CacheM TypeId) symbols
      symbols' := by
  apply Agrees.ofCache hAbreast
  · exact (Cache.follows_pointerType pointee _).mono
      fun _ _ hOnly => hOnly.changes
  · exact (Cache.follows_pointerType pointee _).mono
      fun _ _ hOnly => hOnly.changes
  · exact (hAbreast.types.pointerType pointee).mono
      fun _ _ _ _ hPost => ⟨hPost.2, hPost.1⟩

/- The type of a value primitive, which is found from then on. -/
theorem agrees_primitiveType
    (table : BindingTable)
    (kind : PrimitiveKind) :
    Agrees start
      (fun after after' ty ty' =>
        ty = ty' ∧
          after.primitiveType? kind = some ty ∧
          after'.primitiveType? kind = some ty)
      (Cache.primitiveType table kind : CacheM TypeId)
      (Cache.primitiveType table kind : CacheM TypeId) symbols
      symbols' := by
  have hTypes := @Cache.SameTypes.primitiveType _ _ table
    hAbreast.types kind
  rcases Cache.run_primitiveType table kind symbols.cache with
    ⟨ty, cache, hRun, hFound⟩
  rcases Cache.run_primitiveType table kind symbols'.cache with
    ⟨ty', cache', hRun', hFound'⟩
  apply Agrees.ofCache hAbreast
  · exact (Cache.follows_primitiveType False.elim kind _).mono
      fun _ _ hOnly => hOnly.changes
  · exact (Cache.follows_primitiveType False.elim kind _).mono
      fun _ _ hOnly => hOnly.changes
  · rw [hRun, hRun'] at hTypes ⊢
    cases hTypes with
    | ok hPost =>
        rcases hPost with ⟨rfl, hSame⟩
        exact .ok ⟨hSame, rfl, hFound, hFound'⟩

theorem agrees_intType (table : BindingTable) :
    Agrees start
      (fun after after' ty ty' =>
        ty = ty' ∧
          after.primitiveType? .int = some ty ∧
          after'.primitiveType? .int = some ty)
      (Environment.intType table : CacheM TypeId)
      (Environment.intType table : CacheM TypeId) symbols
      symbols' :=
  agrees_primitiveType hAbreast table .int

/- The array over `int`. -/
theorem agrees_intArrayType
    (table : BindingTable)
    {int : TypeId}
    (hInt : symbols.primitiveType? .int = some int)
    (hInt' : symbols'.primitiveType? .int = some int) :
    Agrees start (fun _ _ => Eq)
      (Environment.arrayType table int : CacheM TypeId)
      (Environment.arrayType table int : CacheM TypeId)
      symbols symbols' := by
  have hAsk : ∀ symbols : Symbols,
      symbols.Ready →
        symbols.primitiveType? .int = some int →
          CacheM.fatal (CacheM.inspect
            (·.typeBindingOfType table int)) symbols.cache =
              .ok (some (.host (BindingTable.primitive .int)))
                symbols.cache :=
    fun symbols hReady hFound =>
      run_fatal_ok (run_inspectCache_ok
        (hReady.typeBindingOfType_primitive table hFound))
  have hSafe : ∀ symbols : Symbols,
      symbols.Ready →
        symbols.primitiveType? .int = some int →
          Follows (Cache.Changes False)
            (Environment.arrayType table int)
            symbols.cache := by
    intro symbols hReady hFound
    unfold Environment.arrayType
    apply Follows.bind (Cache.Changes.isHistory False)
    · exact (Follows.inspect
        (Cache.Changes.isHistory False) _ _).fatal
    intro binding cache _
    simp only []
    split
    · exact (((Cache.follows_wrapHostType False.elim _
        cache).mono fun _ _ hOnly => hOnly.changes)).fatal
    · exact (Cache.follows_syntheticArrayType int cache).mono
        fun _ _ hOnly => hOnly.changes
  apply Agrees.ofCache hAbreast
  · exact hSafe symbols hAbreast.ready hInt
  · exact hSafe symbols' hAbreast.ready' hInt'
  unfold Environment.arrayType
  rw [run_bind_ok (hAsk symbols hAbreast.ready hInt),
    run_bind_ok (hAsk symbols' hAbreast.ready' hInt')]
  simp only []
  cases hFound :
      table.findArrayOf? (BindingTable.primitive .int) with
  | some id =>
      rcases get?_of_findArrayOf? hFound with
        ⟨binding, hBinding, hArray, hOver⟩
      exact ((hAbreast.types.wrapArrayOver hBinding hArray
        hOver).mono
          fun _ _ _ _ hPost => ⟨hPost.2, hPost.1⟩).fatal
  | none =>
      exact (hAbreast.types.syntheticArrayType int).mono
        fun _ _ _ _ hPost => ⟨hPost.2, hPost.1⟩

end Types

------------------------------------------------------------
-- Classes
------------------------------------------------------------

/- A live element has a name with a text. -/
private def HasName
    (cache : Cache)
    (id : ElementId)
    (text : String) : Prop :=
  ∃ data,
    cache.elements.get? id.raw = some data ∧
      cache.names.text? data.name = some text

private theorem HasName.mono
    {before after : Cache}
    {id : ElementId}
    {text : String}
    (hGrown : before.Grown after)
    (hName : HasName before id text) :
    HasName after id text := by
  rcases hName with ⟨data, hData, hText⟩
  rcases hGrown.element? hData with ⟨data', hData', hKept⟩
  refine ⟨data', hData', ?_⟩
  rw [hKept.name]
  exact hGrown.names _ _ hText

private theorem agrees_named
    (hAbreast : Abreast start symbols symbols')
    {id id' : ElementId}
    {text : String}
    (hName : HasName symbols.cache id text)
    (hName' : HasName symbols'.cache id' text) :
    Agrees start
      (fun after after' data data' =>
        SameName after after' data.name data'.name)
      (ask (·.element id)) (ask (·.element id')) symbols
      symbols' := by
  have hHistory := Cache.Changes.isHistory False
  rcases hName with ⟨data, hData, hText⟩
  rcases hName' with ⟨data', hData', hText'⟩
  apply Agrees.ofCache hAbreast
  · exact (Follows.inspect hHistory _ _).fatal
  · exact (Follows.inspect hHistory _ _).fatal
  · apply Coupled.fatal
    exact .of_ok
      (run_inspectCache_ok (Cache.element_eq_ok_iff.mpr hData))
      (run_inspectCache_ok (Cache.element_eq_ok_iff.mpr hData'))
      ⟨hAbreast.types, text, hText, hText'⟩

section Classes

variable (hAbreast : Abreast start symbols symbols')
variable {cls : ElementId}

include hAbreast

/- The class of arrays over a component is one of the start. -/
theorem agrees_arrayClass
    (hEntitled : start.Entitled)
    (component : TypeId) :
    Agrees start
      (fun _ _ cls cls' =>
        cls = cls' ∧ IsClass start.cache cls)
      (Symbols.arrayClass component)
      (Symbols.arrayClass component) symbols symbols' := by
  have hHistory := Cache.Changes.isHistory False
  have hGrown := hAbreast.adds.grown
  have hGrown' := hAbreast.adds'.grown
  have hSafe : ∀ (env : Environment) (cache : Cache),
      Follows (Cache.Changes False) (env.arrayClass component)
        cache := by
    intro env cache
    unfold Environment.arrayClass
    apply ((Follows.inspect hHistory _ _).fatal).bind hHistory
    intro kind _ _
    cases kind with
    | none => exact Follows.pure hHistory _ _
    | some kind => exact Follows.pure hHistory _ _
  unfold Symbols.arrayClass
  apply Agrees.environment
  apply Agrees.ofCache hAbreast (hSafe _ _) (hSafe _ _)
  unfold Environment.arrayClass
  have hKind : Coupled
      (fun kind cache kind' cache' =>
        kind = kind' ∧ Cache.SameTypes cache cache')
      (CacheM.fatal
        (CacheM.inspect (·.primitiveKind component))
          symbols.cache)
      (CacheM.fatal
        (CacheM.inspect (·.primitiveKind component))
          symbols'.cache) :=
    (Coupled.inspect (hAbreast.types.primitiveKind component)
      fun _ _ => ⟨rfl, hAbreast.types⟩).fatal
  apply hKind.bind
  rintro kind cache _ cache' ⟨rfl, hTypes⟩
  cases kind with
  | none =>
      refine .ok ⟨hTypes, ?_, ?_⟩
      · rw [hGrown.objectArray, hGrown'.objectArray]
      · rw [hGrown.objectArray]
        exact hEntitled.objectArray
  | some kind =>
      refine .ok ⟨hTypes, ?_, ?_⟩
      · rw [hGrown.primitiveArrays, hGrown'.primitiveArrays]
      · rw [hGrown.primitiveArrays]
        exact hEntitled.primitiveArrays kind

/- The text of the name of a class. -/
theorem agrees_elementName
    (hClass : IsClass start.cache cls) :
    Agrees start (fun _ _ => Eq) (ask (·.elementName cls))
      (ask (·.elementName cls)) symbols symbols' := by
  rcases hClass.runtimeClass with ⟨data, text, hData, hText⟩
  have hName : HasName start.cache cls text :=
    ⟨data, hData, hText⟩
  have hTold : ∀ cache : Cache, start.cache.Grown cache →
      cache.elementName cls = .ok text := by
    intro cache hGrown
    rcases hName.mono hGrown with ⟨found, hFound, hKnown⟩
    unfold Cache.elementName
    rw [Cache.element_eq_ok_iff.mpr hFound]
    show cache.nameText found.name = _
    unfold Cache.nameText Interner.lookup
    rw [hKnown]
    rfl
  apply Agrees.ask hAbreast
  · rw [hTold _ hAbreast.adds.grown.cache,
      hTold _ hAbreast.adds'.grown.cache]
  · intro _ _
    rfl

/- The name of a class. -/
theorem agrees_class
    (hClass : IsClass start.cache cls) :
    Agrees start
      (fun after after' data data' =>
        SameName after after' data.name data'.name)
      (ask (·.element cls)) (ask (·.element cls)) symbols
      symbols' := by
  rcases hClass.runtimeClass with ⟨data, text, hData, hText⟩
  have hName : HasName start.cache cls text :=
    ⟨data, hData, hText⟩
  exact agrees_named hAbreast
    (hName.mono hAbreast.adds.grown.cache)
    (hName.mono hAbreast.adds'.grown.cache)

/- The declared type of a class. -/
theorem agrees_classType
    (hClass : IsClass start.cache cls) :
    Agrees start (fun _ _ => Eq)
      (Environment.classType cls : CacheM TypeId)
      (Environment.classType cls : CacheM TypeId) symbols
      symbols' := by
  rcases hClass.runtimeClass with ⟨data, text, hData, _⟩
  have hRun : ∀ cache : Cache, start.cache.Grown cache →
      Environment.classType cls cache =
        .ok (data.ty.getD Cache.noType) cache := by
    intro cache hGrown
    rcases hGrown.element? hData with ⟨found, hFound, hKept⟩
    unfold Environment.classType
    rw [run_bind_ok (run_fatal_ok (run_inspectCache_ok
      (Cache.element_eq_ok_iff.mpr hFound))), ← hKept.ty]
    rfl
  have hFirst := hRun _ hAbreast.adds.grown.cache
  have hSecond := hRun _ hAbreast.adds'.grown.cache
  have hHistory := Cache.Changes.isHistory False
  apply Agrees.ofCache hAbreast
  · exact .of_ok hFirst (hHistory.refl _)
  · exact .of_ok hSecond (hHistory.refl _)
  · exact .of_ok hFirst hSecond ⟨hAbreast.types, rfl⟩

end Classes

------------------------------------------------------------
-- Members
------------------------------------------------------------

section Members

variable (hAbreast : Abreast start symbols symbols')

include hAbreast

/-
  A class is asked for a method, be it for another selector.
  Each side finds what it was given from then on.
-/
theorem agrees_runtimeMethod
    (cls : ElementId)
    (selector selector' : String)
    (returnType : TypeId)
    (modifiers : Modifiers)
    (params : List (String × TypeId)) :
    Agrees start
      (fun after after' method method' =>
        after.method? cls selector = some method ∧
          after'.method? cls selector' = some method')
      (runtimeMethod cls selector returnType modifiers params)
      (runtimeMethod cls selector' returnType modifiers params)
      symbols symbols' := by
  rcases run_runtimeMethod symbols cls selector returnType
    modifiers params with ⟨method, after, hRun, hCache, _⟩
  rcases run_runtimeMethod symbols' cls selector' returnType
    modifiers params with ⟨method', after', hRun', hCache', _⟩
  have hChoice := (chooses_runtimeMethod hAbreast.ready cls
    selector returnType modifiers params).run_ok hRun
  have hChoice' := (chooses_runtimeMethod hAbreast.ready' cls
    selector' returnType modifiers params).run_ok hRun'
  have hAdds := adds_runtimeMethod hAbreast.ready hRun
  have hAdds' := adds_runtimeMethod hAbreast.ready' hRun'
  rcases keeps_runtimeMethod hRun with ⟨hTypes, hSizes⟩
  rcases keeps_runtimeMethod hRun' with ⟨hTypes', hSizes'⟩
  refine .of_ok hRun hRun' ⟨?_, hChoice.1, hChoice'.1,
    hChoice.2.2, hChoice'.2.2⟩
  exact {
    adds := Adds.isHistory.trans hAbreast.adds hAdds
    adds' := Adds.isHistory.trans hAbreast.adds' hAdds'
    ready := hChoice.2.1
    ready' := hChoice'.2.1
    distinct := hCache.changes.distinct hAbreast.distinct
    distinct' := hCache'.changes.distinct hAbreast.distinct'
    types := hTypes'.trans (hAbreast.types.trans hTypes.symm)
    sizes := by
      intro other
      unfold sizeField?
      rw [hSizes, hSizes']
      exact hAbreast.sizes other }

/- The field for the size of the arrays of a class. -/
theorem agrees_sizeField
    (table : BindingTable)
    (cls : ElementId) :
    Agrees start
      (fun after after' field field' =>
        after.sizeField? cls = some field ∧
          after'.sizeField? cls = some field')
      (sizeField table cls) (sizeField table cls) symbols
      symbols' := by
  rcases run_sizeField symbols table cls with
    ⟨field, after, hRun, hCache, _⟩
  rcases run_sizeField symbols' table cls with
    ⟨field', after', hRun', hCache', _⟩
  have hChoice := (chooses_sizeField hAbreast.ready table
    cls).run_ok hRun
  have hChoice' := (chooses_sizeField hAbreast.ready' table
    cls).run_ok hRun'
  have hSame := hAbreast.sizes cls
  have hBoth : after.cache.SameTypes after'.cache ∧
      ∀ other, (after.sizeField? other).isSome =
        (after'.sizeField? other).isSome := by
    rcases sizeField_eq_ok hRun with
      ⟨hFound, hMembers, hKept⟩ |
        ⟨hNone, hMade, int, typed, hInt, hTyped⟩
    · rcases sizeField_eq_ok hRun' with
        ⟨_, hMembers', hKept'⟩ | ⟨hNone', _⟩
      · unfold sizeField?
        rw [hKept, hKept', hMembers, hMembers']
        exact ⟨hAbreast.types, hAbreast.sizes⟩
      · rw [hFound, hNone'] at hSame
        cases hSame
    · rcases sizeField_eq_ok hRun' with
        ⟨hFound', _⟩ | ⟨_, hMade', int', typed', hInt', hTyped'⟩
      · rw [hNone, hFound'] at hSame
        cases hSame
      · refine ⟨?_, ?_⟩
        · have hOne := @Cache.SameTypes.primitiveType _ _ table
            hAbreast.types .int
          rw [hInt, hInt'] at hOne
          cases hOne with
          | ok hPost =>
              exact hTyped'.trans (hPost.2.trans hTyped.symm)
        · intro other
          unfold sizeField?
          rw [hMade, hMade', List.lookup_cons, List.lookup_cons]
          split
          · rfl
          · exact hAbreast.sizes other
  refine .of_ok hRun hRun' ⟨?_, hChoice.1, hChoice'.1,
    hChoice.2.2, hChoice'.2.2⟩
  exact {
    adds := Adds.isHistory.trans hAbreast.adds
      (adds_sizeField hAbreast.ready hRun)
    adds' := Adds.isHistory.trans hAbreast.adds'
      (adds_sizeField hAbreast.ready' hRun')
    ready := hChoice.2.1
    ready' := hChoice'.2.1
    distinct := hCache.changes.distinct hAbreast.distinct
    distinct' := hCache'.changes.distinct hAbreast.distinct'
    types := hBoth.1
    sizes := hBoth.2 }

/- The name of a field for a size. -/
theorem agrees_sizeName
    {cls field field' : ElementId}
    (hFound : symbols.sizeField? cls = some field)
    (hFound' : symbols'.sizeField? cls = some field') :
    Agrees start
      (fun after after' data data' =>
        SameName after after' data.name data'.name)
      (ask (·.element field)) (ask (·.element field')) symbols
      symbols' :=
  agrees_named hAbreast
    (hAbreast.ready.sizeFields cls field hFound)
    (hAbreast.ready'.sizeFields cls field' hFound')

end Members

end Symbols

end Lowering
