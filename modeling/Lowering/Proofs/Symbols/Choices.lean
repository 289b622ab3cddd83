import Lowering.Proofs.Symbols.Growth

/-
  This file proves what each step chooses by which lowering
  gets its symbols, and that none of them fails: the runtime
  classes are there, and whatever else is missing is made.

  Main results:
    * `Symbols.chooses_componentType`
    * `Symbols.chooses_arrayClass`
    * `Symbols.chooses_primitiveType`
    * `Symbols.chooses_classType`
-/

namespace Lowering

namespace Symbols

variable {symbols : Symbols} {safe : Prop}

------------------------------------------------------------
-- Names
------------------------------------------------------------

/- A name is that of its text. -/
theorem chooses_intern
    (hReady : symbols.Ready)
    (text : String) :
    Chooses safe (Cache.intern text : CacheM Name) symbols
      (·.name? text) := by
  have hRun : Cache.intern text symbols.cache =
      .ok _ _ := rfl
  apply Chooses.ofCache hReady hRun
  · exact Cache.follows_intern text symbols.cache
  · exact Interner.find?_intern _ _

/- The text of the name of a runtime class. -/
theorem chooses_elementName
    (hReady : symbols.Ready)
    {cls : ElementId}
    (hClass : RuntimeClass symbols.cache cls) :
    Chooses safe (ask (·.elementName cls)) symbols
      fun symbols =>
        symbols.elementName? cls >>= symbols.text? := by
  rcases hClass with ⟨data, text, hData, hText⟩
  have hElement : symbols.cache.element cls = .ok data := by
    unfold Cache.element
    rw [hData]
  have hName : symbols.cache.elementName cls = .ok text := by
    unfold Cache.elementName Cache.nameText Interner.lookup
    simp only [hElement, bind, Except.bind, hText]
    rfl
  apply Chooses.ask hReady
  · intro _
    exact ⟨text, hName⟩
  · intro answer hAnswer
    rw [hName] at hAnswer
    cases hAnswer
    unfold elementName?
    rw [hData]
    exact hText

/- Of a live element, what comes after needs only the name. -/
theorem chooses_ofElement
    {β : Type}
    {id : ElementId}
    {data : ElementData}
    (hData : symbols.cache.elements.get? id.raw = some data)
    {next : ElementData → SymbolM β}
    {lookup : Name → Symbols → Option β}
    (hNext : Chooses safe (next data) symbols
      (lookup data.name)) :
    Chooses safe (ask (·.element id) >>= next) symbols
      fun symbols =>
        symbols.elementName? id >>= fun name =>
          lookup name symbols := by
  have hElement : symbols.cache.element id = .ok data := by
    unfold Cache.element
    rw [hData]
  have hName : symbols.elementName? id = some data.name := by
    unfold elementName?
    rw [hData]
    rfl
  have hRun : ask (·.element id) symbols = .ok data symbols :=
    run_liftCache_ok
      (run_fatal_ok (run_inspectCache_ok hElement))
  unfold Chooses
  rw [run_bind_ok hRun]
  apply Completes.mono hNext
  intro answer later hPost
  rcases hPost with ⟨hGrown, hLater, hFound⟩
  refine ⟨hGrown, hLater, ?_⟩
  exact Option.bind_eq_some_iff.mpr
    ⟨data.name, stable_elementName? id _ _ _ hGrown hName,
      hFound⟩

------------------------------------------------------------
-- Questions About Types
------------------------------------------------------------

section Questions

variable {α : Type} {ty : TypeId} {data : TypeData}

theorem kind?_eq_some
    (hType : symbols.cache.type? ty = some data) :
    symbols.kind? ty = some data.kind := by
  unfold kind?
  rw [hType]
  rfl

/-
  A question about the kind of a type is a choice, and it is
  safe to ask it of a live type.
-/
private theorem chooses_kind
    (hReady : symbols.Ready)
    (hLive : safe → symbols.cache.Live ty)
    (property : TypeKind → α) :
    Chooses safe
      (ask fun cache =>
        return property (← cache.typeData ty).kind)
      symbols fun symbols =>
        (symbols.kind? ty).map property := by
  apply Chooses.ask hReady
  · intro hSafe
    rcases (hLive hSafe).typed with ⟨data, hType⟩
    simp only [Cache.typeData_eq_ok_iff.mpr hType]
    exact ⟨_, rfl⟩
  · intro answer hAnswer
    cases hType : symbols.cache.type? ty with
    | none =>
        unfold Cache.typeData at hAnswer
        simp only [hType] at hAnswer
        exact absurd hAnswer (by nofun)
    | some data =>
        simp only [Cache.typeData_eq_ok_iff.mpr hType] at hAnswer
        cases hAnswer
        rw [kind?_eq_some hType]
        rfl

/- Whether a type is a value primitive. -/
theorem chooses_isPrimitive
    (hReady : symbols.Ready)
    (hLive : safe → symbols.cache.Live ty) :
    Chooses safe (ask (·.isPrimitive ty)) symbols
      fun symbols =>
        (symbols.kind? ty).map (·.isPrimitive) :=
  chooses_kind hReady hLive (·.isPrimitive)

/- The component of a type, if it is an array. -/
theorem chooses_componentType
    (hReady : symbols.Ready)
    (hLive : safe → symbols.cache.Live ty) :
    Chooses safe (ask (·.componentType ty)) symbols
      fun symbols =>
        (symbols.kind? ty).map (·.component?) :=
  chooses_kind hReady hLive (·.component?)

/- A type is named in a refusal. -/
theorem chooses_refuse_display
    (hReady : symbols.Ready)
    (hLive : safe → symbols.cache.Live ty)
    (cause : String → LoweringViolation)
    (lookup : Symbols → Option α) :
    Chooses safe
      (do
        let text ← ask (·.display ty)
        refuse (cause text))
      symbols lookup := by
  have hAsk : Chooses safe (ask (·.display ty)) symbols
      fun symbols => (symbols.cache.display ty).toOption := by
    apply Chooses.ask hReady
    · intro hSafe
      exact (hLive hSafe).display
    · intro answer hAnswer
      rw [hAnswer]
      rfl
  apply Completes.bind hAsk
  intro answer symbols' _
  exact ⟨fun _ => ⟨_, rfl⟩, nofun⟩

/- What is known of the kind of a type can be asked. -/
private theorem run_ask_kind
    {property : TypeKind → α}
    {answer : α}
    (hFound : (symbols.kind? ty).map property = some answer) :
    ask (fun cache =>
        return property (← cache.typeData ty).kind) symbols =
      .ok answer symbols := by
  rcases Option.map_eq_some_iff.mp hFound with
    ⟨kind, hKind, rfl⟩
  rcases Option.map_eq_some_iff.mp hKind with
    ⟨data, hType, rfl⟩
  apply run_ask_ok
  simp only [Cache.typeData_eq_ok_iff.mpr hType]
  rfl

theorem run_ask_isPrimitive
    {primitive : Bool}
    (hFound : (symbols.kind? ty).map (·.isPrimitive) =
      some primitive) :
    ask (·.isPrimitive ty) symbols = .ok primitive symbols :=
  run_ask_kind hFound

theorem run_ask_componentType
    {component : Option TypeId}
    (hFound : (symbols.kind? ty).map (·.component?) =
      some component) :
    ask (·.componentType ty) symbols = .ok component symbols :=
  run_ask_kind hFound

theorem run_ask_nameText
    {name : Name}
    {text : String}
    (hFound : symbols.text? name = some text) :
    ask (·.nameText name) symbols = .ok text symbols := by
  apply run_ask_ok
  have hText : symbols.cache.names.text? name = some text :=
    hFound
  unfold Cache.nameText Interner.lookup
  rw [hText]
  rfl

/- The runtime class of arrays over a component. -/
theorem chooses_arrayClass
    (hReady : symbols.Ready)
    (hLive : safe → symbols.cache.Live ty) :
    Chooses safe (Symbols.arrayClass ty) symbols
      (·.arrayClass? ty) := by
  unfold Symbols.arrayClass
  apply Chooses.environment
  cases hType : symbols.cache.type? ty with
  | none =>
      have hQuestion : ∃ error,
          symbols.cache.primitiveKind ty = .error error := by
        unfold Cache.primitiveKind Cache.typeData
        rw [hType]
        exact ⟨_, rfl⟩
      rcases hQuestion with ⟨error, hQuestion⟩
      have hRun : symbols.env.arrayClass ty symbols.cache =
          .error error.fatal symbols.cache := by
        unfold Environment.arrayClass
        exact run_bind_error
          (run_fatal_error (run_inspectCache_error hQuestion))
      unfold Chooses
      rw [run_liftCache_error hRun]
      refine ⟨?_, LoweringError.ofCache_ne_treeFault _⟩
      intro hSafe
      rcases (hLive hSafe).typed with ⟨data, hTyped⟩
      rw [hType] at hTyped
      exact absurd hTyped (by simp)
  | some data =>
      have hQuestion : symbols.cache.primitiveKind ty =
          .ok data.kind.primitive? := by
        unfold Cache.primitiveKind
        rw [Cache.typeData_eq_ok_iff.mpr hType]
        rfl
      have hRun : ∃ cls,
          symbols.env.arrayClass ty symbols.cache =
              .ok cls symbols.cache ∧
            symbols.arrayClass? ty = some cls := by
        unfold Environment.arrayClass arrayClass?
        rw [run_bind_ok
          (run_fatal_ok (run_inspectCache_ok hQuestion)),
          kind?_eq_some hType, Option.map_some]
        cases data.kind.primitive? with
        | none => exact ⟨_, rfl, rfl⟩
        | some kind => exact ⟨_, rfl, rfl⟩
      rcases hRun with ⟨cls, hRun, hClass⟩
      apply Chooses.ofCache hReady hRun
      · exact .of_ok hRun
          ((Cache.Changes.isHistory False).refl _)
      · exact hClass

/- A value primitive always has a name of its plural. -/
theorem categoryName_eq_ok
    (hPrimitive :
      (symbols.kind? ty).map (·.isPrimitive) = some true) :
    ∃ category,
      symbols.cache.categoryName ty = .ok category ∧
        ((symbols.kind? ty).bind fun kind =>
          kind.primitive?.map (·.category)) =
            some category := by
  rcases Option.map_eq_some_iff.mp hPrimitive with
    ⟨kind, hKind, hIs⟩
  rcases Option.map_eq_some_iff.mp hKind with
    ⟨data, hType, rfl⟩
  cases hCase : data.kind with
  | primitive kind =>
      have hQuestion : symbols.cache.primitiveKind ty =
          .ok (some kind) := by
        unfold Cache.primitiveKind
        rw [Cache.typeData_eq_ok_iff.mpr hType]
        show Except.ok data.kind.primitive? = _
        rw [hCase]
        rfl
      refine ⟨kind.category, ?_, ?_⟩
      · unfold Cache.categoryName
        rw [hQuestion]
        rfl
      · rw [kind?_eq_some hType, hCase]
        rfl
  | _ => simp [hCase, TypeKind.isPrimitive] at hIs

/- The name of the plural of a value primitive. -/
theorem chooses_categoryName
    (hReady : symbols.Ready)
    (hPrimitive :
      (symbols.kind? ty).map (·.isPrimitive) = some true) :
    Chooses safe
      (CacheM.inspect (·.categoryName ty) : CacheM String)
      symbols fun symbols =>
        (symbols.kind? ty).bind fun kind =>
          kind.primitive?.map (·.category) := by
  rcases categoryName_eq_ok hPrimitive with
    ⟨category, hAnswer, hFound⟩
  apply Chooses.inspect hReady
  · intro _
    exact ⟨_, hAnswer⟩
  · intro answer hOk
    rw [hAnswer] at hOk
    cases hOk
    exact hFound

end Questions

------------------------------------------------------------
-- Types
------------------------------------------------------------

theorem run_synthesize
    (kind : TypeKind)
    (cache : Cache) :
    ∃ ty after, Cache.synthesize kind cache = .ok ty after := by
  unfold Cache.synthesize
  rw [run_bind_ok (run_get cache)]
  cases cache.shapes.get? kind with
  | some ty => exact ⟨_, _, rfl⟩
  | none => exact ⟨_, _, rfl⟩

/- The pointer to a type. -/
theorem chooses_pointerType
    (hReady : symbols.Ready)
    (pointee : TypeId) :
    Chooses safe (Cache.pointerType pointee : CacheM TypeId)
      symbols (·.synthetic? (.pointer pointee)) := by
  rcases run_synthesize (.pointer pointee) symbols.cache with
    ⟨ty, cache, hRun⟩
  apply Chooses.ofCache hReady hRun
  · exact (Cache.follows_pointerType pointee _).mono
      fun _ _ hOnly => hOnly.changes
  · exact Cache.shape?_of_synthesize hRun

/- The type of a value primitive. -/
theorem chooses_primitiveType
    (hReady : symbols.Ready)
    (table : BindingTable)
    (kind : PrimitiveKind) :
    Chooses safe
      (Cache.primitiveType table kind : CacheM TypeId) symbols
      (·.primitiveType? kind) := by
  rcases Cache.run_primitiveType table kind symbols.cache with
    ⟨ty, cache, hRun, hFound⟩
  apply Chooses.ofCache hReady hRun
  · exact (Cache.follows_primitiveType False.elim kind _).mono
      fun _ _ hOnly => hOnly.changes
  · exact hFound

/- The type of a value primitive is that primitive. -/
theorem Ready.kind?_of_primitiveType?
    (hReady : symbols.Ready)
    {kind : PrimitiveKind}
    {ty : TypeId}
    (hFound : symbols.primitiveType? kind = some ty) :
    ∃ data,
      symbols.cache.type? ty = some data ∧
        data.kind = .primitive kind ∧
        data.origin = .host (BindingTable.primitive kind) := by
  rcases Cache.get?_of_typeOf? hFound with
    ⟨data, hData, hOrigin, _⟩
  exact ⟨data, hReady.sound.type?_of_get? hData,
    hReady.sound.spelled _ data kind hData hOrigin, hOrigin⟩

/- The type of a value primitive is live. -/
theorem Ready.live_primitiveType?
    (hReady : symbols.Ready)
    {kind : PrimitiveKind}
    {ty : TypeId}
    (hFound : symbols.primitiveType? kind = some ty) :
    symbols.cache.Live ty := by
  rcases hReady.kind?_of_primitiveType? hFound with
    ⟨data, hType, hKind, _⟩
  apply Cache.Live.of_atom hType
  · rw [hKind]
    rfl
  · rw [hKind]
    rfl
  · rw [hKind]
    rfl

/- The declared type of a runtime class. -/
theorem chooses_classType
    (hReady : symbols.Ready)
    {cls : ElementId}
    (hClass : RuntimeClass symbols.cache cls) :
    Chooses safe (Environment.classType cls : CacheM TypeId)
      symbols (·.declaredType? cls) := by
  rcases hClass with ⟨data, text, hData, _⟩
  have hRun : Environment.classType cls symbols.cache =
      .ok (data.ty.getD Cache.noType) symbols.cache := by
    have hElement : symbols.cache.element cls = .ok data := by
      unfold Cache.element
      rw [hData]
    unfold Environment.classType
    rw [run_bind_ok
      (run_fatal_ok (run_inspectCache_ok hElement))]
    rfl
  apply Chooses.ofCache hReady hRun
  · exact .of_ok hRun ((Cache.Changes.isHistory False).refl _)
  · unfold declaredType?
    rw [hData]
    rfl

end Symbols

end Lowering
