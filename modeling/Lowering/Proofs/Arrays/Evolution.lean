import Lowering.Proofs.Arrays.Requests

/-
  This file proves how symbols evolve while lowering chooses
  them: each construct on arrays asks the runtime for what it
  is known to want, and for nothing else. This holds of steps
  that fail as well, up to where they fail.

  Main results:
    * `Arrays.follows_runtimeMethod`
    * `Arrays.follows_initializedFactory`
    * `Arrays.follows_lengthFactory`
    * `Arrays.follows_lengthsFactory`
    * `Arrays.follows_typeTest`
-/

namespace Lowering

namespace Arrays

open Symbols

------------------------------------------------------------
-- Steps On The Cache
------------------------------------------------------------

section Steps

variable {α β : Type}
variable {table : BindingTable}
variable {want : Wanted → Prop}
variable {symbols : Symbols}

/- A step of the cache that only adds elements. -/
theorem follows_ofCache
    {operation : CacheM α}
    (hWorks : Follows (Cache.Works table) operation
      symbols.cache) :
    Follows (Evolved table want)
      (liftM operation : SymbolM α) symbols := by
  cases hRun : operation symbols.cache with
  | ok answer cache =>
      exact .of_ok (run_liftCache_ok hRun)
        (Evolved.ofCache (hWorks.run_ok hRun))
  | error error cache =>
      exact .of_error (run_liftCache_error hRun)
        (Evolved.ofCache (hWorks.run_error hRun))

theorem follows_ask
    (question : Cache → Except CacheError α) :
    Follows (Evolved table want) (ask question) symbols :=
  follows_ofCache
    (Follows.inspect (Cache.Works.isHistory table) _
      _).fatal

/- A choice on the way, after which more is known. -/
theorem follows_choice
    {step : SymbolM α}
    {next : α → SymbolM β}
    {lookup : Symbols → Option α}
    (hStep : Follows (Evolved table want) step symbols)
    (hChooses : Chooses False step symbols lookup)
    (hNext : ∀ answer later,
      symbols.Grown later → later.Ready →
        lookup later = some answer →
          Follows (Evolved table want) (next answer) later) :
    Follows (Evolved table want) (step >>= next) symbols := by
  apply hStep.bind (Evolved.isHistory table want)
  intro answer later hRun
  rcases hChooses.run_ok hRun with ⟨hGrown, hLater, hFound⟩
  exact hNext answer later hGrown hLater hFound

/- Reading the environment changes nothing. -/
theorem follows_environment
    {next : Environment → SymbolM β}
    (hNext : Follows (Evolved table want) (next symbols.env)
      symbols) :
    Follows (Evolved table want) (Symbols.environment >>= next)
      symbols := by
  have hRun : Symbols.environment symbols =
      .ok symbols.env symbols := rfl
  unfold Follows
  rw [run_bind_ok hRun]
  exact hNext

theorem follows_classType (cls : ElementId) :
    Follows (Evolved table want)
      (liftM (Environment.classType cls) : SymbolM TypeId)
      symbols := by
  have hHistory := Cache.Works.isHistory table
  apply follows_ofCache
  unfold Environment.classType
  apply ((Follows.inspect hHistory _ _).fatal).bind hHistory
  intro data cache _
  exact Follows.pure hHistory _ _

theorem follows_primitiveType (kind : PrimitiveKind) :
    Follows (Evolved table want)
      (liftM (Cache.primitiveType table kind) :
        SymbolM TypeId) symbols :=
  follows_ofCache (Cache.works_of_perform (.primitiveType kind)
    ((Cache.follows_primitiveType False.elim kind _).mono
      fun _ _ hTypes => hTypes.adds) rfl)

theorem follows_pointerType (pointee : TypeId) :
    Follows (Evolved table want)
      (liftM (Cache.pointerType pointee) : SymbolM TypeId)
      symbols :=
  follows_ofCache (Cache.works_of_perform (.pointerType pointee)
    ((Cache.follows_pointerType pointee _).mono
      fun _ _ hTypes => hTypes.adds) rfl)

theorem follows_intern (text : String) :
    Follows (Evolved table want)
      (liftM (Cache.intern text) : SymbolM Name) symbols :=
  follows_ofCache (Cache.works_of_perform (.intern (some text))
    ((Cache.typesOnly_intern text _).mono
      fun _ _ hTypes => hTypes.adds) rfl)

theorem follows_arrayType (component : TypeId) :
    Follows (Evolved table want)
      (liftM (Environment.arrayType table component) :
        SymbolM TypeId) symbols := by
  have hHistory := Cache.Works.isHistory table
  apply follows_ofCache
  unfold Environment.arrayType
  apply ((Follows.inspect hHistory _ _).fatal).bind hHistory
  intro binding cache _
  simp only []
  split
  · next id _ =>
    exact (Cache.works_of_perform (.wrapType (.host id))
      ((Cache.typesOnly_wrapHostType False.elim id cache).mono
        fun _ _ hTypes => hTypes.adds) rfl).fatal
  · exact Cache.works_of_perform
      (.syntheticArrayType component)
      ((Cache.follows_syntheticArrayType component cache).mono
        fun _ _ hTypes => hTypes.adds) rfl

theorem follows_arrayClass (component : TypeId) :
    Follows (Evolved table want)
      (Symbols.arrayClass component) symbols := by
  have hHistory := Cache.Works.isHistory table
  unfold Symbols.arrayClass
  apply follows_environment
  apply follows_ofCache
  unfold Environment.arrayClass
  apply ((Follows.inspect hHistory _ _).fatal).bind hHistory
  intro kind cache _
  cases kind with
  | some kind => exact Follows.pure hHistory _ _
  | none => exact Follows.pure hHistory _ _

------------------------------------------------------------
-- Steps On The Members
------------------------------------------------------------

/- A method that is wanted is found or recorded. -/
theorem follows_runtimeMethod
    (hReady : symbols.Ready)
    {wanted : Wanted}
    (request : Request)
    (hWanted : want wanted)
    (hRequest : wanted.request? symbols = some request)
    (returnType : TypeId)
    (modifiers : Modifiers)
    (params : List (String × TypeId))
    (hTypes : params.map (·.2) = request.types) :
    Follows (Evolved table want)
      (runtimeMethod request.cls request.selector returnType
        modifiers params) symbols := by
  rcases run_runtimeMethod symbols request.cls
      request.selector returnType modifiers params with
    ⟨method, after, hRun, hAdds, hMethods⟩
  rcases (chooses_runtimeMethod hReady request.cls
    request.selector returnType modifiers params).run_ok hRun
    with ⟨hGrown, hLater, _⟩
  refine .of_ok hRun ⟨fun hSession => hSession.method hRun,
    hGrown, hAdds, fun _ => hLater, ?_⟩
  intro cls name found hFound
  apply (hMethods cls name found hFound).imp_right
  rintro ⟨rfl, hText, hIs, hParams⟩
  refine ⟨wanted, request, hWanted,
    wanted.stable_request? _ _ _ hGrown hRequest, rfl,
    hText, hIs, ?_⟩
  rw [← hTypes]
  exact hParams

/- A field for a size is no method. -/
theorem follows_sizeField
    (hReady : symbols.Ready)
    (cls : ElementId) :
    Follows (Evolved table want) (sizeField table cls)
      symbols := by
  rcases run_sizeField symbols table cls with
    ⟨field, after, hRun, hAdds, hMethods⟩
  rcases (chooses_sizeField hReady table cls).run_ok hRun with
    ⟨hGrown, hLater, _⟩
  refine .of_ok hRun ⟨fun hSession => hSession.sizeField hRun,
    hGrown, hAdds, fun _ => hLater, ?_⟩
  intro other name method hFound
  left
  rw [← hMethods]
  exact hFound

end Steps

------------------------------------------------------------
-- Constructs
------------------------------------------------------------

section Constructs

variable {want : Wanted → Prop}
variable {symbols : Symbols}
variable {table : BindingTable}

theorem follows_componentOf
    (node : NodeId)
    (array : TypeId) :
    Follows (Evolved table want) (componentOf node array)
      symbols := by
  have hHistory := Evolved.isHistory table want
  unfold componentOf
  apply (follows_ask _).bind hHistory
  intro found later _
  cases found with
  | some component => exact Follows.pure hHistory _ _
  | none =>
      apply (follows_ask _).bind hHistory
      intro text latest _
      exact Follows.throw hHistory _ _

theorem follows_innermostComponent
    (node : NodeId)
    (array : TypeId)
    (dimensions depth : Nat) :
    Follows (Evolved table want)
      (innermostComponent node array dimensions depth)
      symbols := by
  have hHistory := Evolved.isHistory table want
  induction depth with
  | zero => exact Follows.pure hHistory _ _
  | succ depth ih =>
      unfold innermostComponent
      apply ih.bind hHistory
      intro outer later _
      apply (follows_ask _).bind hHistory
      intro found latest _
      cases found with
      | some component => exact Follows.pure hHistory _ _
      | none =>
          apply (follows_ask _).bind hHistory
          intro text last _
          exact Follows.throw hHistory _ _

theorem follows_classObject (literal : TypeId) :
    Follows (Evolved table want) (classObject literal)
      symbols := by
  have hHistory := Evolved.isHistory table want
  unfold classObject
  apply follows_environment
  apply (follows_classType _).bind hHistory
  intro ty later _
  exact Follows.pure hHistory _ _

theorem follows_className (cls : ElementId) :
    Follows (Evolved table want) (className cls) symbols := by
  have hHistory := Evolved.isHistory table want
  unfold className
  apply (follows_ask _).bind hHistory
  intro data later _
  apply (follows_classType cls).bind hHistory
  intro ty latest _
  exact Follows.pure hHistory _ _

private theorem follows_factoryParams
    (params : List (String × TypeId))
    (primitive : Bool) :
    Follows (Evolved table want) (factoryParams params primitive)
      symbols := by
  have hHistory := Evolved.isHistory table want
  unfold factoryParams
  cases primitive with
  | true => exact Follows.pure hHistory _ _
  | false =>
      apply follows_environment
      apply (follows_classType _).bind hHistory
      intro ty later _
      exact Follows.pure hHistory _ _

private theorem follows_factoryObject
    (component : TypeId)
    (primitive : Bool) :
    Follows (Evolved table want)
      (factoryObject component primitive) symbols := by
  have hHistory := Evolved.isHistory table want
  unfold factoryObject
  cases primitive with
  | true => exact Follows.pure hHistory _ _
  | false =>
      apply (follows_classObject component).bind hHistory
      intro object later _
      exact Follows.pure hHistory _ _

/- The types of the parameters of a factory. -/
private theorem types_factoryParams
    {params answer : List (String × TypeId)}
    {primitive : Bool}
    (hFound :
      (if primitive then
        some params
      else
        (iosClassType? symbols).map fun ty =>
          params ++ [("type", ty)]) = some answer) :
    ∃ object,
      objectTypes? symbols primitive = some object ∧
        answer.map (·.2) = params.map (·.2) ++ object := by
  unfold objectTypes?
  cases primitive with
  | true =>
      cases hFound
      exact ⟨[], rfl, (List.append_nil _).symm⟩
  | false =>
      rcases Option.map_eq_some_iff.mp hFound with
        ⟨ty, hTy, rfl⟩
      refine ⟨[ty], ?_, by simp⟩
      exact Option.map_eq_some_iff.mpr ⟨ty, hTy, rfl⟩

/- The method of a factory, once its class is chosen. -/
private theorem follows_factoryMethod
    (hReady : symbols.Ready)
    {wanted : Wanted}
    (hWanted : want wanted)
    {component : TypeId}
    {cls : ElementId}
    {form : CreationForm}
    {retained primitive : Bool}
    {types object : List TypeId}
    (hClass : symbols.arrayClass? component = some cls)
    (hObject : objectTypes? symbols primitive = some object)
    (hRequest : wanted.request? symbols =
      factoryRequest? symbols component form retained primitive
        types)
    {params : List (String × TypeId)}
    (hTypes : params.map (·.2) = types ++ object)
    (returnType : TypeId) :
    Follows (Evolved table want)
      (runtimeMethod cls (form.selector retained primitive)
        returnType .publicStatic params) symbols := by
  have hAsked : wanted.request? symbols = some {
      cls
      selector := form.selector retained primitive
      types := types ++ object } := by
    rw [hRequest]
    unfold factoryRequest?
    rw [hClass, hObject]
    rfl
  exact follows_runtimeMethod hReady _ hWanted hAsked returnType
    .publicStatic params hTypes

/- The last steps by which a factory is chosen. -/
private theorem follows_factory
    (hReady : symbols.Ready)
    {wanted : Wanted}
    (hWanted : want wanted)
    {component int : TypeId}
    {cls : ElementId}
    {form : CreationForm}
    {retained primitive : Bool}
    {types : List TypeId}
    (hClass : symbols.arrayClass? component = some cls)
    (hRequest : ∀ later,
      symbols.Grown later →
        wanted.request? later =
          factoryRequest? later component form retained
            primitive types)
    {params : List (String × TypeId)}
    (hTypes : params.map (·.2) = types)
    (array : TypeId) :
    Follows (Evolved table want)
      (do
        let params ← factoryParams params primitive
        let classType ← Environment.classType cls
        let method ← runtimeMethod cls
          (form.selector retained primitive)
          classType .publicStatic params
        let object ← factoryObject component primitive
        let receiver ← className cls
        return ({
          call := { method, receiver, ty := array }
          int
          object } : Factory)) symbols := by
  have hHistory := Evolved.isHistory table want
  have hRuntime := hReady.arrayClass hClass
  apply follows_choice (follows_factoryParams _ _)
    (chooses_factoryParams hReady params primitive)
  intro answer first hGrown hFirst hParams
  rcases types_factoryParams hParams with
    ⟨object, hObject, hAnswer⟩
  apply follows_choice (follows_classType cls)
    (chooses_classType hFirst (hRuntime.mono hGrown.cache))
  intro classType second hGrown₂ hSecond _
  have hLater := hGrown.trans hGrown₂
  rw [hTypes] at hAnswer
  apply (follows_factoryMethod hSecond hWanted
    (stable_arrayClass? component _ _ _ hLater hClass)
    (stable_objectTypes? primitive _ _ _ hGrown₂ hObject)
    (hRequest second hLater) hAnswer classType).bind hHistory
  intro method third _
  apply (follows_factoryObject component primitive).bind
    hHistory
  intro object fourth _
  apply (follows_className cls).bind hHistory
  intro receiver last _
  exact Follows.pure hHistory _ _

/-
  Only the factory of given elements is asked for. Once their
  sort is known, the rest is the same for all.
-/
theorem follows_initializedFactory
    (hReady : symbols.Ready)
    (node : NodeId)
    (array : TypeId)
    (retained : Bool)
    (hWanted : want (.elements array retained)) :
    Follows (Evolved table want)
      (initializedFactory table node array retained)
      symbols := by
  unfold initializedFactory
  apply follows_choice (follows_componentOf node array)
    (chooses_componentOf hReady node False.elim)
  intro component first _ hFirst hComponent
  apply follows_choice (follows_ask _)
    (chooses_isPrimitive hFirst False.elim)
  intro primitive second hGrown₂ hSecond hPrimitive
  apply follows_choice (follows_arrayClass component)
    (chooses_arrayClass hSecond False.elim)
  intro cls third hGrown₃ hThird hClass
  have hPrimitive₃ := stable_isPrimitive? component _ _ _
    hGrown₃ hPrimitive
  have hRest : ∀ category fourth,
      third.Grown fourth → fourth.Ready →
        category? fourth component primitive = some category →
          Follows (Evolved table want)
            (do
              let values ← Cache.pointerType component
              let int ← Environment.intType table
              let params ← factoryParams
                [("values", values), ("count", int)] primitive
              let classType ← Environment.classType cls
              let method ← runtimeMethod cls
                ((CreationForm.elements category).selector
                  retained primitive)
                classType .publicStatic params
              let object ← factoryObject component primitive
              let receiver ← className cls
              return ({
                call := { method, receiver, ty := array }
                int
                object } : Factory)) fourth := by
    intro category fourth hGrown₄ hFourth hCategory
    apply follows_choice (follows_pointerType component)
      (chooses_pointerType hFourth component)
    intro values fifth hGrown₅ hFifth hValues
    apply follows_choice (follows_primitiveType .int)
      (chooses_primitiveType hFifth table .int)
    intro int sixth hGrown₆ hSixth hInt
    have hLater := (hGrown₄.trans hGrown₅).trans hGrown₆
    apply follows_factory hSixth hWanted
      (stable_arrayClass? component _ _ _ hLater hClass) ?_ rfl
    intro later hLast
    have hFrom₄ := hLater.trans hLast
    have hFrom₅ := hGrown₅.trans (hGrown₆.trans hLast)
    exact request?_elements
      (stable_component? array _ _ _
        (hGrown₂.trans (hGrown₃.trans hFrom₄)) hComponent)
      (stable_isPrimitive? component _ _ _ hFrom₄ hPrimitive₃)
      (stable_category? component primitive _ _ _ hFrom₅
        hCategory)
      (stable_synthetic? _ _ _ _ (hGrown₆.trans hLast) hValues)
      (stable_primitiveType? .int _ _ _ hLast hInt)
  cases primitive with
  | true =>
      apply follows_choice
        (follows_ofCache
          (Follows.inspect (Cache.Works.isHistory table) _ _))
        (chooses_categoryName hThird hPrimitive₃)
      intro category fourth hGrown₄ hFourth hCategory
      exact hRest category fourth hGrown₄ hFourth hCategory
  | false =>
      exact hRest "Objects" third (Grown.refl third) hThird rfl

/- Only the factory of one length is asked for. -/
theorem follows_lengthFactory
    (hReady : symbols.Ready)
    (node : NodeId)
    (array : TypeId)
    (retained : Bool)
    (hWanted : want (.length array retained)) :
    Follows (Evolved table want)
      (lengthFactory table node array retained) symbols := by
  unfold lengthFactory
  apply follows_choice (follows_componentOf node array)
    (chooses_componentOf hReady node False.elim)
  intro component first _ hFirst hComponent
  apply follows_choice (follows_ask _)
    (chooses_isPrimitive hFirst False.elim)
  intro primitive second hGrown₂ hSecond hPrimitive
  apply follows_choice (follows_arrayClass component)
    (chooses_arrayClass hSecond False.elim)
  intro cls third hGrown₃ hThird hClass
  apply follows_choice (follows_primitiveType .int)
    (chooses_primitiveType hThird table .int)
  intro int fourth hGrown₄ hFourth hInt
  apply follows_factory hFourth hWanted
    (stable_arrayClass? component _ _ _ hGrown₄ hClass) ?_ rfl
  intro later hLast
  have hFrom₃ := hGrown₃.trans (hGrown₄.trans hLast)
  exact request?_length
    (stable_component? array _ _ _ (hGrown₂.trans hFrom₃)
      hComponent)
    (stable_isPrimitive? component _ _ _ hFrom₃ hPrimitive)
    (stable_primitiveType? .int _ _ _ hLast hInt)

/- Only the factory of nested arrays is asked for. -/
theorem follows_lengthsFactory
    (hReady : symbols.Ready)
    (node : NodeId)
    (array : TypeId)
    (dimensions : Nat)
    (retained : Bool)
    (hWanted : want (.lengths array dimensions retained)) :
    Follows (Evolved table want)
      (lengthsFactory table node array dimensions retained)
      symbols := by
  have hHistory := Evolved.isHistory table want
  unfold lengthsFactory
  apply follows_choice
    (follows_innermostComponent node array _ _)
    (chooses_innermostComponent hReady node False.elim _ _)
  intro component first _ hFirst hComponent
  apply follows_choice (follows_ask _)
    (chooses_isPrimitive hFirst False.elim)
  intro primitive second hGrown₂ hSecond hPrimitive
  apply follows_choice (follows_arrayClass component)
    (chooses_arrayClass hSecond False.elim)
  intro cls third hGrown₃ hThird hClass
  apply follows_choice (follows_primitiveType .int)
    (chooses_primitiveType hThird table .int)
  intro int fourth hGrown₄ hFourth hInt
  apply follows_choice (follows_pointerType int)
    (chooses_pointerType hFourth int)
  intro lengths fifth hGrown₅ hFifth hLengths
  apply follows_choice (follows_factoryParams _ _)
    (chooses_factoryParams hFifth _ primitive)
  intro params sixth hGrown₆ hSixth hParams
  rcases types_factoryParams hParams with
    ⟨object, hObject, hTypes⟩
  apply follows_environment
  apply follows_choice (follows_classType _)
    (chooses_classType hSixth hSixth.objectArray)
  intro arrayType seventh hGrown₇ hSeventh _
  have hFrom₆ := hGrown₆.trans hGrown₇
  have hFrom₅ := hGrown₅.trans hFrom₆
  have hFrom₄ := hGrown₄.trans hFrom₅
  have hFrom₃ := hGrown₃.trans hFrom₄
  have hRequest := @request?_lengths _ _ _ _ _ retained _ _
    (stable_innermost? array dimensions _ _ _
      (hGrown₂.trans hFrom₃) hComponent)
    (stable_isPrimitive? component _ _ _ hFrom₃ hPrimitive)
    (stable_primitiveType? .int _ _ _ hFrom₅ hInt)
    (stable_synthetic? _ _ _ _ hFrom₆ hLengths)
  apply (follows_factoryMethod hSeventh hWanted
    (stable_arrayClass? component _ _ _ hFrom₄ hClass)
    (stable_objectTypes? primitive _ _ _ hGrown₇ hObject)
    hRequest hTypes arrayType).bind hHistory
  intro method eighth _
  apply (follows_arrayType int).bind hHistory
  intro lengthsType ninth _
  apply (follows_factoryObject component primitive).bind
    hHistory
  intro object tenth _
  apply (follows_className cls).bind hHistory
  intro receiver last _
  exact Follows.pure hHistory _ _

/- A type test asks for nothing else. -/
theorem follows_typeTest
    (hReady : symbols.Ready)
    (ty : TypeId)
    (hWanted : want .test) :
    Follows (Evolved table want) (typeTest table ty) symbols := by
  have hHistory := Evolved.isHistory table want
  unfold typeTest
  apply follows_environment
  apply follows_choice (follows_primitiveType .boolean)
    (chooses_primitiveType hReady table .boolean)
  intro boolean first hGrown hFirst _
  have hAsked : Wanted.test.request? first = some {
      cls := symbols.env.iosClass
      selector := "isInstance"
      types := [symbols.env.idType] } := by
    unfold Wanted.request?
    simp only [hGrown.iosClass, hGrown.idType]
  apply (follows_runtimeMethod hFirst _ hWanted hAsked boolean
    .onlyPublic [("object", symbols.env.idType)] rfl).bind
      hHistory
  intro method second _
  apply (follows_classObject ty).bind hHistory
  intro object third _
  exact Follows.pure hHistory _ _

------------------------------------------------------------
-- Constructs Without Methods
------------------------------------------------------------

theorem follows_isObjectArray (ty : TypeId) :
    Follows (Evolved table want) (isObjectArray ty) symbols := by
  have hHistory := Evolved.isHistory table want
  unfold isObjectArray
  apply (follows_ask _).bind hHistory
  intro found later _
  cases found with
  | none => exact Follows.pure hHistory _ _
  | some component =>
      apply (follows_ask _).bind hHistory
      intro primitive latest _
      exact Follows.pure hHistory _ _

theorem follows_isLength (identifier : Name) :
    Follows (Evolved table want) (isLength identifier)
      symbols := by
  have hHistory := Evolved.isHistory table want
  unfold isLength
  apply (follows_ask _).bind hHistory
  intro text later _
  exact Follows.pure hHistory _ _

theorem follows_elementAccess
    (component : TypeId)
    (assigned : Bool) :
    Follows (Evolved table want)
      (elementAccess table component assigned) symbols := by
  have hHistory := Evolved.isHistory table want
  unfold elementAccess
  apply (follows_arrayClass component).bind hHistory
  intro cls first _
  apply (follows_ask _).bind hHistory
  intro clsName second _
  have hRest (form : String × TypeId × TypeId)
      (later : Symbols) :
      Follows (Evolved table want)
        (do
          let classType ← Environment.classType cls
          let int ← Environment.intType table
          let name ← Cache.intern form.1
          let function : FunctionRef :=
            { name
              returnType := form.2.2
              declaring := cls
              params := [classType, int] }
          let target :=
            if assigned then some component else none
          return { function, ty := form.2.1, target } :
            SymbolM ElementAccess) later := by
    apply (follows_classType cls).bind hHistory
    intro classType third _
    apply (follows_primitiveType .int).bind hHistory
    intro int fourth _
    apply (follows_intern form.1).bind hHistory
    intro name last _
    exact Follows.pure hHistory _ _
  apply (follows_ask _).bind hHistory
  intro primitive third _
  cases assigned with
  | true =>
      apply (follows_pointerType component).bind hHistory
      intro pointer fourth _
      exact hRest (_, pointer, pointer) fourth
  | false =>
      cases primitive with
      | true => exact hRest (_, component, component) third
      | false =>
          apply follows_environment
          exact hRest (_, component, third.env.idType) third

theorem follows_storeFunction (consumes : Bool) :
    Follows (Evolved table want) (storeFunction table consumes)
      symbols := by
  have hHistory := Evolved.isHistory table want
  unfold storeFunction
  apply follows_environment
  apply (follows_classType _).bind hHistory
  intro arrayType first _
  apply (follows_primitiveType .int).bind hHistory
  intro int second _
  apply (follows_intern _).bind hHistory
  intro name last _
  exact Follows.pure hHistory _ _

theorem follows_sizeAccess
    (hReady : symbols.Ready)
    (component : TypeId) :
    Follows (Evolved table want) (sizeAccess table component)
      symbols := by
  have hHistory := Evolved.isHistory table want
  unfold sizeAccess
  apply follows_choice (follows_arrayClass component)
    (chooses_arrayClass hReady False.elim)
  intro cls first _ hFirst _
  apply (follows_sizeField hFirst cls).bind hHistory
  intro field second _
  apply (follows_primitiveType .int).bind hHistory
  intro int third _
  apply (follows_ask _).bind hHistory
  intro data last _
  exact Follows.pure hHistory _ _

end Constructs

end Arrays

end Lowering
