import Lowering.Arrays.Pass
import Lowering.Proofs.Symbols.Members

/-
  This file defines, for each piece of lowered array code, how
  its symbols are looked up, and proves that these are the
  symbols that lowering chooses for it.

  A lookup reads symbols that are there; a step of lowering
  makes those that are not. What a step chooses is found by
  the lookup in the end, and is still found later.

  Key definitions include:
    * `Arrays.component?`
    * `Arrays.innermost?`
    * `Arrays.elementAccess?`
    * `Arrays.storeFunction?`
    * `Arrays.sizeAccess?`
    * `Arrays.typeTest?`
    * `Arrays.initializedFactory?`
    * `Arrays.lengthFactory?`
    * `Arrays.lengthsFactory?`

  Main results:
    * `Arrays.chooses_elementAccess`
    * `Arrays.chooses_storeFunction`
    * `Arrays.chooses_sizeAccess`
    * `Arrays.chooses_typeTest`
    * `Arrays.chooses_initializedFactory`
    * `Arrays.chooses_lengthFactory`
    * `Arrays.chooses_lengthsFactory`
-/

namespace Lowering

namespace Arrays

open Symbols

------------------------------------------------------------
-- Lookups
------------------------------------------------------------

section Lookups

variable (symbols : Symbols) (table : BindingTable)

/- Whether a type is a value primitive. -/
def isPrimitive? (ty : TypeId) : Option Bool :=
  (symbols.kind? ty).map (·.isPrimitive)

/- The component of a type, if it is an array. -/
def componentType? (ty : TypeId) : Option (Option TypeId) :=
  (symbols.kind? ty).map (·.component?)

/- The component of an array type. -/
def component? (array : TypeId) : Option TypeId := do
  let component ← componentType? symbols array
  component

/- The component left when an array is indexed some times. -/
def innermost? (array : TypeId) : Nat → Option TypeId
  | 0 => some array
  | depth + 1 => do
    let outer ← innermost? array depth
    component? symbols outer

/- The text of the name of an element. -/
def elementText? (element : ElementId) : Option String := do
  let name ← symbols.elementName? element
  symbols.text? name

/- The type of class objects. -/
def iosClassType? : Option TypeId :=
  symbols.declaredType? symbols.env.iosClass

/- The symbols of the name of a runtime class. -/
def className? (cls : ElementId) : Option ClassName := do
  let name ← symbols.elementName? cls
  let ty ← symbols.declaredType? cls
  return { cls, name, ty }

/- The symbols of the class object of a type. -/
def classObject? (literal : TypeId) : Option ClassObject := do
  let ty ← iosClassType? symbols
  return { literal, ty }

/-
  How an element is reached: the end of the name of the
  function, the type of its call, and its declared type.
-/
def accessForm?
    (component : TypeId)
    (assigned primitive : Bool) :
    Option (String × TypeId × TypeId) :=
  if assigned then do
    let pointer ← symbols.synthetic? (.pointer component)
    some ("_GetRef", pointer, pointer)
  else
    let declared :=
      if primitive then component else symbols.env.idType
    some ("_Get", component, declared)

/- The symbols of an access to an element. -/
def elementAccess?
    (component : TypeId)
    (assigned : Bool) : Option ElementAccess := do
  let cls ← symbols.arrayClass? component
  let clsName ← elementText? symbols cls
  let primitive ← isPrimitive? symbols component
  let form ← accessForm? symbols component assigned primitive
  let classType ← symbols.declaredType? cls
  let int ← symbols.primitiveType? .int
  let name ← symbols.name? (clsName ++ form.1)
  let function : FunctionRef :=
    { name
      returnType := form.2.2
      declaring := cls
      params := [classType, int] }
  let target := if assigned then some component else none
  return { function, ty := form.2.1, target }

/- The name of the function that stores an object. -/
def storeName (consumes : Bool) : String :=
  if consumes then
    "IOSObjectArray_SetAndConsume"
  else
    "IOSObjectArray_Set"

/- The function that stores an object. -/
def storeFunction? (consumes : Bool) : Option FunctionRef := do
  let arrayType ← symbols.declaredType? symbols.env.objectArray
  let int ← symbols.primitiveType? .int
  let name ← symbols.name? (storeName consumes)
  return {
    name
    returnType := symbols.env.idType
    declaring := symbols.env.objectArray
    params := [arrayType, int, symbols.env.idType] }

/- The symbols of an access to the size of an array. -/
def sizeAccess? (component : TypeId) : Option SizeAccess := do
  let cls ← symbols.arrayClass? component
  let field ← symbols.sizeField? cls
  let int ← symbols.primitiveType? .int
  let name ← symbols.elementName? field
  return { field, name, int }

/- Whether a type is an array over no value primitive. -/
def isObjectArray? (ty : TypeId) : Option Bool := do
  match ← componentType? symbols ty with
  | some component => return !(← isPrimitive? symbols component)
  | none => return false

/- The symbols of a test against an array type. -/
def typeTest? (ty : TypeId) : Option TypeTest := do
  let boolean ← symbols.primitiveType? .boolean
  let method ←
    symbols.method? symbols.env.iosClass "isInstance"
  let object ← classObject? symbols ty
  return { method, boolean, object }

/- The symbols of the last argument of a factory. -/
def factoryObject?
    (component : TypeId)
    (primitive : Bool) : Option (Option ClassObject) :=
  if primitive then
    some none
  else
    (classObject? symbols component).map some

/- The factory with a selector for arrays over a component. -/
def factory?
    (array component : TypeId)
    (selector : String)
    (primitive : Bool) : Option Factory := do
  let cls ← symbols.arrayClass? component
  let int ← symbols.primitiveType? .int
  let method ← symbols.method? cls selector
  let object ← factoryObject? symbols component primitive
  let receiver ← className? symbols cls
  return { call := { method, receiver, ty := array }, int, object }

/- The plural of the sort of elements of an array. -/
def category?
    (component : TypeId)
    (primitive : Bool) : Option String :=
  if primitive then
    (symbols.kind? component).bind fun kind =>
      kind.primitive?.map (·.category)
  else
    some "Objects"

/- The factory of arrays of given elements. -/
def initializedFactory?
    (array : TypeId)
    (retained : Bool) : Option Factory := do
  let component ← component? symbols array
  let primitive ← isPrimitive? symbols component
  let category ← category? symbols component primitive
  factory? symbols array component
    ((CreationForm.elements category).selector
      retained primitive) primitive

/- The factory of arrays of one length. -/
def lengthFactory?
    (array : TypeId)
    (retained : Bool) : Option Factory := do
  let component ← component? symbols array
  let primitive ← isPrimitive? symbols component
  factory? symbols array component
    (CreationForm.length.selector retained primitive) primitive

/- The factory of nested arrays of several lengths. -/
def lengthsFactory?
    (array : TypeId)
    (dimensions : Nat)
    (retained : Bool) : Option NestedFactory := do
  let component ← innermost? symbols array dimensions
  let primitive ← isPrimitive? symbols component
  let factory ← factory? symbols array component
    (CreationForm.lengths.selector retained primitive) primitive
  let lengths ← symbols.intArrayType? table factory.int
  return { toFactory := factory, lengths }

end Lookups

------------------------------------------------------------
-- Stability
------------------------------------------------------------

section Stability

theorem stable_isPrimitive? (ty : TypeId) :
    Stable (isPrimitive? · ty) :=
  (stable_kind? ty).map _

theorem stable_componentType? (ty : TypeId) :
    Stable (componentType? · ty) :=
  (stable_kind? ty).map _

theorem stable_component? (array : TypeId) :
    Stable (component? · array) :=
  (stable_componentType? array).bind fun component =>
    stable_pure component

theorem stable_innermost? (array : TypeId) (depth : Nat) :
    Stable (innermost? · array depth) := by
  induction depth with
  | zero => exact stable_pure (some array)
  | succ depth ih =>
      exact ih.bind fun outer => stable_component? outer

theorem stable_elementText? (element : ElementId) :
    Stable (elementText? · element) :=
  (stable_elementName? element).bind fun name =>
    stable_text? name

theorem stable_iosClassType? : Stable iosClassType? := by
  intro before after ty hGrown hFound
  unfold iosClassType? at hFound ⊢
  rw [hGrown.iosClass]
  exact stable_declaredType? _ _ _ _ hGrown hFound

theorem stable_className? (cls : ElementId) :
    Stable (className? · cls) :=
  (stable_elementName? cls).bind fun _ =>
    (stable_declaredType? cls).bind fun _ => stable_pure _

theorem stable_classObject? (literal : TypeId) :
    Stable (classObject? · literal) :=
  stable_iosClassType?.bind fun _ => stable_pure _

theorem stable_accessForm?
    (component : TypeId)
    (assigned primitive : Bool) :
    Stable (accessForm? · component assigned primitive) := by
  unfold accessForm?
  cases assigned with
  | true =>
      exact (stable_synthetic? _).bind fun _ => stable_pure _
  | false =>
      intro before after form hGrown hFound
      simp only [hGrown.idType]
      exact hFound

theorem stable_elementAccess?
    (component : TypeId)
    (assigned : Bool) :
    Stable (elementAccess? · component assigned) :=
  (stable_arrayClass? component).bind fun cls =>
    (stable_elementText? cls).bind fun _ =>
    (stable_isPrimitive? component).bind fun primitive =>
    (stable_accessForm? component assigned primitive).bind
      fun _ =>
    (stable_declaredType? cls).bind fun _ =>
    (stable_primitiveType? .int).bind fun _ =>
    (stable_name? _).bind fun _ => stable_pure _

theorem stable_storeFunction? (consumes : Bool) :
    Stable (storeFunction? · consumes) := by
  intro before after function hGrown hFound
  unfold storeFunction? at hFound ⊢
  simp only [hGrown.objectArray, hGrown.idType]
  have hStable := (stable_declaredType?
    before.env.objectArray).bind fun arrayType =>
      (stable_primitiveType? .int).bind fun int =>
      (stable_name? (storeName consumes)).bind fun name =>
      stable_pure (some ({
        name
        returnType := before.env.idType
        declaring := before.env.objectArray
        params := [arrayType, int, before.env.idType] } :
          FunctionRef))
  exact hStable _ _ _ hGrown hFound

/- The function that stores is known by its name. -/
theorem text_of_storeFunction?
    {symbols : Symbols}
    {consumes : Bool}
    {function : FunctionRef}
    (hFunction : storeFunction? symbols consumes =
      some function) :
    symbols.text? function.name = some (storeName consumes) := by
  unfold storeFunction? at hFunction
  simp only [Option.bind_eq_bind, Option.bind_eq_some_iff]
    at hFunction
  rcases hFunction with ⟨_, _, _, _, name, hName, hLast⟩
  cases hLast
  exact Interner.text?_of_find? hName

theorem stable_sizeAccess? (component : TypeId) :
    Stable (sizeAccess? · component) :=
  (stable_arrayClass? component).bind fun cls =>
    (stable_sizeField? cls).bind fun field =>
    (stable_primitiveType? .int).bind fun _ =>
    (stable_elementName? field).bind fun _ => stable_pure _

theorem stable_isObjectArray? (ty : TypeId) :
    Stable (isObjectArray? · ty) := by
  apply (stable_componentType? ty).bind
  intro found
  cases found with
  | none => exact stable_pure _
  | some component =>
      exact (stable_isPrimitive? component).bind fun _ =>
        stable_pure _

theorem stable_typeTest? (ty : TypeId) :
    Stable (typeTest? · ty) := by
  apply (stable_primitiveType? .boolean).bind
  intro boolean before after test hGrown hFound
  simp only [hGrown.iosClass]
  have hStable :=
    (stable_method? before.env.iosClass "isInstance").bind
      fun method => (stable_classObject? ty).bind fun object =>
        stable_pure (some (⟨method, boolean, object⟩ :
          TypeTest))
  exact hStable _ _ _ hGrown hFound

theorem stable_factoryObject?
    (component : TypeId)
    (primitive : Bool) :
    Stable (factoryObject? · component primitive) := by
  unfold factoryObject?
  cases primitive with
  | true => exact stable_pure _
  | false => exact (stable_classObject? component).map _

theorem stable_factory?
    (array component : TypeId)
    (selector : String)
    (primitive : Bool) :
    Stable (factory? · array component selector primitive) :=
  (stable_arrayClass? component).bind fun cls =>
    (stable_primitiveType? .int).bind fun _ =>
    (stable_method? cls selector).bind fun _ =>
    (stable_factoryObject? component primitive).bind fun _ =>
    (stable_className? cls).bind fun _ => stable_pure _

theorem stable_category?
    (component : TypeId)
    (primitive : Bool) :
    Stable (category? · component primitive) := by
  unfold category?
  cases primitive with
  | true =>
      exact (stable_kind? component).bind fun _ =>
        stable_pure _
  | false => exact stable_pure _

theorem stable_initializedFactory?
    (array : TypeId)
    (retained : Bool) :
    Stable (initializedFactory? · array retained) :=
  (stable_component? array).bind fun component =>
    (stable_isPrimitive? component).bind fun primitive =>
    (stable_category? component primitive).bind fun _ =>
    stable_factory? array component _ primitive

theorem stable_lengthFactory?
    (array : TypeId)
    (retained : Bool) :
    Stable (lengthFactory? · array retained) :=
  (stable_component? array).bind fun component =>
    (stable_isPrimitive? component).bind fun primitive =>
    stable_factory? array component _ primitive

theorem stable_lengthsFactory?
    (table : BindingTable)
    (array : TypeId)
    (dimensions : Nat)
    (retained : Bool) :
    Stable (lengthsFactory? · table array dimensions
      retained) :=
  (stable_innermost? array dimensions).bind fun component =>
    (stable_isPrimitive? component).bind fun primitive =>
    (stable_factory? array component _ primitive).bind
      fun factory =>
        (stable_intArrayType? table factory.int).bind fun _ =>
        stable_pure _

end Stability

------------------------------------------------------------
-- Choices For Types
------------------------------------------------------------

variable {symbols : Symbols} {safe : Prop}

theorem live_component?
    {array component : TypeId}
    (hLive : symbols.cache.Live array)
    (hFound : component? symbols array = some component) :
    symbols.cache.Live component := by
  unfold component? componentType? kind? at hFound
  rcases Option.bind_eq_some_iff.mp hFound with
    ⟨found, hKind, hComponent⟩
  rcases Option.map_eq_some_iff.mp hKind with
    ⟨kind, hData, hIs⟩
  rcases Option.map_eq_some_iff.mp hData with
    ⟨data, hType, rfl⟩
  apply hLive.component hType
  rw [hIs]
  exact hComponent

/- The component of the array type of a node. -/
theorem chooses_componentOf
    (hReady : symbols.Ready)
    (node : NodeId)
    {array : TypeId}
    (hLive : safe → symbols.cache.Live array) :
    Chooses safe (componentOf node array) symbols
      (component? · array) := by
  unfold componentOf component?
  apply Chooses.bind (stable_componentType? array)
    (chooses_componentType hReady hLive)
  intro found later hGrown hLater _
  cases found with
  | some component => exact Chooses.pure hLater rfl
  | none =>
      exact chooses_refuse_display hLater
        (fun hSafe => (hLive hSafe).mono hGrown.cache) _ _

theorem live_innermost?
    {array component : TypeId}
    (hLive : symbols.cache.Live array)
    (depth : Nat)
    (hFound : innermost? symbols array depth =
      some component) :
    symbols.cache.Live component := by
  induction depth generalizing component with
  | zero =>
      rw [← Option.some.inj hFound]
      exact hLive
  | succ depth ih =>
      rcases Option.bind_eq_some_iff.mp hFound with
        ⟨outer, hOuter, hInner⟩
      exact live_component? (ih hOuter) hInner

/- The component that is left by a number of dimensions. -/
theorem chooses_innermostComponent
    (hReady : symbols.Ready)
    (node : NodeId)
    {array : TypeId}
    (hLive : safe → symbols.cache.Live array)
    (dimensions depth : Nat) :
    Chooses safe
      (innermostComponent node array dimensions depth)
      symbols (innermost? · array depth) := by
  induction depth with
  | zero => exact Chooses.pure hReady rfl
  | succ depth ih =>
      unfold innermostComponent innermost?
      apply Chooses.bind (stable_innermost? array depth) ih
      intro outer later hGrown hLater hOuter
      have hStill : safe → later.cache.Live array :=
        fun hSafe => (hLive hSafe).mono hGrown.cache
      unfold component?
      apply Chooses.bind (stable_componentType? outer)
        (chooses_componentType hLater fun hSafe =>
          live_innermost? (hStill hSafe) depth hOuter)
      intro found latest hGrown' hLatest _
      cases found with
      | some component => exact Chooses.pure hLatest rfl
      | none =>
          exact chooses_refuse_display hLatest
            (fun hSafe =>
              (hStill hSafe).mono hGrown'.cache) _ _

------------------------------------------------------------
-- Choices For Elements
------------------------------------------------------------

/- The call by which an element is reached. -/
private theorem chooses_accessCall
    (hReady : symbols.Ready)
    (table : BindingTable)
    {cls : ElementId}
    (hClass : RuntimeClass symbols.cache cls)
    (text : String)
    (ty declared : TypeId)
    (target : Option TypeId) :
    Chooses safe
      (do
        let classType ← Environment.classType cls
        let int ← Environment.intType table
        let name ← Cache.intern text
        let function : FunctionRef :=
          { name
            returnType := declared
            declaring := cls
            params := [classType, int] }
        return ({ function, ty, target } : ElementAccess))
      symbols fun symbols => do
        let classType ← symbols.declaredType? cls
        let int ← symbols.primitiveType? .int
        let name ← symbols.name? text
        let function : FunctionRef :=
          { name
            returnType := declared
            declaring := cls
            params := [classType, int] }
        return ({ function, ty, target } : ElementAccess) := by
  apply Chooses.bind (stable_declaredType? cls)
    (chooses_classType hReady hClass)
  intro classType later _ hLater _
  apply Chooses.bind (stable_primitiveType? .int)
    (chooses_primitiveType hLater table .int)
  intro int later' _ hLater' _
  apply Chooses.bind (stable_name? text)
    (chooses_intern hLater' text)
  intro name latest _ hLatest _
  exact Chooses.pure hLatest rfl

/- The symbols of an access to an element. -/
theorem chooses_elementAccess
    (hReady : symbols.Ready)
    (table : BindingTable)
    {component : TypeId}
    (hLive : safe → symbols.cache.Live component)
    (assigned : Bool) :
    Chooses safe (elementAccess table component assigned)
      symbols (elementAccess? · component assigned) := by
  unfold elementAccess elementAccess?
  apply Chooses.bind (stable_arrayClass? component)
    (chooses_arrayClass hReady hLive)
  intro cls first hGrown hFirst hClass
  have hRuntime := hFirst.arrayClass hClass
  apply Chooses.bind (stable_elementText? cls)
    (chooses_elementName hFirst hRuntime)
  intro clsName second hGrown₂ hSecond _
  have hRuntime₂ := hRuntime.mono hGrown₂.cache
  have hLive₂ : safe → second.cache.Live component :=
    fun hSafe =>
      (hLive hSafe).mono (hGrown.trans hGrown₂).cache
  apply Chooses.bind (stable_isPrimitive? component)
    (chooses_isPrimitive hSecond hLive₂)
  intro primitive third hGrown₃ hThird _
  have hRuntime₃ := hRuntime₂.mono hGrown₃.cache
  unfold accessForm?
  cases assigned with
  | true =>
      simp only [if_true, pure_bind, Option.bind_eq_bind,
        Option.bind_assoc, Option.bind_some]
      apply Chooses.bind (stable_synthetic? _)
        (chooses_pointerType hThird component)
      intro pointer fourth hGrown₄ hFourth _
      exact chooses_accessCall hFourth table
        (hRuntime₃.mono hGrown₄.cache) _ pointer pointer _
  | false =>
      cases primitive with
      | true =>
          simp only []
          exact chooses_accessCall hThird table hRuntime₃ _
            component component none
      | false =>
          simp only []
          apply Chooses.environment
          apply (chooses_accessCall hThird table hRuntime₃ _
            component third.env.idType none).congr
          intro later hGrown₄ _ access hFound
          simp only [hGrown₄.idType]
          exact hFound

/- The function that stores an object. -/
theorem chooses_storeFunction
    (hReady : symbols.Ready)
    (table : BindingTable)
    (consumes : Bool) :
    Chooses safe (storeFunction table consumes) symbols
      (storeFunction? · consumes) := by
  have hChooses : Chooses safe
      (do
        let arrayType ←
          Environment.classType symbols.env.objectArray
        let int ← Environment.intType table
        let name ← Cache.intern (storeName consumes)
        return ({
          name
          returnType := symbols.env.idType
          declaring := symbols.env.objectArray
          params := [arrayType, int, symbols.env.idType] } :
            FunctionRef))
      symbols fun later => do
        let arrayType ←
          later.declaredType? symbols.env.objectArray
        let int ← later.primitiveType? .int
        let name ← later.name? (storeName consumes)
        return ({
          name
          returnType := symbols.env.idType
          declaring := symbols.env.objectArray
          params := [arrayType, int, symbols.env.idType] } :
            FunctionRef) := by
    apply Chooses.bind (stable_declaredType? _)
      (chooses_classType hReady hReady.objectArray)
    intro arrayType later _ hLater _
    apply Chooses.bind (stable_primitiveType? .int)
      (chooses_primitiveType hLater table .int)
    intro int later' _ hLater' _
    apply Chooses.bind (stable_name? _)
      (chooses_intern hLater' _)
    intro name latest _ hLatest _
    exact Chooses.pure hLatest rfl
  unfold storeFunction
  apply Chooses.environment
  apply hChooses.congr
  intro later hGrown _ function hFound
  unfold storeFunction?
  simp only [hGrown.objectArray, hGrown.idType]
  exact hFound

------------------------------------------------------------
-- Choices For Sizes
------------------------------------------------------------

/- The symbols of an access to the size of an array. -/
theorem chooses_sizeAccess
    (hReady : symbols.Ready)
    (table : BindingTable)
    {component : TypeId}
    (hLive : safe → symbols.cache.Live component) :
    Chooses safe (sizeAccess table component) symbols
      (sizeAccess? · component) := by
  unfold sizeAccess sizeAccess?
  apply Chooses.bind (stable_arrayClass? component)
    (chooses_arrayClass hReady hLive)
  intro cls first _ hFirst _
  apply Chooses.bind (stable_sizeField? cls)
    (chooses_sizeField hFirst table cls)
  intro field second _ hSecond hField
  apply Chooses.bind (stable_primitiveType? .int)
    (chooses_primitiveType hSecond table .int)
  intro int third hGrown hThird _
  rcases hSecond.sizeFields cls field hField with
    ⟨data, hData, _⟩
  rcases hGrown.cache.element? hData with ⟨data', hData', _⟩
  apply chooses_ofElement hData'
  exact Chooses.pure hThird rfl

------------------------------------------------------------
-- Choices For Type Tests
------------------------------------------------------------

/- Whether a type is an array over no value primitive. -/
theorem chooses_isObjectArray
    (hReady : symbols.Ready)
    {ty : TypeId}
    (hLive : safe → symbols.cache.Live ty) :
    Chooses safe (isObjectArray ty) symbols
      (isObjectArray? · ty) := by
  unfold isObjectArray isObjectArray?
  apply Chooses.bind (stable_componentType? ty)
    (chooses_componentType hReady hLive)
  intro found later hGrown hLater hFound
  cases found with
  | none => exact Chooses.pure hLater rfl
  | some component =>
      have hComponent : component? later ty =
          some component := by
        unfold component?
        rw [hFound]
        rfl
      apply Chooses.bind (stable_isPrimitive? component)
        (chooses_isPrimitive hLater fun hSafe =>
          live_component? ((hLive hSafe).mono hGrown.cache)
            hComponent)
      intro primitive latest _ hLatest _
      exact Chooses.pure hLatest rfl

/- The class object of a type. -/
theorem chooses_classObject
    (hReady : symbols.Ready)
    (literal : TypeId) :
    Chooses safe (classObject literal) symbols
      (classObject? · literal) := by
  have hChooses : Chooses safe
      (do
        let ty ← Environment.classType symbols.env.iosClass
        return ({ literal, ty } : ClassObject))
      symbols fun later => do
        let ty ← later.declaredType? symbols.env.iosClass
        return ({ literal, ty } : ClassObject) := by
    apply Chooses.bind (stable_declaredType? _)
      (chooses_classType hReady hReady.iosClass)
    intro ty later _ hLater _
    exact Chooses.pure hLater rfl
  unfold classObject
  apply Chooses.environment
  apply hChooses.congr
  intro later hGrown _ object hFound
  unfold classObject? iosClassType?
  rw [hGrown.iosClass]
  exact hFound

/- The symbols of a test against an array type. -/
theorem chooses_typeTest
    (hReady : symbols.Ready)
    (table : BindingTable)
    (ty : TypeId) :
    Chooses safe (typeTest table ty) symbols
      (typeTest? · ty) := by
  have hChooses : Chooses safe
      (do
        let boolean ← Environment.booleanType table
        let method ← runtimeMethod symbols.env.iosClass
          "isInstance" boolean .onlyPublic
          [("object", symbols.env.idType)]
        let object ← classObject ty
        return ({ method, boolean, object } : TypeTest))
      symbols fun later => do
        let boolean ← later.primitiveType? .boolean
        let method ←
          later.method? symbols.env.iosClass "isInstance"
        let object ← classObject? later ty
        return ({ method, boolean, object } : TypeTest) := by
    apply Chooses.bind (stable_primitiveType? .boolean)
      (chooses_primitiveType hReady table .boolean)
    intro boolean first _ hFirst _
    apply Chooses.bind (stable_method? _ "isInstance")
      (chooses_runtimeMethod hFirst _ _ _ _ _)
    intro method second _ hSecond _
    apply Chooses.bind (stable_classObject? ty)
      (chooses_classObject hSecond ty)
    intro object third _ hThird _
    exact Chooses.pure hThird rfl
  unfold typeTest
  apply Chooses.environment
  apply hChooses.congr
  intro later hGrown _ test hFound
  unfold typeTest?
  rw [hGrown.iosClass]
  exact hFound

------------------------------------------------------------
-- Choices For Creations
------------------------------------------------------------

/- The symbols of the name of a runtime class. -/
theorem chooses_className
    (hReady : symbols.Ready)
    {cls : ElementId}
    (hClass : RuntimeClass symbols.cache cls) :
    Chooses safe (className cls) symbols
      (className? · cls) := by
  rcases hClass with ⟨data, text, hData, hText⟩
  unfold className className?
  apply chooses_ofElement hData
  apply Chooses.bind (stable_declaredType? cls)
    (chooses_classType hReady ⟨data, text, hData, hText⟩)
  intro ty later _ hLater _
  exact Chooses.pure hLater rfl

theorem chooses_factoryObject
    (hReady : symbols.Ready)
    (component : TypeId)
    (primitive : Bool) :
    Chooses safe (factoryObject component primitive) symbols
      (factoryObject? · component primitive) := by
  unfold factoryObject factoryObject?
  cases primitive with
  | true => exact Chooses.pure hReady rfl
  | false =>
      apply Completes.bind
        (chooses_classObject hReady component)
      intro object later hPost
      rcases hPost with ⟨hGrown, hLater, hFound⟩
      refine ⟨hGrown, hLater, ?_⟩
      exact Option.map_eq_some_iff.mpr ⟨object, hFound, rfl⟩

/- The parameters of a factory can be had. -/
theorem chooses_factoryParams
    (hReady : symbols.Ready)
    (params : List (String × TypeId))
    (primitive : Bool) :
    Chooses safe (factoryParams params primitive) symbols
      fun symbols =>
        if primitive then
          some params
        else
          (iosClassType? symbols).map fun ty =>
            params ++ [("type", ty)] := by
  unfold factoryParams
  cases primitive with
  | true => exact Chooses.pure hReady rfl
  | false =>
      apply Chooses.environment
      apply Completes.bind
        (chooses_classType hReady hReady.iosClass)
      intro ty later hPost
      rcases hPost with ⟨hGrown, hLater, hFound⟩
      refine ⟨hGrown, hLater, ?_⟩
      apply Option.map_eq_some_iff.mpr
      refine ⟨ty, ?_, rfl⟩
      unfold iosClassType?
      rw [hGrown.iosClass]
      exact hFound

/-
  The call of a factory, once its class and its parameters
  have been chosen.
-/
private theorem chooses_factory
    (hReady : symbols.Ready)
    {component int : TypeId}
    {cls : ElementId}
    (hClass : symbols.arrayClass? component = some cls)
    (hInt : symbols.primitiveType? .int = some int)
    (array : TypeId)
    (selector : String)
    (primitive : Bool)
    (params : List (String × TypeId)) :
    Chooses safe
      (do
        let params ← factoryParams params primitive
        let classType ← Environment.classType cls
        let method ← runtimeMethod cls selector classType
          .publicStatic params
        let object ← factoryObject component primitive
        let receiver ← className cls
        return ({
          call := { method, receiver, ty := array }
          int
          object } : Factory))
      symbols
      (factory? · array component selector primitive) := by
  have hRuntime := hReady.arrayClass hClass
  unfold factory?
  apply Chooses.known (stable_arrayClass? component) hClass
  apply Chooses.known (stable_primitiveType? .int) hInt
  apply Chooses.after
    (chooses_factoryParams hReady params primitive)
  intro params first hGrown hFirst _
  have hRuntime₁ := hRuntime.mono hGrown.cache
  apply Chooses.after (chooses_classType hFirst hRuntime₁)
  intro classType second hGrown₂ hSecond _
  have hRuntime₂ := hRuntime₁.mono hGrown₂.cache
  apply Chooses.bind (stable_method? cls selector)
    (chooses_runtimeMethod hSecond _ _ _ _ _)
  intro method third hGrown₃ hThird _
  have hRuntime₃ := hRuntime₂.mono hGrown₃.cache
  apply Chooses.bind (stable_factoryObject? _ _)
    (chooses_factoryObject hThird component primitive)
  intro object fourth hGrown₄ hFourth _
  have hRuntime₄ := hRuntime₃.mono hGrown₄.cache
  apply Chooses.bind (stable_className? cls)
    (chooses_className hFourth hRuntime₄)
  intro receiver last _ hLast _
  exact Chooses.pure hLast rfl

/-
  The factory of arrays of given elements. Once their sort is
  known, the rest is the same for all.
-/
theorem chooses_initializedFactory
    (hReady : symbols.Ready)
    (table : BindingTable)
    (node : NodeId)
    {array : TypeId}
    (hLive : safe → symbols.cache.Live array)
    (retained : Bool) :
    Chooses safe (initializedFactory table node array retained)
      symbols (initializedFactory? · array retained) := by
  unfold initializedFactory initializedFactory?
  apply Chooses.bind (stable_component? array)
    (chooses_componentOf hReady node hLive)
  intro component first hGrown hFirst hComponent
  have hLive₁ : safe → first.cache.Live component :=
    fun hSafe =>
      live_component? ((hLive hSafe).mono hGrown.cache)
        hComponent
  apply Chooses.bind (stable_isPrimitive? component)
    (chooses_isPrimitive hFirst hLive₁)
  intro primitive second hGrown₂ hSecond hPrimitive
  apply Chooses.after (chooses_arrayClass hSecond
    fun hSafe => (hLive₁ hSafe).mono hGrown₂.cache)
  intro cls third hGrown₃ hThird hClass
  have hPrimitive₃ := stable_isPrimitive? component _ _ _
    hGrown₃ hPrimitive
  have hRest : ∀ category fourth,
      third.Grown fourth → fourth.Ready →
        Chooses safe
          (do
            let values ← Cache.pointerType component
            let int ← Environment.intType table
            let params ← factoryParams
              [("values", values), ("count", int)] primitive
            let classType ← Environment.classType cls
            let method ← runtimeMethod cls
              ((CreationForm.elements category).selector
                retained primitive)
              classType .publicStatic params
            let object ← factoryObject component primitive
            let receiver ← className cls
            return ({
              call := { method, receiver, ty := array }
              int
              object } : Factory))
          fourth
          (factory? · array component
            ((CreationForm.elements category).selector
              retained primitive) primitive) := by
    intro category fourth hGrown₄ hFourth
    apply Chooses.after (chooses_pointerType hFourth component)
    intro values fifth hGrown₅ hFifth _
    apply Chooses.after (chooses_primitiveType hFifth table .int)
    intro int sixth hGrown₆ hSixth hInt
    apply chooses_factory hSixth ?_ hInt
    exact stable_arrayClass? component _ _ _
      ((hGrown₄.trans hGrown₅).trans hGrown₆) hClass
  cases primitive with
  | true =>
      apply Chooses.bind (stable_category? component true)
        (chooses_categoryName hThird hPrimitive₃)
      intro category fourth hGrown₄ hFourth _
      exact hRest category fourth hGrown₄ hFourth
  | false =>
      exact hRest "Objects" third (Grown.refl third) hThird

/- The factory of arrays of one length. -/
theorem chooses_lengthFactory
    (hReady : symbols.Ready)
    (table : BindingTable)
    (node : NodeId)
    {array : TypeId}
    (hLive : safe → symbols.cache.Live array)
    (retained : Bool) :
    Chooses safe (lengthFactory table node array retained)
      symbols (lengthFactory? · array retained) := by
  unfold lengthFactory lengthFactory?
  apply Chooses.bind (stable_component? array)
    (chooses_componentOf hReady node hLive)
  intro component first hGrown hFirst hComponent
  have hLive₁ : safe → first.cache.Live component :=
    fun hSafe =>
      live_component? ((hLive hSafe).mono hGrown.cache)
        hComponent
  apply Chooses.bind (stable_isPrimitive? component)
    (chooses_isPrimitive hFirst hLive₁)
  intro primitive second hGrown₂ hSecond _
  apply Chooses.after (chooses_arrayClass hSecond
    fun hSafe => (hLive₁ hSafe).mono hGrown₂.cache)
  intro cls third _ hThird hClass
  apply Chooses.after (chooses_primitiveType hThird table .int)
  intro int fourth hGrown₄ hFourth hInt
  apply chooses_factory hFourth ?_ hInt
  exact stable_arrayClass? component _ _ _ hGrown₄ hClass

/- The factory of nested arrays of several lengths. -/
theorem chooses_lengthsFactory
    (hReady : symbols.Ready)
    (table : BindingTable)
    (node : NodeId)
    {array : TypeId}
    (hLive : safe → symbols.cache.Live array)
    (dimensions : Nat)
    (retained : Bool) :
    Chooses safe
      (lengthsFactory table node array dimensions retained)
      symbols
      (lengthsFactory? · table array dimensions retained) := by
  unfold lengthsFactory lengthsFactory? factory?
  simp only [Option.bind_eq_bind, Option.bind_assoc,
    Option.pure_def, Option.bind_some]
  apply Chooses.bind (stable_innermost? array dimensions)
    (chooses_innermostComponent hReady node hLive _ _)
  intro component first hGrown hFirst hComponent
  have hLive₁ : safe → first.cache.Live component :=
    fun hSafe =>
      live_innermost? ((hLive hSafe).mono hGrown.cache)
        dimensions hComponent
  apply Chooses.bind (stable_isPrimitive? component)
    (chooses_isPrimitive hFirst hLive₁)
  intro primitive second hGrown₂ hSecond _
  apply Chooses.bind (stable_arrayClass? component)
    (chooses_arrayClass hSecond
      fun hSafe => (hLive₁ hSafe).mono hGrown₂.cache)
  intro cls third _ hThird hClass
  have hRuntime := hThird.arrayClass hClass
  apply Chooses.bind (stable_primitiveType? .int)
    (chooses_primitiveType hThird table .int)
  intro int fourth hGrown₄ hFourth hInt
  apply Chooses.after (chooses_pointerType hFourth int)
  intro pointer fifth hGrown₅ hFifth _
  apply Chooses.after
    (chooses_factoryParams hFifth _ primitive)
  intro params sixth hGrown₆ hSixth _
  apply Chooses.environment
  apply Chooses.after
    (chooses_classType hSixth hSixth.objectArray)
  intro arrayType seventh hGrown₇ hSeventh _
  apply Chooses.bind (stable_method? cls _)
    (chooses_runtimeMethod hSeventh _ _ _ _ _)
  intro method eighth hGrown₈ hEighth _
  have hLater := (((hGrown₄.trans hGrown₅).trans
    hGrown₆).trans hGrown₇).trans hGrown₈
  have hInt₈ := stable_primitiveType? .int _ _ _
    (((hGrown₅.trans hGrown₆).trans hGrown₇).trans hGrown₈)
    hInt
  apply Chooses.after
    (chooses_intArrayType hEighth table hInt₈)
  intro lengths ninth hGrown₉ hNinth hLengths
  have hRuntime₉ :=
    hRuntime.mono (hLater.trans hGrown₉).cache
  apply Chooses.bind (stable_factoryObject? _ _)
    (chooses_factoryObject hNinth component primitive)
  intro object tenth hGrown₁₀ hTenth _
  apply Chooses.bind (stable_className? cls)
    (chooses_className hTenth
      (hRuntime₉.mono hGrown₁₀.cache))
  intro receiver last hGrown₁₁ hLast _
  apply Chooses.known (stable_intArrayType? table int)
    (stable_intArrayType? table int _ _ _
      (hGrown₁₀.trans hGrown₁₁) hLengths)
  exact Chooses.pure hLast rfl

end Arrays

end Lowering
