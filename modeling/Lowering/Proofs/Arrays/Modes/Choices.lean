import Lowering.Arrays.Creation
import Lowering.Arrays.Access
import Lowering.Arrays.TypeTest
import Lowering.Proofs.Arrays.Modes.Likeness

/-
  This file proves that two runs which differ in how they
  manage memory choose like symbols for each construct. All
  that depends on the memory management is the selector of a
  factory.

  Key definitions include:
    * `Arrays.ElementAccess.Alike`
    * `Arrays.SizeAccess.Alike`
    * `Arrays.TypeTest.Alike`
    * `Arrays.Factory.Alike`

  Main results:
    * `Arrays.agrees_elementAccess`
    * `Arrays.agrees_storeFunction`
    * `Arrays.agrees_sizeAccess`
    * `Arrays.agrees_typeTest`
    * `Arrays.agrees_initializedFactory`
    * `Arrays.agrees_lengthFactory`
    * `Arrays.agrees_lengthsFactory`
-/

namespace Lowering

namespace Arrays

open Symbols

------------------------------------------------------------
-- Like Symbols
------------------------------------------------------------

section Records

variable (likeness : Likeness)

/- Accesses to elements that call like functions. -/
structure ElementAccess.Alike
    (access access' : ElementAccess) : Prop where
  function : access.function.Alike likeness access'.function
  ty : access'.ty = access.ty
  target : access'.target = access.target

/- Accesses to sizes through like fields. -/
structure SizeAccess.Alike
    (access access' : SizeAccess) : Prop where
  field : ∀ tag,
    likeness.element tag access.field access'.field
  name : likeness.name access.name access'.name
  int : access'.int = access.int

/- Names of like classes. -/
structure ClassName.Alike
    (receiver receiver' : ClassName) : Prop where
  cls : likeness.element .simpleName receiver.cls receiver'.cls
  name : likeness.name receiver.name receiver'.name
  ty : receiver'.ty = receiver.ty

/- Calls of like methods. -/
structure StaticCall.Alike
    (call call' : StaticCall) : Prop where
  method :
    likeness.element .methodInvocation call.method call'.method
  receiver : call.receiver.Alike likeness call'.receiver
  ty : call'.ty = call.ty

/- Like factories, with the same class object. -/
structure Factory.Alike
    (factory factory' : Factory) : Prop where
  call : factory.call.Alike likeness factory'.call
  int : factory'.int = factory.int
  object : factory'.object = factory.object

/- Like factories of nested arrays. -/
structure NestedFactory.Alike
    (factory factory' : NestedFactory) : Prop
    extends Factory.Alike likeness factory.toFactory
      factory'.toFactory where
  lengths : factory'.lengths = factory.lengths

/- Type tests by like methods. -/
structure TypeTest.Alike
    (test test' : TypeTest) : Prop where
  method :
    likeness.element .methodInvocation test.method test'.method
  boolean : test'.boolean = test.boolean
  object : test'.object = test.object

end Records

------------------------------------------------------------
-- Selectors
------------------------------------------------------------

variable {start : Workspace}
variable {symbols symbols' : Symbols}

/- No other beginning of a selector is like `array`. -/
private theorem newArray_ne_array
    (text rest : String) :
    "newArray" ++ text ≠ "array" ++ rest := by
  intro hEq
  have hLists := congrArg String.toList hEq
  rw [String.toList_append, String.toList_append] at hLists
  simp at hLists

private theorem isInstance_ne_array
    (rest : String) :
    "isInstance" ≠ "array" ++ rest := by
  intro hEq
  have hLists := congrArg String.toList hEq
  rw [String.toList_append] at hLists
  simp at hLists

/-
  The factory of a form, and the one whose result is retained,
  stand for each other. They are the same if the first is
  asked for a retained result too.
-/
theorem nodeElement_of_selector
    {cls method method' : ElementId}
    (form : CreationForm)
    {retained primitive : Bool}
    (hFound : symbols.method? cls
      (form.selector retained primitive) = some method)
    (hFound' : symbols'.method? cls
      (form.selector true primitive) = some method') :
    NodeElement start symbols symbols' .methodInvocation method
      method' := by
  cases retained with
  | true =>
      refine .same (.method (fun rest => ?_) hFound hFound')
      show "newArray" ++ form.body ++ _ ≠ _
      rw [String.append_assoc]
      exact newArray_ne_array _ rest
  | false =>
      unfold CreationForm.selector at hFound hFound'
      simp only [Bool.false_eq_true, if_false, if_true,
        String.append_assoc] at hFound hFound'
      exact .created hFound hFound'

------------------------------------------------------------
-- Elements And Lengths
------------------------------------------------------------

private theorem isPrimitive_of_grown
    {before after : Cache}
    {ty : TypeId}
    {primitive : Bool}
    (hGrown : before.Grown after)
    (hOk : before.isPrimitive ty = .ok primitive) :
    after.isPrimitive ty = .ok primitive := by
  unfold Cache.isPrimitive at hOk ⊢
  cases hData : before.typeData ty with
  | error error =>
      rw [hData] at hOk
      cases hOk
  | ok data =>
      have hType := Cache.typeData_eq_ok_iff.mp hData
      rw [Cache.typeData_eq_ok_iff.mpr (hGrown.type? hType)]
      rw [hData] at hOk
      exact hOk

section Choices

variable (hAbreast : Abreast start.symbols symbols symbols')
variable (hEntitled : start.symbols.Entitled)
variable (table : BindingTable)

include hAbreast

/- The call by which an element is reached. -/
private theorem agrees_accessCall
    {cls : ElementId}
    (hClass : IsClass start.cache cls)
    (text : String)
    (ty declared : TypeId)
    (target : Option TypeId) :
    Agrees start.symbols
      (fun after after' access access' =>
        access.Alike (likeness start after after') access')
      (do
        let classType ← Environment.classType cls
        let int ← Environment.intType table
        let name ← Cache.intern text
        let function : FunctionRef :=
          { name
            returnType := declared
            declaring := cls
            params := [classType, int] }
        return ({ function, ty, target } : ElementAccess))
      (do
        let classType ← Environment.classType cls
        let int ← Environment.intType table
        let name ← Cache.intern text
        let function : FunctionRef :=
          { name
            returnType := declared
            declaring := cls
            params := [classType, int] }
        return ({ function, ty, target } : ElementAccess))
      symbols symbols' := by
  apply (agrees_classType hAbreast hClass).bind
  rintro classType _ first first' hFirst _ _ rfl
  apply (agrees_intType hFirst table).bind
  rintro int _ second second' hSecond _ _ ⟨rfl, _⟩
  apply (agrees_intern hSecond text).bind
  intro name name' third third' hThird _ _ hName
  refine .pure hThird ⟨?_, rfl, rfl⟩
  exact ⟨hName, rfl, .same (.of_class hClass), rfl, .none⟩

include hEntitled in
theorem agrees_elementAccess
    (component : TypeId)
    (assigned : Bool) :
    Agrees start.symbols
      (fun after after' access access' =>
        access.Alike (likeness start after after') access')
      (elementAccess table component assigned)
      (elementAccess table component assigned) symbols
      symbols' := by
  unfold elementAccess
  apply (agrees_arrayClass hAbreast hEntitled component).bind
  rintro cls _ first first' hFirst _ _ ⟨rfl, hClass⟩
  apply (agrees_elementName hFirst hClass).bind
  rintro clsName _ second second' hSecond _ _ rfl
  apply (agrees_isPrimitive hSecond component).bind
  rintro primitive _ third third' hThird _ _ ⟨rfl, _⟩
  cases assigned with
  | true =>
      simp only [if_true, pure_bind]
      apply (agrees_pointerType hThird component).bind
      rintro pointer _ fourth fourth' hFourth _ _ rfl
      exact agrees_accessCall hFourth table hClass _ _ _ _
  | false =>
      cases primitive with
      | true =>
          exact agrees_accessCall hThird table hClass _ _ _ _
      | false =>
          simp only []
          apply Agrees.environment
          rw [hThird.adds.grown.idType,
            hThird.adds'.grown.idType]
          exact agrees_accessCall hThird table hClass _ _ _ _

include hEntitled in
theorem agrees_storeFunction
    (consumes : Bool) :
    Agrees start.symbols
      (fun after after' function function' =>
        function.Alike (likeness start after after') function')
      (storeFunction table consumes)
      (storeFunction table consumes) symbols symbols' := by
  unfold storeFunction
  apply Agrees.environment
  rw [hAbreast.adds.grown.objectArray,
    hAbreast.adds'.grown.objectArray,
    hAbreast.adds.grown.idType, hAbreast.adds'.grown.idType]
  have hClass := hEntitled.objectArray
  apply (agrees_classType hAbreast hClass).bind
  rintro arrayType _ first first' hFirst _ _ rfl
  apply (agrees_intType hFirst table).bind
  rintro int _ second second' hSecond _ _ ⟨rfl, _⟩
  apply (agrees_intern hSecond _).bind
  intro name name' third third' hThird _ _ hName
  exact .pure hThird
    ⟨hName, rfl, .same (.of_class hClass), rfl, .none⟩

include hEntitled in
theorem agrees_sizeAccess
    (component : TypeId) :
    Agrees start.symbols
      (fun after after' access access' =>
        access.Alike (likeness start after after') access')
      (sizeAccess table component) (sizeAccess table component)
      symbols symbols' := by
  unfold sizeAccess
  apply (agrees_arrayClass hAbreast hEntitled component).bind
  rintro cls _ first first' hFirst _ _ ⟨rfl, _⟩
  apply (agrees_sizeField hFirst table cls).bind
  rintro field field' second second' hSecond _ _
    ⟨hField, hField'⟩
  apply (agrees_intType hSecond table).bind
  rintro int _ third third' hThird hGrown hGrown' ⟨rfl, _⟩
  have hField₃ := hGrown.sizeFields _ _ hField
  have hField₃' := hGrown'.sizeFields _ _ hField'
  apply (agrees_sizeName hThird hField₃ hField₃').bind
  intro data data' last last' hLast hLater hLater' hName
  have hSame : SameElement start last last' field field' :=
    .sizeField (hLater.sizeFields _ _ hField₃)
      (hLater'.sizeFields _ _ hField₃')
  exact .pure hLast ⟨fun _ => .same hSame, hName, rfl⟩

/- Whether a name that both know reads `length`. -/
theorem agrees_isLength
    {identifier identifier' : Name}
    (hName : SameName symbols symbols' identifier identifier') :
    Agrees start.symbols (fun _ _ => Eq) (isLength identifier)
      (isLength identifier') symbols symbols' := by
  rcases hName with ⟨text, hText, hText'⟩
  have hKnown : ∀ {symbols : Symbols} {name : Name},
      symbols.text? name = some text →
        symbols.cache.nameText name = .ok text := by
    intro symbols name hFound
    unfold Cache.nameText Interner.lookup
    unfold Symbols.text? at hFound
    rw [hFound]
    rfl
  have hRead : Agrees start.symbols (fun _ _ => Eq)
      (ask (·.nameText identifier))
      (ask (·.nameText identifier')) symbols symbols' :=
    .ask hAbreast ((hKnown hText).trans (hKnown hText').symm)
      fun _ _ => rfl
  unfold isLength
  apply hRead.bind
  rintro found _ first first' hFirst _ _ rfl
  exact .pure hFirst rfl

------------------------------------------------------------
-- Type Tests
------------------------------------------------------------

theorem agrees_isObjectArray
    (ty : TypeId) :
    Agrees start.symbols (fun _ _ => Eq) (isObjectArray ty)
      (isObjectArray ty) symbols symbols' := by
  unfold isObjectArray
  apply (agrees_componentType hAbreast ty).bind
  rintro component _ first first' hFirst _ _ rfl
  cases component with
  | none => exact .pure hFirst rfl
  | some component =>
      apply (agrees_isPrimitive hFirst component).bind
      rintro primitive _ second second' hSecond _ _ ⟨rfl, _⟩
      exact .pure hSecond rfl

include hEntitled in
/- The type of class objects. -/
private theorem agrees_iosClassType :
    Agrees start.symbols (fun _ _ => Eq)
      (do
        let env ← environment
        env.iosClassType)
      (do
        let env ← environment
        env.iosClassType) symbols symbols' := by
  apply Agrees.environment
  unfold Environment.iosClassType
  rw [hAbreast.adds.grown.iosClass,
    hAbreast.adds'.grown.iosClass]
  exact agrees_classType hAbreast hEntitled.iosClass

include hEntitled in
private theorem agrees_classObject
    (literal : TypeId) :
    Agrees start.symbols (fun _ _ => Eq) (classObject literal)
      (classObject literal) symbols symbols' := by
  unfold classObject
  rw [← bind_assoc]
  apply (agrees_iosClassType hAbreast hEntitled).bind
  rintro ty _ first first' hFirst _ _ rfl
  exact .pure hFirst rfl

include hEntitled in
theorem agrees_typeTest
    (ty : TypeId) :
    Agrees start.symbols
      (fun after after' test test' =>
        test.Alike (likeness start after after') test')
      (typeTest table ty) (typeTest table ty) symbols
      symbols' := by
  unfold typeTest
  apply Agrees.environment
  rw [hAbreast.adds.grown.iosClass,
    hAbreast.adds'.grown.iosClass,
    hAbreast.adds.grown.idType, hAbreast.adds'.grown.idType]
  apply (agrees_primitiveType hAbreast table .boolean).bind
  rintro boolean _ first first' hFirst _ _ ⟨rfl, _⟩
  apply (agrees_runtimeMethod hFirst _ _ _ _ _ _).bind
  rintro method method' second second' hSecond _ _
    ⟨hMethod, hMethod'⟩
  apply (agrees_classObject hSecond hEntitled ty).bind
  rintro object _ third third' hThird hGrown hGrown' rfl
  have hSame : SameElement start third third' method method' :=
    .method isInstance_ne_array
      (stable_method? _ _ _ _ _ hGrown hMethod)
      (stable_method? _ _ _ _ _ hGrown' hMethod')
  exact .pure hThird ⟨.same hSame, rfl, rfl⟩

------------------------------------------------------------
-- Factories
------------------------------------------------------------

/- The component of an array type, or the same refusal. -/
private theorem agrees_componentOf
    (node : NodeId)
    {array : TypeId}
    (hWritten : start.cache.Written array) :
    Agrees start.symbols (fun _ _ => Eq)
      (componentOf node array) (componentOf node array) symbols
      symbols' := by
  unfold componentOf
  apply (agrees_componentType hAbreast array).bind
  rintro found _ first first' hFirst _ _ rfl
  cases found with
  | some component => exact .pure hFirst rfl
  | none =>
      apply (agrees_display hFirst hWritten).bind
      rintro text _ second second' _ _ _ rfl
      exact .refuse _

/- The induction is on the dimensions that are indexed. -/
private theorem agrees_innermostComponent
    (node : NodeId)
    {array : TypeId}
    (hWritten : start.cache.Written array)
    (dimensions depth : Nat) :
    Agrees start.symbols (fun _ _ => Eq)
      (innermostComponent node array dimensions depth)
      (innermostComponent node array dimensions depth) symbols
      symbols' := by
  induction depth with
  | zero => exact .pure hAbreast rfl
  | succ depth ih =>
      unfold innermostComponent
      apply ih.bind
      rintro outer _ first first' hFirst _ _ rfl
      apply (agrees_componentType hFirst outer).bind
      rintro found _ second second' hSecond _ _ rfl
      cases found with
      | some component => exact .pure hSecond rfl
      | none =>
          apply (agrees_display hSecond hWritten).bind
          rintro text _ third third' _ _ _ rfl
          exact .refuse _

private theorem agrees_className
    {cls : ElementId}
    (hClass : IsClass start.cache cls) :
    Agrees start.symbols
      (fun after after' receiver receiver' =>
        receiver.Alike (likeness start after after') receiver')
      (className cls) (className cls) symbols symbols' := by
  unfold className
  apply (agrees_class hAbreast hClass).bind
  intro data data' first first' hFirst _ _ hName
  apply (agrees_classType hFirst hClass).bind
  rintro ty _ second second' hSecond hGrown hGrown' rfl
  exact .pure hSecond ⟨.same (.of_class hClass),
    hName.mono hGrown hGrown', rfl⟩

include hEntitled in
private theorem agrees_factoryObject
    (component : TypeId)
    (primitive : Bool) :
    Agrees start.symbols (fun _ _ => Eq)
      (factoryObject component primitive)
      (factoryObject component primitive) symbols symbols' := by
  unfold factoryObject
  cases primitive with
  | true => exact .pure hAbreast rfl
  | false =>
      apply (agrees_classObject hAbreast hEntitled
        component).bind
      rintro object _ first first' hFirst _ _ rfl
      exact .pure hFirst rfl

include hEntitled in
private theorem agrees_factoryParams
    (params : List (String × TypeId))
    (primitive : Bool) :
    Agrees start.symbols (fun _ _ => Eq)
      (factoryParams params primitive)
      (factoryParams params primitive) symbols symbols' := by
  unfold factoryParams
  cases primitive with
  | true => exact .pure hAbreast rfl
  | false =>
      simp only [Bool.false_eq_true, if_false]
      rw [← bind_assoc]
      apply (agrees_iosClassType hAbreast hEntitled).bind
      rintro ty _ first first' hFirst _ _ rfl
      exact .pure hFirst rfl

include hEntitled in
/- The call of a factory, once its class has been chosen. -/
private theorem agrees_factory
    {cls : ElementId}
    (hClass : IsClass start.cache cls)
    (form : CreationForm)
    (retained primitive : Bool)
    (component array int : TypeId)
    (params : List (String × TypeId)) :
    Agrees start.symbols
      (fun after after' factory factory' =>
        factory.Alike (likeness start after after') factory')
      (do
        let params ← factoryParams params primitive
        let classType ← Environment.classType cls
        let method ← runtimeMethod cls
          (form.selector retained primitive) classType
          .publicStatic params
        let object ← factoryObject component primitive
        let receiver ← className cls
        return ({
          call := { method, receiver, ty := array }
          int
          object } : Factory))
      (do
        let params ← factoryParams params primitive
        let classType ← Environment.classType cls
        let method ← runtimeMethod cls
          (form.selector true primitive) classType
          .publicStatic params
        let object ← factoryObject component primitive
        let receiver ← className cls
        return ({
          call := { method, receiver, ty := array }
          int
          object } : Factory))
      symbols symbols' := by
  apply (agrees_factoryParams hAbreast hEntitled params
    primitive).bind
  rintro params _ first first' hFirst _ _ rfl
  apply (agrees_classType hFirst hClass).bind
  rintro classType _ second second' hSecond _ _ rfl
  apply (agrees_runtimeMethod hSecond _ _ _ _ _ _).bind
  rintro method method' third third' hThird _ _
    ⟨hMethod, hMethod'⟩
  apply (agrees_factoryObject hThird hEntitled component
    primitive).bind
  rintro object _ fourth fourth' hFourth hGrown₄ hGrown₄' rfl
  apply (agrees_className hFourth hClass).bind
  intro receiver receiver' last last' hLast hGrown₅ hGrown₅'
    hReceiver
  have hElement : NodeElement start last last'
      .methodInvocation method method' :=
    nodeElement_of_selector form
      (stable_method? _ _ _ _ _ (hGrown₄.trans hGrown₅) hMethod)
      (stable_method? _ _ _ _ _ (hGrown₄'.trans hGrown₅')
        hMethod')
  exact .pure hLast ⟨⟨hElement, hReceiver, rfl⟩, rfl, rfl⟩

section Forms

variable (node : NodeId)
variable {array : TypeId}
variable (hWritten : start.cache.Written array)
variable (retained : Bool)

include hEntitled hWritten

/-
  The factory of arrays of given elements. Once their sort is
  known, the rest is the same for all.
-/
theorem agrees_initializedFactory :
    Agrees start.symbols
      (fun after after' factory factory' =>
        factory.Alike (likeness start after after') factory')
      (initializedFactory table node array retained)
      (initializedFactory table node array true) symbols
      symbols' := by
  unfold initializedFactory
  apply (agrees_componentOf hAbreast node hWritten).bind
  rintro component _ first first' hFirst _ _ rfl
  apply (agrees_isPrimitive hFirst component).bind
  rintro primitive _ second second' hSecond _ _
    ⟨rfl, hPrimitive⟩
  apply (agrees_arrayClass hSecond hEntitled component).bind
  rintro cls _ third third' hThird hGrown _ ⟨rfl, hClass⟩
  have hPrimitive₃ := isPrimitive_of_grown hGrown.cache
    hPrimitive
  have hRest : ∀ category fourth fourth',
      Abreast start.symbols fourth fourth' →
        Agrees start.symbols
          (fun after after' factory factory' =>
            factory.Alike (likeness start after after') factory')
          (do
            let values ← Cache.pointerType component
            let int ← Environment.intType table
            let params ← factoryParams
              [("values", values), ("count", int)] primitive
            let classType ← Environment.classType cls
            let method ← runtimeMethod cls
              ((CreationForm.elements category).selector
                retained primitive)
              classType .publicStatic params
            let object ← factoryObject component primitive
            let receiver ← className cls
            return ({
              call := { method, receiver, ty := array }
              int
              object } : Factory))
          (do
            let values ← Cache.pointerType component
            let int ← Environment.intType table
            let params ← factoryParams
              [("values", values), ("count", int)] primitive
            let classType ← Environment.classType cls
            let method ← runtimeMethod cls
              ((CreationForm.elements category).selector
                true primitive)
              classType .publicStatic params
            let object ← factoryObject component primitive
            let receiver ← className cls
            return ({
              call := { method, receiver, ty := array }
              int
              object } : Factory))
          fourth fourth' := by
    intro category fourth fourth' hFourth
    apply (agrees_pointerType hFourth component).bind
    rintro values _ fifth fifth' hFifth _ _ rfl
    apply (agrees_intType hFifth table).bind
    rintro int _ sixth sixth' hSixth _ _ ⟨rfl, _⟩
    exact agrees_factory hSixth hEntitled hClass
      (.elements category) retained primitive component array
      int _
  cases primitive with
  | true =>
      apply (agrees_categoryName hThird hPrimitive₃).bind
      rintro category _ fourth fourth' hFourth _ _ rfl
      exact hRest category fourth fourth' hFourth
  | false => exact hRest "Objects" third third' hThird

/- The factory of arrays of one length. -/
theorem agrees_lengthFactory :
    Agrees start.symbols
      (fun after after' factory factory' =>
        factory.Alike (likeness start after after') factory')
      (lengthFactory table node array retained)
      (lengthFactory table node array true) symbols
      symbols' := by
  unfold lengthFactory
  apply (agrees_componentOf hAbreast node hWritten).bind
  rintro component _ first first' hFirst _ _ rfl
  apply (agrees_isPrimitive hFirst component).bind
  rintro primitive _ second second' hSecond _ _ ⟨rfl, _⟩
  apply (agrees_arrayClass hSecond hEntitled component).bind
  rintro cls _ third third' hThird _ _ ⟨rfl, hClass⟩
  apply (agrees_intType hThird table).bind
  rintro int _ fourth fourth' hFourth _ _ ⟨rfl, _⟩
  exact agrees_factory hFourth hEntitled hClass .length retained
    primitive component array int _

/- The factory of nested arrays of several lengths. -/
theorem agrees_lengthsFactory
    (dimensions : Nat) :
    Agrees start.symbols
      (fun after after' factory factory' =>
        NestedFactory.Alike (likeness start after after')
          factory factory')
      (lengthsFactory table node array dimensions retained)
      (lengthsFactory table node array dimensions true) symbols
      symbols' := by
  unfold lengthsFactory
  apply (agrees_innermostComponent hAbreast node hWritten _
    _).bind
  rintro component _ first first' hFirst _ _ rfl
  apply (agrees_isPrimitive hFirst component).bind
  rintro primitive _ second second' hSecond _ _ ⟨rfl, _⟩
  apply (agrees_arrayClass hSecond hEntitled component).bind
  rintro cls _ third third' hThird _ _ ⟨rfl, hClass⟩
  apply (agrees_intType hThird table).bind
  rintro int _ fourth fourth' hFourth _ _ ⟨rfl, hInt, hInt'⟩
  apply (agrees_pointerType hFourth int).bind
  rintro lengthsType _ fifth fifth' hFifth hGrown₅ hGrown₅' rfl
  apply (agrees_factoryParams hFifth hEntitled _
    primitive).bind
  rintro params _ sixth sixth' hSixth hGrown₆ hGrown₆' rfl
  apply Agrees.environment
  rw [hSixth.adds.grown.objectArray,
    hSixth.adds'.grown.objectArray]
  apply (agrees_classType hSixth hEntitled.objectArray).bind
  rintro arrayType _ seventh seventh' hSeventh hGrown₇ hGrown₇'
    rfl
  apply (agrees_runtimeMethod hSeventh _ _ _ _ _ _).bind
  rintro method method' eighth eighth' hEighth hGrown₈ hGrown₈'
    ⟨hMethod, hMethod'⟩
  have hInt₈ := stable_primitiveType? .int _ _ _
    (((hGrown₅.trans hGrown₆).trans hGrown₇).trans hGrown₈)
    hInt
  have hInt₈' := stable_primitiveType? .int _ _ _
    (((hGrown₅'.trans hGrown₆').trans hGrown₇').trans hGrown₈')
    hInt'
  apply (agrees_intArrayType hEighth table hInt₈ hInt₈').bind
  rintro lengths _ ninth ninth' hNinth hGrown₉ hGrown₉' rfl
  apply (agrees_factoryObject hNinth hEntitled component
    primitive).bind
  rintro object _ tenth tenth' hTenth hGrown₁₀ hGrown₁₀' rfl
  apply (agrees_className hTenth hClass).bind
  intro receiver receiver' last last' hLast hGrown₁₁ hGrown₁₁'
    hReceiver
  have hLater := (hGrown₉.trans hGrown₁₀).trans hGrown₁₁
  have hLater' := (hGrown₉'.trans hGrown₁₀').trans hGrown₁₁'
  have hElement : NodeElement start last last'
      .methodInvocation method method' :=
    nodeElement_of_selector .lengths
      (stable_method? _ _ _ _ _ hLater hMethod)
      (stable_method? _ _ _ _ _ hLater' hMethod')
  exact .pure hLast ⟨⟨⟨hElement, hReceiver, rfl⟩, rfl, rfl⟩, rfl⟩

end Forms

end Choices

end Arrays

end Lowering
