import Lowering.Cache.Display
import Lowering.Cache.Unwrap
import Lowering.Proofs.Cache.Operation

/-
  This file lists what can be asked of the cache, operations
  and questions alike, with the answers, and what a caller
  hands over with a request: names, and handles of types and
  of elements.

  A request is asked in the form that answers violations; the
  fatal form of it is `CacheM.fatal` of that. A request whose
  subject is absent is no request, and has no answer.

  Key definitions include:
    * `Binding.names`
    * `Cache.Answer`
    * `Cache.Operation.answer`
    * `Cache.Question`
    * `Cache.Question.answer`
    * `Cache.Request`
    * `Cache.Request.ask`
    * `Cache.Request.names`
    * `Cache.Request.types`
    * `Cache.Request.elements`

  Main results:
    * `Cache.finalState_answer`
-/

namespace Lowering

/- The names in a binding. -/
def Binding.names : Binding → List Name
  | host _ => []
  | generated binding => [binding.name]
  | generatedPackage name => [name]
  | nativeType name => [name]
  | pointer pointee => pointee.names
  | pointerToUnbound => []

/- The elements in a binding. -/
def Binding.elements : Binding → List ElementId
  | generated binding => [binding.element]
  | pointer pointee => pointee.elements
  | _ => []

namespace Cache

------------------------------------------------------------
-- Answers
------------------------------------------------------------

/- What the cache answers. -/
inductive Answer
  | name (name : Name)
  | type (ty : TypeId)
  | element (element : ElementId)
  | binding (binding : Option Binding)
  | bindings (bindings : List Binding)
  | typeData (data : TypeData)
  | elementData (data : ElementData)
  | component (ty : Option TypeId)
  | primitive (kind : Option PrimitiveKind)
  | flag (holds : Bool)
  | text (text : String)
  | count (number : Nat)
  deriving DecidableEq, Repr

/- Perform an operation and say what it answers. -/
def Operation.answer
    (table : BindingTable) : Operation → CacheM Answer
  | intern text => .name <$> Cache.internOptional text
  | wrapType binding => .type <$> Cache.wrapType table binding
  | wrapExecutable id => .type <$> Cache.wrapExecutable table id
  | wrapElement binding =>
    .element <$> Cache.wrapElement table binding
  | wrapElementOf family binding =>
    .element <$> Cache.wrapElementOf table family binding
  | wrapPackageDeclaration id annotations =>
    .element <$> Cache.wrapPackageDeclaration table id annotations
  | packageElement name => .element <$> Cache.packageElement name
  | nativeType text => .type <$> Cache.nativeType text
  | pointerType pointee => .type <$> Cache.pointerType pointee
  | syntheticArrayType component =>
    .type <$> Cache.syntheticArrayType component
  | primitiveType kind => .type <$> Cache.primitiveType table kind
  | newTypeElement text enclosing modifiers =>
    .element <$> Cache.newTypeElement text enclosing modifiers
  | newField text ty declaring modifiers =>
    .element <$> Cache.newField text ty declaring modifiers
  | newMethod selector declaring returnType modifiers =>
    .element <$>
      Cache.newMethod selector declaring returnType modifiers
  | newParameter method text ty =>
    .element <$> Cache.newParameter method text ty
  | executableTypeOf method =>
    .type <$> Cache.executableTypeOf method

theorem finalState_map
    {ε σ α β : Type}
    (change : α → β)
    (operation : EStateM ε σ α)
    (state : σ) :
    finalState ((change <$> operation) state) =
      finalState (operation state) := by
  rw [map_eq_pure_bind]
  cases hRun : operation state with
  | ok answer after =>
      rw [run_bind_ok hRun]
      rfl
  | error error after =>
      rw [run_bind_error hRun]
      rfl

/- What is done does not depend on whether it is answered. -/
theorem finalState_answer
    (table : BindingTable)
    (operation : Operation)
    (cache : Cache) :
    finalState (operation.answer table cache) =
      finalState (operation.perform table cache) := by
  cases operation <;>
    exact (finalState_map _ _ cache).trans
      (finalState_map _ _ cache).symm

/- An operation that is answered is performed. -/
theorem finalState_of_answer
    {table : BindingTable}
    {operation : Operation}
    {cache after : Cache}
    {answer : Answer}
    (hRun : operation.answer table cache = .ok answer after) :
    finalState (operation.perform table cache) = after := by
  rw [← finalState_answer, hRun]
  rfl

theorem later_of_answer
    {table : BindingTable}
    {operation : Operation}
    {cache after : Cache}
    {answer : Answer}
    (hRun : operation.answer table cache = .ok answer after) :
    Later (table, cache) (table, after) := by
  rw [← finalState_of_answer hRun]
  exact .perform operation (.same _ _)

------------------------------------------------------------
-- Questions
------------------------------------------------------------

/- What can be asked of the cache without changing it. -/
inductive Question
  | nameText (name : Name)
  | typeData (ty : TypeId)
  | componentType (ty : TypeId)
  | primitiveKind (ty : TypeId)
  | isArray (ty : TypeId)
  | isPrimitive (ty : TypeId)
  | categoryName (ty : TypeId)
  | display (ty : TypeId)
  | bindingOfType (ty : TypeId)
  | typeBindingOfType (ty : TypeId)
  | typeCount
  | element (id : ElementId)
  | elementName (id : ElementId)
  | unwrap (id : ElementId)
  | unwrapOf (family : ElementFamily) (id : ElementId)
  | unwrapAnnotations (id : ElementId)
  | elementCount

/- What the cache answers to a question. -/
def Question.answer
    (table : BindingTable)
    (cache : Cache) : Question → Except CacheError Answer
  | nameText name => .text <$> cache.nameText name
  | typeData ty => .typeData <$> cache.typeData ty
  | componentType ty => .component <$> cache.componentType ty
  | primitiveKind ty => .primitive <$> cache.primitiveKind ty
  | isArray ty => .flag <$> cache.isArray ty
  | isPrimitive ty => .flag <$> cache.isPrimitive ty
  | categoryName ty => .text <$> cache.categoryName ty
  | display ty => .text <$> cache.display ty
  | bindingOfType ty => .binding <$> cache.bindingOfType table ty
  | typeBindingOfType ty =>
    .binding <$> cache.typeBindingOfType table ty
  | typeCount => .ok (.count cache.typeCount)
  | element id => .elementData <$> cache.element id
  | elementName id => .text <$> cache.elementName id
  | unwrap id => (.binding ∘ some) <$> cache.unwrap id
  | unwrapOf family id =>
    (.binding ∘ some) <$> cache.unwrapOf family id
  | unwrapAnnotations id =>
    .bindings <$> cache.unwrapAnnotations id
  | elementCount => .ok (.count cache.elementCount)

------------------------------------------------------------
-- Requests
------------------------------------------------------------

/- Anything that can be asked of the cache. -/
inductive Request
  | operation (operation : Operation)
  | question (question : Question)

/- Ask for an answer or a violation. -/
def Request.ask
    (table : BindingTable) : Request → CacheM Answer
  | .operation asked => asked.answer table
  | .question asked =>
    CacheM.inspect fun cache => asked.answer table cache

theorem ask_question
    (table : BindingTable)
    (asked : Question)
    (cache : Cache) :
    (Request.question asked).ask table cache =
      match asked.answer table cache with
      | .ok answer => .ok answer cache
      | .error error => .error error cache := by
  show CacheM.inspect
    (fun cache => asked.answer table cache) cache = _
  cases hAnswer : asked.answer table cache with
  | ok answer => exact run_inspectCache_ok hAnswer
  | error error => exact run_inspectCache_error hAnswer

theorem ask_question_error
    {table : BindingTable}
    {asked : Question}
    {cache : Cache}
    {error : CacheError}
    (hAnswer : asked.answer table cache = .error error) :
    (Request.question asked).ask table cache =
      .error error cache := by
  rw [ask_question, hAnswer]

------------------------------------------------------------
-- What A Request Hands Over
------------------------------------------------------------

/- The names that an operation is given. -/
def Operation.names : Operation → List Name
  | wrapType binding => binding.names
  | wrapElement binding => binding.names
  | wrapElementOf _ binding => binding.names
  | packageElement name => [name]
  | _ => []

/- The names that a question is about. -/
def Question.names : Question → List Name
  | nameText name => [name]
  | _ => []

/- The names that come with a request. -/
def Request.names : Request → List Name
  | .operation asked => asked.names
  | .question asked => asked.names

/- The types that an operation is given. -/
def Operation.types : Operation → List TypeId
  | pointerType pointee => [pointee]
  | syntheticArrayType component => [component]
  | newField _ ty _ _ => [ty]
  | newMethod _ _ returnType _ => [returnType]
  | newParameter _ _ ty => [ty]
  | _ => []

/- The types that a question is about. -/
def Question.types : Question → List TypeId
  | typeData ty => [ty]
  | componentType ty => [ty]
  | primitiveKind ty => [ty]
  | isArray ty => [ty]
  | isPrimitive ty => [ty]
  | categoryName ty => [ty]
  | display ty => [ty]
  | bindingOfType ty => [ty]
  | typeBindingOfType ty => [ty]
  | _ => []

/- The types that come with a request. -/
def Request.types : Request → List TypeId
  | .operation asked => asked.types
  | .question asked => asked.types

/- The elements that an operation is given. -/
def Operation.elements : Operation → List ElementId
  | wrapType binding => binding.elements
  | wrapElement binding => binding.elements
  | wrapElementOf _ binding => binding.elements
  | newTypeElement _ enclosing _ => enclosing.toList
  | newField _ _ declaring _ => [declaring]
  | newMethod _ declaring _ _ => [declaring]
  | newParameter method _ _ => [method]
  | executableTypeOf method => [method]
  | _ => []

/- The elements that a question is about. -/
def Question.elements : Question → List ElementId
  | element id => [id]
  | elementName id => [id]
  | unwrap id => [id]
  | unwrapOf _ id => [id]
  | unwrapAnnotations id => [id]
  | _ => []

/- The elements that come with a request. -/
def Request.elements : Request → List ElementId
  | .operation asked => asked.elements
  | .question asked => asked.elements

end Cache

end Lowering
