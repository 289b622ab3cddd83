import Lowering.Handle
import Lowering.Tree.Tag

/-
  This file defines the kinds of tree nodes. A kind holds
  whatever a node of it holds beside its type and its element;
  the type of its children is a parameter.

  One traversal, `NodeKind.traverse`, knows where the children
  of each kind are. Whatever rebuilds a kind goes through it.
  The order in which it passes the children is the order of
  `NodeKind.children`: documentation, annotations and name
  first, then what is particular to the kind.

  Key definitions include:
    * `FunctionRef`
    * `NodeKind`
    * `NodeKind.tag`
    * `NodeKind.children`
    * `NodeKind.list?`
    * `NodeKind.traverse`
    * `NodeKind.withChildren`
    * `NodeKind.append`
    * `NodeKind.markRetained?`
-/

namespace Lowering

------------------------------------------------------------
-- Runtime Functions
------------------------------------------------------------

/-
  A plain function of the runtime, as opposed to a method.
-/
structure FunctionRef where
  name : Name
  /- The return type that the runtime declares. -/
  returnType : TypeId
  /- The runtime class that the function belongs to. -/
  declaring : ElementId
  params : List TypeId := []
  /- The variant whose result is retained, if there is one. -/
  retainedName : Option Name := none
  deriving DecidableEq, Inhabited, Repr

------------------------------------------------------------
-- Node Kinds
------------------------------------------------------------

/-
  The kinds of nodes over a type of children, the fields in
  the order of traversal.
-/
inductive NodeKind (α : Type)
  | compilationUnit
      (package : Option α)
      (types : List α)
  | packageDeclaration
      (javadoc : Option α)
      (annotations : List α)
      (name : α)
  | enumDeclaration
      (javadoc : Option α)
      (annotations : List α)
      (name : α)
      (constants : List α)
      (body : List α)
  | enumConstantDeclaration
      (annotations : List α)
      (name : α)
      (arguments : List α)
  | methodDeclaration
      (javadoc : Option α)
      (annotations : List α)
      (name : α)
      (parameters : List α)
      (body : Option α)
  | variableDeclaration
      (name : α)
      (initializer : Option α)
  | javadoc (text : Name)
  | annotationUse (typeName : α)
  | block (statements : List α)
  | expressionStatement (expression : α)
  | returnStatement (expression : Option α)
  | simpleName (identifier : Name)
  | qualifiedName (qualifier name : α)
  | fieldAccess (expression name : α)
  | arrayAccess (array index : α)
  | arrayCreation
      (dimensions : List α)
      (initializer : Option α)
      (retained : Bool)
  | arrayInitializer (expressions : List α)
  | assignment (op : AssignOp) (lhs rhs : α)
  /- A test against the type of a type reference. -/
  | instanceOf (expression tested : α)
  | classInstanceCreation
      (arguments : List α)
      (retained : Bool)
  /- A call of the method that is the element of the node. -/
  | methodInvocation
      (receiver : Option α)
      (arguments : List α)
  | functionInvocation
      (function : FunctionRef)
      (arguments : List α)
      (retained : Bool)
  | prefixOperation (op : PrefixOp) (operand : α)
  | postfixOperation (op : PostfixOp) (operand : α)
  | numberLiteral (value : Int)
  | stringLiteral (value : Name)
  | nullLiteral
  /- The class object of a type. -/
  | typeLiteral (literal : TypeId)
  /- The type of the node, named in source position. -/
  | typeRef
  deriving DecidableEq, Inhabited, Repr

namespace NodeKind

variable {α β : Type}

/- The kind without what it holds. -/
def tag : NodeKind α → NodeTag
  | compilationUnit _ _ => .compilationUnit
  | packageDeclaration _ _ _ => .packageDeclaration
  | enumDeclaration _ _ _ _ _ => .enumDeclaration
  | enumConstantDeclaration _ _ _ => .enumConstantDeclaration
  | methodDeclaration _ _ _ _ _ => .methodDeclaration
  | variableDeclaration _ _ => .variableDeclaration
  | javadoc _ => .javadoc
  | annotationUse _ => .annotationUse
  | block _ => .block
  | expressionStatement _ => .expressionStatement
  | returnStatement _ => .returnStatement
  | simpleName _ => .simpleName
  | qualifiedName _ _ => .qualifiedName
  | fieldAccess _ _ => .fieldAccess
  | arrayAccess _ _ => .arrayAccess
  | arrayCreation _ _ _ => .arrayCreation
  | arrayInitializer _ => .arrayInitializer
  | assignment _ _ _ => .assignment
  | instanceOf _ _ => .instanceOf
  | classInstanceCreation _ _ => .classInstanceCreation
  | methodInvocation _ _ => .methodInvocation
  | functionInvocation _ _ _ => .functionInvocation
  | prefixOperation _ _ => .prefixOperation
  | postfixOperation _ _ => .postfixOperation
  | numberLiteral _ => .numberLiteral
  | stringLiteral _ => .stringLiteral
  | nullLiteral => .nullLiteral
  | typeLiteral _ => .typeLiteral
  | typeRef => .typeRef

------------------------------------------------------------
-- Children
------------------------------------------------------------

/- The children of a kind in the order of traversal. -/
def children : NodeKind α → List α
  | compilationUnit package types => package.toList ++ types
  | packageDeclaration doc annotations name =>
    doc.toList ++ annotations ++ [name]
  | enumDeclaration doc annotations name constants body =>
    doc.toList ++ annotations ++ name :: constants ++ body
  | enumConstantDeclaration annotations name arguments =>
    annotations ++ name :: arguments
  | methodDeclaration doc annotations name parameters body =>
    doc.toList ++ annotations ++
      name :: parameters ++ body.toList
  | variableDeclaration name initializer =>
    name :: initializer.toList
  | annotationUse typeName => [typeName]
  | block statements => statements
  | expressionStatement expression => [expression]
  | returnStatement expression => expression.toList
  | qualifiedName qualifier name => [qualifier, name]
  | fieldAccess expression name => [expression, name]
  | arrayAccess array index => [array, index]
  | arrayCreation dimensions initializer _ =>
    dimensions ++ initializer.toList
  | arrayInitializer expressions => expressions
  | assignment _ lhs rhs => [lhs, rhs]
  | instanceOf expression tested => [expression, tested]
  | classInstanceCreation arguments _ => arguments
  | methodInvocation receiver arguments =>
    receiver.toList ++ arguments
  | functionInvocation _ arguments _ => arguments
  | prefixOperation _ operand => [operand]
  | postfixOperation _ operand => [operand]
  | javadoc _ | simpleName _ | numberLiteral _ | stringLiteral _
  | nullLiteral | typeLiteral _ | typeRef => []

/- The child list of a kind with a given name, if any. -/
def list? : ListSlot → NodeKind α → Option (List α)
  | .types, compilationUnit _ types => some types
  | .annotations, packageDeclaration _ annotations _ =>
    some annotations
  | .annotations, enumDeclaration _ annotations _ _ _ =>
    some annotations
  | .annotations, enumConstantDeclaration annotations _ _ =>
    some annotations
  | .annotations, methodDeclaration _ annotations _ _ _ =>
    some annotations
  | .constants, enumDeclaration _ _ _ constants _ =>
    some constants
  | .body, enumDeclaration _ _ _ _ body => some body
  | .arguments, enumConstantDeclaration _ _ arguments =>
    some arguments
  | .arguments, classInstanceCreation arguments _ =>
    some arguments
  | .arguments, methodInvocation _ arguments => some arguments
  | .arguments, functionInvocation _ arguments _ =>
    some arguments
  | .parameters, methodDeclaration _ _ _ parameters _ =>
    some parameters
  | .statements, block statements => some statements
  | .dimensions, arrayCreation dimensions _ _ =>
    some dimensions
  | .expressions, arrayInitializer expressions =>
    some expressions
  | _, _ => none

------------------------------------------------------------
-- Traversal
------------------------------------------------------------

/-
  Rebuild a kind over new children. Single children go through
  `one` and child lists, under their names, through `many`;
  the effects run in the order of the children.
-/
def traverse
    {m : Type → Type}
    [Monad m]
    (one : α → m β)
    (many : ListSlot → List α → m (List β)) :
    NodeKind α → m (NodeKind β)
  | compilationUnit package types => do
    let package ← package.mapM one
    let types ← many .types types
    return compilationUnit package types
  | packageDeclaration doc annotations name => do
    let doc ← doc.mapM one
    let annotations ← many .annotations annotations
    let name ← one name
    return packageDeclaration doc annotations name
  | enumDeclaration doc annotations name constants body => do
    let doc ← doc.mapM one
    let annotations ← many .annotations annotations
    let name ← one name
    let constants ← many .constants constants
    let body ← many .body body
    return enumDeclaration doc annotations name constants body
  | enumConstantDeclaration annotations name arguments => do
    let annotations ← many .annotations annotations
    let name ← one name
    let arguments ← many .arguments arguments
    return enumConstantDeclaration annotations name arguments
  | methodDeclaration doc annotations name parameters body => do
    let doc ← doc.mapM one
    let annotations ← many .annotations annotations
    let name ← one name
    let parameters ← many .parameters parameters
    let body ← body.mapM one
    return methodDeclaration doc annotations name parameters body
  | variableDeclaration name initializer => do
    let name ← one name
    let initializer ← initializer.mapM one
    return variableDeclaration name initializer
  | javadoc text => return javadoc text
  | annotationUse typeName => return annotationUse (← one typeName)
  | block statements =>
    return block (← many .statements statements)
  | expressionStatement expression =>
    return expressionStatement (← one expression)
  | returnStatement expression =>
    return returnStatement (← expression.mapM one)
  | simpleName identifier => return simpleName identifier
  | qualifiedName qualifier name => do
    let qualifier ← one qualifier
    let name ← one name
    return qualifiedName qualifier name
  | fieldAccess expression name => do
    let expression ← one expression
    let name ← one name
    return fieldAccess expression name
  | arrayAccess array index => do
    let array ← one array
    let index ← one index
    return arrayAccess array index
  | arrayCreation dimensions initializer retained => do
    let dimensions ← many .dimensions dimensions
    let initializer ← initializer.mapM one
    return arrayCreation dimensions initializer retained
  | arrayInitializer expressions =>
    return arrayInitializer (← many .expressions expressions)
  | assignment op lhs rhs => do
    let lhs ← one lhs
    let rhs ← one rhs
    return assignment op lhs rhs
  | instanceOf expression tested => do
    let expression ← one expression
    let tested ← one tested
    return instanceOf expression tested
  | classInstanceCreation arguments retained =>
    return classInstanceCreation (← many .arguments arguments) retained
  | methodInvocation receiver arguments => do
    let receiver ← receiver.mapM one
    let arguments ← many .arguments arguments
    return methodInvocation receiver arguments
  | functionInvocation function arguments retained => do
    let arguments ← many .arguments arguments
    return functionInvocation function arguments retained
  | prefixOperation op operand =>
    return prefixOperation op (← one operand)
  | postfixOperation op operand =>
    return postfixOperation op (← one operand)
  | numberLiteral value => return numberLiteral value
  | stringLiteral value => return stringLiteral value
  | nullLiteral => return nullLiteral
  | typeLiteral literal => return typeLiteral literal
  | typeRef => return typeRef

/- Rebuild a kind over new children, one child at a time. -/
def mapM
    {m : Type → Type}
    [Monad m]
    (act : α → m β) : NodeKind α → m (NodeKind β) :=
  traverse act fun _ => List.mapM act

/- The first of the remaining children, if any remain. -/
def takeChild (present : α) : StateM (List α) α :=
  modifyGet fun
    | [] => (present, [])
    | child :: rest => (child, rest)

/-
  Put children into the places of a kind, in the order of
  traversal. Places beyond the given children keep theirs.
-/
def withChildren
    (kind : NodeKind α)
    (children : List α) : NodeKind α :=
  ((kind.mapM takeChild).run children).1

/- Append a child to the list of a kind with a given name. -/
def append
    (slot : ListSlot)
    (child : α)
    (kind : NodeKind α) : NodeKind α :=
  Id.run <| kind.traverse pure fun name children =>
    if name = slot then
      children ++ [child]
    else
      children

------------------------------------------------------------
-- Retained Results
------------------------------------------------------------

/-
  Ask a kind for a retained result. Only creations and calls
  of runtime functions can be asked.
-/
def markRetained? : NodeKind α → Option (NodeKind α)
  | arrayCreation dimensions initializer _ =>
    some (arrayCreation dimensions initializer true)
  | classInstanceCreation arguments _ =>
    some (classInstanceCreation arguments true)
  | functionInvocation function arguments _ =>
    some (functionInvocation function arguments true)
  | _ => none

end NodeKind

end Lowering
