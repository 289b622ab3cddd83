/-
  This file defines the closed vocabularies of the tree: the
  tags of node kinds, the child lists that can be edited in
  place, and the operators of expressions.

  Key definitions include:
    * `NodeTag`
    * `NodeTag.label`
    * `ListSlot`
    * `ListSlot.label`
    * `AssignOp`
    * `PrefixOp`
    * `PostfixOp`
-/

namespace Lowering

------------------------------------------------------------
-- Node Tags
------------------------------------------------------------

/- The kind of a node without what the node holds. -/
inductive NodeTag
  | compilationUnit
  | packageDeclaration
  | enumDeclaration
  | enumConstantDeclaration
  | methodDeclaration
  | variableDeclaration
  | javadoc
  | annotationUse
  | block
  | expressionStatement
  | returnStatement
  | simpleName
  | qualifiedName
  | fieldAccess
  | arrayAccess
  | arrayCreation
  | arrayInitializer
  | assignment
  | instanceOf
  | classInstanceCreation
  | methodInvocation
  | functionInvocation
  | prefixOperation
  | postfixOperation
  | numberLiteral
  | stringLiteral
  | nullLiteral
  | typeLiteral
  | typeRef
  deriving DecidableEq, Inhabited, Repr

namespace NodeTag

/- The spelling of a tag in reports. -/
def label : NodeTag → String
  | compilationUnit => "CompilationUnit"
  | packageDeclaration => "PackageDeclaration"
  | enumDeclaration => "EnumDeclaration"
  | enumConstantDeclaration => "EnumConstantDeclaration"
  | methodDeclaration => "MethodDeclaration"
  | variableDeclaration => "VariableDeclaration"
  | javadoc => "Javadoc"
  | annotationUse => "Annotation"
  | block => "Block"
  | expressionStatement => "ExpressionStatement"
  | returnStatement => "ReturnStatement"
  | simpleName => "SimpleName"
  | qualifiedName => "QualifiedName"
  | fieldAccess => "FieldAccess"
  | arrayAccess => "ArrayAccess"
  | arrayCreation => "ArrayCreation"
  | arrayInitializer => "ArrayInitializer"
  | assignment => "Assignment"
  | instanceOf => "InstanceOf"
  | classInstanceCreation => "ClassInstanceCreation"
  | methodInvocation => "MethodInvocation"
  | functionInvocation => "FunctionInvocation"
  | prefixOperation => "Prefix"
  | postfixOperation => "Postfix"
  | numberLiteral => "NumberLiteral"
  | stringLiteral => "StringLiteral"
  | nullLiteral => "NullLiteral"
  | typeLiteral => "TypeLiteral"
  | typeRef => "TypeRef"

/- Every tag. -/
def all : List NodeTag :=
  [compilationUnit, packageDeclaration, enumDeclaration,
    enumConstantDeclaration, methodDeclaration,
    variableDeclaration, javadoc, annotationUse, block,
    expressionStatement, returnStatement, simpleName,
    qualifiedName, fieldAccess, arrayAccess, arrayCreation,
    arrayInitializer, assignment, instanceOf,
    classInstanceCreation, methodInvocation,
    functionInvocation, prefixOperation, postfixOperation,
    numberLiteral, stringLiteral, nullLiteral, typeLiteral,
    typeRef]

/- The tag with a given spelling. -/
def ofLabel? (text : String) : Option NodeTag :=
  all.find? (·.label = text)

instance : ToString NodeTag := ⟨label⟩

end NodeTag

------------------------------------------------------------
-- Child Lists
------------------------------------------------------------

/- The names of the child lists of all kinds of nodes. -/
inductive ListSlot
  | types
  | annotations
  | constants
  | body
  | arguments
  | parameters
  | statements
  | dimensions
  | expressions
  deriving DecidableEq, Inhabited, Repr

namespace ListSlot

/- The spelling of a list in reports. -/
def label : ListSlot → String
  | types => "Types"
  | annotations => "Annotations"
  | constants => "Constants"
  | body => "Body"
  | arguments => "Arguments"
  | parameters => "Parameters"
  | statements => "Statements"
  | dimensions => "Dimensions"
  | expressions => "Expressions"

/- Every name of a list. -/
def all : List ListSlot :=
  [types, annotations, constants, body, arguments, parameters,
    statements, dimensions, expressions]

/- The list with a given spelling. -/
def ofLabel? (text : String) : Option ListSlot :=
  all.find? (·.label = text)

instance : ToString ListSlot := ⟨label⟩

end ListSlot

------------------------------------------------------------
-- Operators
------------------------------------------------------------

/- The operators of an assignment. -/
inductive AssignOp
  | assign
  | plusAssign
  | minusAssign
  | timesAssign
  | divideAssign
  | remainderAssign
  | bitAndAssign
  | bitOrAssign
  | bitXorAssign
  | leftShiftAssign
  | rightShiftSignedAssign
  | rightShiftUnsignedAssign
  deriving DecidableEq, Inhabited, Repr

namespace AssignOp

/- The spelling of an operator of assignment. -/
def label : AssignOp → String
  | assign => "Assign"
  | plusAssign => "PlusAssign"
  | minusAssign => "MinusAssign"
  | timesAssign => "TimesAssign"
  | divideAssign => "DivideAssign"
  | remainderAssign => "RemainderAssign"
  | bitAndAssign => "BitAndAssign"
  | bitOrAssign => "BitOrAssign"
  | bitXorAssign => "BitXorAssign"
  | leftShiftAssign => "LeftShiftAssign"
  | rightShiftSignedAssign => "RightShiftSignedAssign"
  | rightShiftUnsignedAssign => "RightShiftUnsignedAssign"

/- Every operator of assignment. -/
def all : List AssignOp :=
  [assign, plusAssign, minusAssign, timesAssign, divideAssign,
    remainderAssign, bitAndAssign, bitOrAssign, bitXorAssign,
    leftShiftAssign, rightShiftSignedAssign,
    rightShiftUnsignedAssign]

/- The operator of assignment with a given spelling. -/
def ofLabel? (text : String) : Option AssignOp :=
  all.find? (·.label = text)

end AssignOp

/-
  The operators written before their operand, among them the
  two on pointers that calls of the runtime need.
-/
inductive PrefixOp
  | increment
  | decrement
  | plus
  | minus
  | complement
  | not
  | dereference
  | addressOf
  deriving DecidableEq, Inhabited, Repr

namespace PrefixOp

/- The spelling of an operator before its operand. -/
def label : PrefixOp → String
  | increment => "Increment"
  | decrement => "Decrement"
  | plus => "Plus"
  | minus => "Minus"
  | complement => "Complement"
  | not => "Not"
  | dereference => "Dereference"
  | addressOf => "AddressOf"

/- Every operator before its operand. -/
def all : List PrefixOp :=
  [increment, decrement, plus, minus, complement, not,
    dereference, addressOf]

/- The operator before its operand with a given spelling. -/
def ofLabel? (text : String) : Option PrefixOp :=
  all.find? (·.label = text)

end PrefixOp

/- The operators written behind their operand. -/
inductive PostfixOp
  | increment
  | decrement
  deriving DecidableEq, Inhabited, Repr

namespace PostfixOp

/- The spelling of an operator behind its operand. -/
def label : PostfixOp → String
  | increment => "Increment"
  | decrement => "Decrement"

/- Every operator behind its operand. -/
def all : List PostfixOp := [increment, decrement]

/- The operator behind its operand with a given spelling. -/
def ofLabel? (text : String) : Option PostfixOp :=
  all.find? (·.label = text)

end PostfixOp

end Lowering
