import JavaSource.Tree.Basic

/-!
# Kinds of node

The constructor of a node's layer, without what it holds.
-/

namespace JavaSource

/-- What kind of node it is. -/
inductive NodeKind where
  | annotationUse | arrayAccess | arrayDimension | arrayType | assignment | assignmentOperation
  | binary | block | breakStatement | caseClause | catchClause | classDeclaration
  | compilationUnit | continueStatement | controlParentheses | doWhileLoop | elsePart | empty
  | enumValue | enumValueSet | fieldAccess | forControl | forEachControl | forEachLoop | forLoop
  | identifier | ifStatement | importDeclaration | labeled | lambda | literal
  | methodDeclaration | methodInvocation | modifier | multiCatch | namedVariable | newArray
  | newClass | packageDeclaration | parameterizedType | parentheses | primitiveType
  | returnStatement | switchStatement | ternary | throwStatement | tryStatement | typeCast
  | typeParameter | unary | variableDeclarations | whileLoop | wildcard
deriving DecidableEq, Repr

/-- The name in listings. -/
def NodeKind.name : NodeKind → String
  | annotationUse => "Annotation"
  | arrayAccess => "ArrayAccess"
  | arrayDimension => "ArrayDimension"
  | arrayType => "ArrayType"
  | assignment => "Assignment"
  | assignmentOperation => "AssignmentOperation"
  | binary => "Binary"
  | block => "Block"
  | breakStatement => "Break"
  | caseClause => "Case"
  | catchClause => "Catch"
  | classDeclaration => "ClassDeclaration"
  | compilationUnit => "CompilationUnit"
  | continueStatement => "Continue"
  | controlParentheses => "ControlParentheses"
  | doWhileLoop => "DoWhileLoop"
  | elsePart => "Else"
  | empty => "Empty"
  | enumValue => "EnumValue"
  | enumValueSet => "EnumValueSet"
  | fieldAccess => "FieldAccess"
  | forControl => "ForControl"
  | forEachControl => "ForEachControl"
  | forEachLoop => "ForEachLoop"
  | forLoop => "ForLoop"
  | identifier => "Identifier"
  | ifStatement => "If"
  | importDeclaration => "Import"
  | labeled => "Label"
  | lambda => "Lambda"
  | literal => "Literal"
  | methodDeclaration => "MethodDeclaration"
  | methodInvocation => "MethodInvocation"
  | modifier => "Modifier"
  | multiCatch => "MultiCatch"
  | namedVariable => "NamedVariable"
  | newArray => "NewArray"
  | newClass => "NewClass"
  | packageDeclaration => "Package"
  | parameterizedType => "ParameterizedType"
  | parentheses => "Parentheses"
  | primitiveType => "Primitive"
  | returnStatement => "Return"
  | switchStatement => "Switch"
  | ternary => "Ternary"
  | throwStatement => "Throw"
  | tryStatement => "Try"
  | typeCast => "TypeCast"
  | typeParameter => "TypeParameter"
  | unary => "Unary"
  | variableDeclarations => "VariableDeclarations"
  | whileLoop => "WhileLoop"
  | wildcard => "Wildcard"

/-- The kind of node that has this layer. -/
def Shape.kind {α : Type} : Shape α → NodeKind
  | annotationUse .. => .annotationUse
  | arrayAccess .. => .arrayAccess
  | arrayDimension .. => .arrayDimension
  | arrayType .. => .arrayType
  | assignment .. => .assignment
  | assignmentOperation .. => .assignmentOperation
  | binary .. => .binary
  | block .. => .block
  | breakStatement .. => .breakStatement
  | caseClause .. => .caseClause
  | catchClause .. => .catchClause
  | classDeclaration .. => .classDeclaration
  | compilationUnit .. => .compilationUnit
  | continueStatement .. => .continueStatement
  | controlParentheses .. => .controlParentheses
  | doWhileLoop .. => .doWhileLoop
  | elsePart .. => .elsePart
  | empty => .empty
  | enumValue .. => .enumValue
  | enumValueSet .. => .enumValueSet
  | fieldAccess .. => .fieldAccess
  | forControl .. => .forControl
  | forEachControl .. => .forEachControl
  | forEachLoop .. => .forEachLoop
  | forLoop .. => .forLoop
  | identifier .. => .identifier
  | ifStatement .. => .ifStatement
  | importDeclaration .. => .importDeclaration
  | labeled .. => .labeled
  | lambda .. => .lambda
  | literal .. => .literal
  | methodDeclaration .. => .methodDeclaration
  | methodInvocation .. => .methodInvocation
  | modifier .. => .modifier
  | multiCatch .. => .multiCatch
  | namedVariable .. => .namedVariable
  | newArray .. => .newArray
  | newClass .. => .newClass
  | packageDeclaration .. => .packageDeclaration
  | parameterizedType .. => .parameterizedType
  | parentheses .. => .parentheses
  | primitiveType .. => .primitiveType
  | returnStatement .. => .returnStatement
  | switchStatement .. => .switchStatement
  | ternary .. => .ternary
  | throwStatement .. => .throwStatement
  | tryStatement .. => .tryStatement
  | typeCast .. => .typeCast
  | typeParameter .. => .typeParameter
  | unary .. => .unary
  | variableDeclarations .. => .variableDeclarations
  | whileLoop .. => .whileLoop
  | wildcard .. => .wildcard

/-- What kind of node it is. -/
def Tree.kind (t : Tree) : NodeKind := t.shape.kind

end JavaSource
