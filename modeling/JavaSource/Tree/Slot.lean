import JavaSource.Tree.Kind

/-!
# Slots

Where in the tree a space or a padded element sits. A formatting rule decides by the slot of a
space, not by what the space holds.
-/

namespace JavaSource

/-- The place of an element with a space after it. -/
inductive FollowedSlot where
  | annotationArgument | arrayIndex | blockStatement | caseStatement | catchAlternative | enumValue
  | forBody | forCondition | forEachIterable | forEachVariable | forInit | forUpdate
  | elseBody | thenBody | interface | importDeclaration | label | lambdaParameter
  | methodParameter | methodArgument | receiver | declarator | arrayValue | constructorArgument
  | packageDeclaration | parentheses | thrownType | typeBound | typeParameter | loopBody
deriving DecidableEq, Repr

/-- The place of an element, operator or keyword with a space before it. -/
inductive PrecededSlot where
  | assignment | assignmentOperator | binaryOperator | superclass | fieldName | staticImport
  | ternaryFalse | ternaryTrue | finallyBlock | unaryOperator | initializer | whileCondition
  | wildcardBound
deriving DecidableEq, Repr

/-- The place of a list with a space before it. -/
inductive SeriesSlot where
  | annotationArguments | caseStatements | interfaces | methodParameters | methodArguments
  | arrayValues | constructorArguments | thrownTypes | typeBounds | typeParameters
deriving DecidableEq, Repr

/-- The place of a space. -/
inductive SpaceSlot where
  /-- Before the first token of a node. -/
  | leading (kind : NodeKind)
  /-- After an element. -/
  | after (slot : FollowedSlot)
  /-- Before the operator or keyword that introduces an element. -/
  | before (slot : PrecededSlot)
  /-- Before the delimiter or keyword that opens a list. -/
  | opening (slot : SeriesSlot)
  /-- Before the closing brace of a block. -/
  | blockEnd
  /-- Between the keyword of a static initializer and its brace. -/
  | afterStatic
  /-- Before the keyword of a type declaration. -/
  | classKind
  /-- After the last declaration of a file. -/
  | endOfUnit
  /-- Before the three dots of a parameter of variable arity. -/
  | dots
  /-- Before the parameters of a lambda expression. -/
  | lambdaParameters
  /-- Before the arrow of a lambda expression. -/
  | lambdaArrow
  /-- Before the closing bracket of an array type. -/
  | dimensionEnd
deriving DecidableEq, Repr

/-- The place of each element of a list. -/
def SeriesSlot.element : SeriesSlot → FollowedSlot
  | annotationArguments => .annotationArgument
  | caseStatements => .caseStatement
  | interfaces => .interface
  | methodParameters => .methodParameter
  | methodArguments => .methodArgument
  | arrayValues => .arrayValue
  | constructorArguments => .constructorArgument
  | thrownTypes => .thrownType
  | typeBounds => .typeBound
  | typeParameters => .typeParameter

/-- The name in listings. -/
def FollowedSlot.name : FollowedSlot → String
  | annotationArgument => "AnnotationArgument"
  | arrayIndex => "ArrayIndex"
  | blockStatement => "BlockStatement"
  | caseStatement => "Case"
  | catchAlternative => "CatchAlternative"
  | enumValue => "EnumValue"
  | forBody => "ForBody"
  | forCondition => "ForCondition"
  | forEachIterable => "ForEachIterable"
  | forEachVariable => "ForEachVariable"
  | forInit => "ForInit"
  | forUpdate => "ForUpdate"
  | elseBody => "IfElse"
  | thenBody => "IfThen"
  | interface => "Implements"
  | importDeclaration => "Import"
  | label => "Label"
  | lambdaParameter => "LambdaParameter"
  | methodParameter => "MethodDeclarationParameter"
  | methodArgument => "MethodInvocationArgument"
  | receiver => "MethodSelect"
  | declarator => "NamedVariable"
  | arrayValue => "NewArrayInitializer"
  | constructorArgument => "NewClassArguments"
  | packageDeclaration => "Package"
  | parentheses => "Parentheses"
  | thrownType => "Throws"
  | typeBound => "TypeBound"
  | typeParameter => "TypeParameter"
  | loopBody => "WhileBody"

/-- The name in listings. -/
def PrecededSlot.name : PrecededSlot → String
  | assignment => "Assignment"
  | assignmentOperator => "AssignmentOperationOperator"
  | binaryOperator => "BinaryOperator"
  | superclass => "Extends"
  | fieldName => "FieldAccessName"
  | staticImport => "StaticImport"
  | ternaryFalse => "TernaryFalse"
  | ternaryTrue => "TernaryTrue"
  | finallyBlock => "TryFinally"
  | unaryOperator => "UnaryOperator"
  | initializer => "VariableInitializer"
  | whileCondition => "WhileCondition"
  | wildcardBound => "WildcardBound"

/-- The name in listings. -/
def SeriesSlot.name : SeriesSlot → String
  | annotationArguments => "AnnotationArguments"
  | caseStatements => "Case"
  | interfaces => "Implements"
  | methodParameters => "MethodDeclarationParameters"
  | methodArguments => "MethodInvocationArguments"
  | arrayValues => "NewArrayInitializer"
  | constructorArguments => "NewClassArguments"
  | thrownTypes => "Throws"
  | typeBounds => "TypeBounds"
  | typeParameters => "TypeParameters"

/-- The name in listings. Five kinds of node have a shorter name for the space before them. -/
def SpaceSlot.name : SpaceSlot → String
  | leading .arrayDimension => "DimensionPrefix"
  | leading .doWhileLoop => "DoWhilePrefix"
  | leading .forLoop => "ForPrefix"
  | leading .namedVariable => "VariablePrefix"
  | leading .whileLoop => "WhilePrefix"
  | leading kind => kind.name ++ "Prefix"
  | after slot => slot.name ++ "Suffix"
  | before slot => slot.name
  | opening slot => slot.name
  | blockEnd => "BlockEnd"
  | afterStatic => "StaticInitSuffix"
  | classKind => "ClassKind"
  | endOfUnit => "CompilationUnitEof"
  | dots => "Varargs"
  | lambdaParameters => "LambdaParametersPrefix"
  | lambdaArrow => "LambdaArrowPrefix"
  | dimensionEnd => "DimensionSuffix"

end JavaSource
