import JavaSource.Tree.Slot

/-!
# Traversing one layer

`Shape.traverse` rebuilds a layer from the results of one action for each kind of slot, run in the
order of the source. The space before the first token belongs to the node and not to its layer.
-/

namespace JavaSource

/-- What to do at the slots of a layer, in any monad. -/
structure SlotActions (m : Type → Type) (α β : Type) where
  /-- At a part without padding. -/
  part : α → m β
  /-- At a space that stands alone. -/
  space : SpaceSlot → Space → m Space
  /-- At an element with a space after it. -/
  followed : FollowedSlot → Followed α → m (Followed β)
  /-- At an element with a space before the word that introduces it. -/
  preceded : PrecededSlot → Preceded α → m (Preceded β)
  /-- At the space before an operator or a keyword. -/
  word : PrecededSlot → Space → m Space
  /-- At a list. -/
  series : SeriesSlot → Series α → m (Series β)

namespace Shape

variable {m : Type → Type} [Monad m] {α β : Type}

/-- Runs the actions at the slots of a layer, in the order of the source. -/
def traverse (act : SlotActions m α β) : Shape α → m (Shape β)
  | annotationUse name arguments => do
    let name ← act.part name
    return annotationUse name (← arguments.mapM (act.series .annotationArguments))
  | arrayAccess array dimension => do
    let array ← act.part array
    return arrayAccess array (← act.part dimension)
  | arrayDimension index => return arrayDimension (← act.followed .arrayIndex index)
  | arrayType element beforeOpen beforeClose => do
    let element ← act.part element
    let beforeOpen ← act.space (.leading .arrayDimension) beforeOpen
    return arrayType element beforeOpen (← act.space .dimensionEnd beforeClose)
  | assignment target value => do
    let target ← act.part target
    return assignment target (← act.preceded .assignment value)
  | assignmentOperation target beforeOperator operator value => do
    let target ← act.part target
    let beforeOperator ← act.word .assignmentOperator beforeOperator
    return assignmentOperation target beforeOperator operator (← act.part value)
  | binary left beforeOperator operator right type => do
    let left ← act.part left
    let beforeOperator ← act.word .binaryOperator beforeOperator
    return binary left beforeOperator operator (← act.part right) type
  | block afterStatic statements beforeClose => do
    let afterStatic ← afterStatic.mapM (act.space .afterStatic)
    let statements ← statements.mapM (act.followed .blockStatement)
    return block afterStatic statements (← act.space .blockEnd beforeClose)
  | breakStatement label => return breakStatement (← label.mapM act.part)
  | caseClause value statements => do
    let value ← value.mapM act.part
    return caseClause value (← act.series .caseStatements statements)
  | catchClause parameter body => do
    let parameter ← act.part parameter
    return catchClause parameter (← act.part body)
  | classDeclaration d => do
    let annotations ← d.annotations.mapM act.part
    let modifiers ← d.modifiers.mapM act.part
    let beforeKind ← act.space .classKind d.beforeKind
    let name ← act.part d.name
    let typeParameters ← d.typeParameters.mapM (act.series .typeParameters)
    let superclass ← d.superclass.mapM (act.preceded .superclass)
    let interfaces ← d.interfaces.mapM (act.series .interfaces)
    let body ← act.part d.body
    return classDeclaration
      ⟨annotations, modifiers, beforeKind, d.kind, name, typeParameters, superclass, interfaces,
        body, d.type⟩
  | compilationUnit u => do
    let package ← u.package.mapM (act.followed .packageDeclaration)
    let imports ← u.imports.mapM (act.followed .importDeclaration)
    let declarations ← u.declarations.mapM act.part
    return compilationUnit
      ⟨package, imports, declarations, ← act.space .endOfUnit u.beforeEnd⟩
  | continueStatement label => return continueStatement (← label.mapM act.part)
  | controlParentheses inner => return controlParentheses (← act.followed .parentheses inner)
  | doWhileLoop body condition => do
    let body ← act.followed .loopBody body
    return doWhileLoop body (← act.preceded .whileCondition condition)
  | elsePart body => return elsePart (← act.followed .elseBody body)
  | empty => return empty
  | enumValue name arguments => do
    let name ← act.part name
    return enumValue name (← arguments.mapM (act.series .constructorArguments))
  | enumValueSet values semicolon =>
    return enumValueSet (← values.mapM (act.followed .enumValue)) semicolon
  | fieldAccess target name type => do
    let target ← act.part target
    return fieldAccess target (← act.preceded .fieldName name) type
  | forControl init condition update => do
    let init ← init.mapM (act.followed .forInit)
    let condition ← act.followed .forCondition condition
    return forControl init condition (← update.mapM (act.followed .forUpdate))
  | forEachControl declared iterable => do
    let declared ← act.followed .forEachVariable declared
    return forEachControl declared (← act.followed .forEachIterable iterable)
  | forEachLoop control body => do
    let control ← act.part control
    return forEachLoop control (← act.followed .forBody body)
  | forLoop control body => do
    let control ← act.part control
    return forLoop control (← act.followed .forBody body)
  | identifier name type => return identifier name type
  | ifStatement condition thenPart alternative => do
    let condition ← act.part condition
    let thenPart ← act.followed .thenBody thenPart
    return ifStatement condition thenPart (← alternative.mapM act.part)
  | importDeclaration beforeStatic isStatic name => do
    let beforeStatic ← act.word .staticImport beforeStatic
    return importDeclaration beforeStatic isStatic (← act.part name)
  | labeled label statement => do
    let label ← act.followed .label label
    return labeled label (← act.part statement)
  | lambda l => do
    let beforeParameters ← act.space .lambdaParameters l.beforeParameters
    let parameters ← l.parameters.mapM (act.followed .lambdaParameter)
    let beforeArrow ← act.space .lambdaArrow l.beforeArrow
    return lambda
      ⟨beforeParameters, l.parenthesized, parameters, beforeArrow, ← act.part l.body⟩
  | literal source kind => return literal source kind
  | methodDeclaration d => do
    let annotations ← d.annotations.mapM act.part
    let modifiers ← d.modifiers.mapM act.part
    let typeParameters ← d.typeParameters.mapM (act.series .typeParameters)
    let returnType ← d.returnType.mapM act.part
    let name ← act.part d.name
    let parameters ← act.series .methodParameters d.parameters
    let thrown ← d.thrown.mapM (act.series .thrownTypes)
    let body ← d.body.mapM act.part
    return methodDeclaration
      ⟨annotations, modifiers, typeParameters, returnType, name, parameters, thrown, body, d.type⟩
  | methodInvocation i => do
    let receiver ← i.receiver.mapM (act.followed .receiver)
    let typeArguments ← i.typeArguments.mapM (act.series .typeParameters)
    let name ← act.part i.name
    return methodInvocation
      ⟨receiver, typeArguments, name, ← act.series .methodArguments i.arguments, i.type⟩
  | modifier word => return modifier word
  | multiCatch alternatives =>
    return multiCatch (← alternatives.mapM (act.followed .catchAlternative))
  | namedVariable name initializer type => do
    let name ← act.part name
    return namedVariable name (← initializer.mapM (act.preceded .initializer)) type
  | newArray element dimensions values => do
    let element ← element.mapM act.part
    let dimensions ← dimensions.mapM act.part
    return newArray element dimensions (← values.mapM (act.series .arrayValues))
  | newClass name arguments body type => do
    let name ← act.part name
    let arguments ← act.series .constructorArguments arguments
    return newClass name arguments (← body.mapM act.part) type
  | packageDeclaration annotations name => do
    let annotations ← annotations.mapM act.part
    return packageDeclaration annotations (← act.part name)
  | parameterizedType name arguments type => do
    let name ← act.part name
    return parameterizedType name (← arguments.mapM (act.series .typeParameters)) type
  | parentheses inner => return parentheses (← act.followed .parentheses inner)
  | primitiveType primitive => return primitiveType primitive
  | returnStatement value => return returnStatement (← value.mapM act.part)
  | switchStatement selector cases => do
    let selector ← act.part selector
    return switchStatement selector (← act.part cases)
  | ternary condition whenTrue whenFalse => do
    let condition ← act.part condition
    let whenTrue ← act.preceded .ternaryTrue whenTrue
    return ternary condition whenTrue (← act.preceded .ternaryFalse whenFalse)
  | throwStatement value => return throwStatement (← act.part value)
  | tryStatement body catches finallyBlock => do
    let body ← act.part body
    let catches ← catches.mapM act.part
    return tryStatement body catches (← finallyBlock.mapM (act.preceded .finallyBlock))
  | typeCast type operand => do
    let type ← act.part type
    return typeCast type (← act.part operand)
  | typeParameter annotations name bounds => do
    let annotations ← annotations.mapM act.part
    let name ← act.part name
    return typeParameter annotations name (← bounds.mapM (act.series .typeBounds))
  | unary beforeOperator operator operand =>
    if operator.isPostfix then do
      let operand ← act.part operand
      return unary (← act.word .unaryOperator beforeOperator) operator operand
    else do
      let beforeOperator ← act.word .unaryOperator beforeOperator
      return unary beforeOperator operator (← act.part operand)
  | variableDeclarations d => do
    let annotations ← d.annotations.mapM act.part
    let modifiers ← d.modifiers.mapM act.part
    let type ← d.type.mapM act.part
    let beforeDots ← d.beforeDots.mapM (act.space .dots)
    return variableDeclarations
      ⟨annotations, modifiers, type, beforeDots, ← d.declarators.mapM (act.followed .declarator)⟩
  | whileLoop condition body => do
    let condition ← act.part condition
    return whileLoop condition (← act.followed .loopBody body)
  | wildcard bound type => do
    let bound ← bound.mapM fun b => return (← act.word .wildcardBound b.1, b.2)
    return wildcard bound (← type.mapM act.part)

end Shape

/-- The actions that change each part by `f` and keep every space. -/
def SlotActions.ofMap {α β : Type} (f : α → β) : SlotActions Id α β where
  part := f
  space _ s := s
  followed _ := Followed.map f
  preceded _ := Preceded.map f
  word _ s := s
  series _ s := ⟨s.before, s.elements.map (Followed.map f)⟩

/-- The layer with each part changed by `f`. -/
def Shape.map {α β : Type} (f : α → β) (x : Shape α) : Shape β :=
  Id.run (x.traverse (SlotActions.ofMap f))

end JavaSource
