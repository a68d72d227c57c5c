import JavaSource.Style.Basic
import JavaSource.Visit.Local

/-!
# Spacing

Adds or removes the single blank around parentheses, braces, operators and separators. White space
of more than one blank, and line breaks, stay as they are.
-/

namespace JavaSource

/-- One blank where it is wanted and there is no white space; none where it is not wanted and there
is exactly one. -/
def Space.padded (wanted : Bool) (s : Space) : Space :=
  if wanted && s.whitespace == [] then { s with whitespace := [' '] }
  else if !wanted && s.whitespace == [' '] then { s with whitespace := [] }
  else s

/-- The same for the space after an element, which keeps a blank before a comment. -/
def Space.paddedAfter (wanted : Bool) (s : Space) : Space :=
  if wanted || s.comments.isEmpty then s.padded wanted else s

/-- The node with its leading space padded. -/
def Tree.padded (wanted : Bool) (t : Tree) : Tree := t.mapLeading (Space.padded wanted)

/-- An element with the space after it padded. -/
def Followed.paddedAfter (wanted : Bool) (x : Followed Tree) : Followed Tree :=
  x.mapAfter (Space.paddedAfter wanted)

/-- An element with its leading space and the space after it padded. -/
def Followed.paddedWithin (wanted : Bool) (x : Followed Tree) : Followed Tree :=
  (x.map (Tree.padded wanted)).paddedAfter wanted

/-- An element with its leading space and the space before the word that introduces it padded. -/
def Preceded.padded (wanted : Bool) (x : Preceded Tree) : Preceded Tree :=
  (x.mapBefore (Space.padded wanted)).map (Tree.padded wanted)

/-- A list of elements with its spaces changed: before the first element, before each other one,
before each separator, and after the last element. -/
def padElements (opening afterComma beforeComma closing : Space → Space) :
    List (Followed Tree) → List (Followed Tree)
  | [] => []
  | [x] => [(x.map (Tree.mapLeading opening)).mapAfter closing]
  | x :: xs =>
    (x.map (Tree.mapLeading opening)).mapAfter beforeComma ::
      padElements afterComma afterComma beforeComma closing xs

/-- A list in delimiters with the spaces inside them and around separators padded. -/
def padList (within afterComma beforeComma : Bool) : List (Followed Tree) → List (Followed Tree) :=
  padElements (Space.padded within) (Space.padded afterComma) (Space.paddedAfter beforeComma)
    (Space.paddedAfter within)

/-- A list in delimiters with the spaces inside them and after separators padded. -/
def padAfterCommas (within afterComma : Bool) : List (Followed Tree) → List (Followed Tree) :=
  padElements (Space.padded within) (Space.padded afterComma) id (Space.paddedAfter within)

/-- A list with the spaces around separators padded. -/
def padSeparators (afterComma beforeComma : Bool) : List (Followed Tree) → List (Followed Tree) :=
  padElements id (Space.padded afterComma) (Space.paddedAfter beforeComma) id

/-- The list holds nothing but a placeholder, or starts with one. -/
def startsEmpty (xs : List (Followed Tree)) : Bool := xs.head?.any fun x => x.element.isEmpty

/-- Arguments or parameters in parentheses, with a rule of their own when there are none. -/
def padArguments (emptyWithin within : Bool) (separators : AroundSeparators)
    (xs : List (Followed Tree)) : List (Followed Tree) :=
  if startsEmpty xs then xs.map (Followed.map (Tree.padded emptyWithin))
  else padList within separators.afterComma separators.beforeComma xs

/-- The parentheses of a statement padded on the outside and on the inside. -/
def Tree.padParentheses (before within : Bool) (t : Tree) : Tree :=
  match t.shape with
  | .controlParentheses inner =>
    (t.padded before).withShape (.controlParentheses (inner.paddedWithin within))
  | _ => t.padded before

/-- A blank is wanted around operators of this category. -/
def AroundOperators.wants (style : AroundOperators) : OperatorCategory → Bool
  | .logical => style.logical
  | .equality => style.equality
  | .relational => style.relational
  | .bitwise => style.bitwise
  | .additive => style.additive
  | .multiplicative => style.multiplicative
  | .shift => style.shift

namespace Spacing

/-- Pads the braces and the type parameters of a class. -/
def padClass (style : Spacing) (d : ClassDeclaration Tree) : ClassDeclaration Tree :=
  let within :=
    if d.kind = .enumeration then style.separators.emptyEnumBraces else style.within.codeBraces
  let body := d.body.padded style.beforeBrace.classBody
  { d with
    body := match body.shape with
      | .block afterStatic [] beforeClose =>
        body.withShape (.block afterStatic [] (beforeClose.padded within))
      | _ => body
    typeParameters := d.typeParameters.map fun ps =>
      (ps.mapBefore (Space.padded style.typeParameters.beforeOpening)).mapElements
        (padAfterCommas style.within.angleBrackets style.separators.afterComma) }

/-- Pads the parentheses, the body and the type parameters of a method. -/
def padMethod (style : Spacing) (d : MethodDeclaration Tree) : MethodDeclaration Tree :=
  { d with
    parameters :=
      (d.parameters.mapBefore (Space.padded style.beforeParentheses.methodDeclaration)).mapElements
        (padArguments style.within.emptyMethodParameters style.within.methodParameters
          style.separators)
    body := d.body.map (Tree.padded style.beforeBrace.methodBody)
    typeParameters := d.typeParameters.map (Series.mapElements
      (padAfterCommas style.within.angleBrackets style.separators.afterComma)) }

/-- Pads the parentheses and the type arguments of a call. -/
def padInvocation (style : Spacing) (i : MethodInvocation Tree) : MethodInvocation Tree :=
  { i with
    arguments :=
      (i.arguments.mapBefore (Space.padded style.beforeParentheses.methodCall)).mapElements
        (padArguments style.within.emptyMethodArguments style.within.methodArguments
          style.separators)
    typeArguments := i.typeArguments.map fun ps =>
      (ps.mapBefore (Space.padded style.typeArguments.beforeOpening)).mapElements
        (mapRest (Followed.map (Tree.padded style.typeArguments.afterComma)))
    name :=
      if i.typeArguments.isSome then i.name.padded style.typeArguments.afterClosing else i.name }

/-- Pads the initializers of a `for` loop; only the first of them. -/
def padForInit (styles : Styles) (init : List (Followed Tree)) : List (Followed Tree) :=
  let style := styles.spacing
  mapFirst (fun x =>
    let within := match styles.emptyForInit with
      | some wanted => if x.element.isEmpty then wanted else style.within.forHeader
      | none => style.within.forHeader
    (x.map (Tree.padded within)).paddedAfter style.separators.beforeForSemicolon) init

/-- Pads the updates of a `for` loop. -/
def padForUpdate (styles : Styles) (update : List (Followed Tree)) : List (Followed Tree) :=
  let style := styles.spacing
  let usual := padElements (Space.padded style.separators.afterForSemicolon)
    (Space.padded style.separators.afterComma) (Space.paddedAfter style.separators.beforeComma)
    (Space.paddedAfter style.within.forHeader) update
  match styles.emptyForUpdate, update with
  | some wanted, [x] => if x.element.isEmpty then [x.map (Tree.padded wanted)] else usual
  | _, _ => usual

/-- Pads the header of a `for` loop. -/
def padForControl (styles : Styles) (control : Tree) : Tree :=
  let style := styles.spacing
  let control := control.padded style.beforeParentheses.forHeader
  match control.shape with
  | .forControl init condition update =>
    control.withShape (.forControl (padForInit styles init)
      ((condition.map (Tree.padded style.separators.afterForSemicolon)).paddedAfter
        style.separators.beforeForSemicolon)
      (padForUpdate styles update))
  | _ => control

/-- Pads the header of a loop over a collection. -/
def padForEachControl (style : Spacing) (control : Tree) : Tree :=
  let control := control.padded style.beforeParentheses.forHeader
  match control.shape with
  | .forEachControl declared iterable =>
    control.withShape (.forEachControl
      ((declared.map (Tree.padded style.within.forHeader)).paddedAfter
        style.separators.beforeForEachColon)
      (iterable.paddedAfter style.within.forHeader))
  | _ => control

/-- Pads the parentheses of the arguments of an annotation. Between parentheses that want no blank,
the brace of an array may want one. -/
def padAnnotationArguments (style : Spacing) (arguments : Series Tree) : Series Tree :=
  let within := style.within.annotationArguments
  let opening :=
    if within || !style.beforeBrace.annotationArrayValues then Space.padded within else id
  (arguments.mapBefore (Space.padded style.beforeParentheses.annotationArguments)).mapElements
    (padElements opening id id (Space.paddedAfter within))

/-- Pads the braces and the separators of an array. -/
def padArrayValues (style : Spacing) (values : List (Followed Tree)) : List (Followed Tree) :=
  if startsEmpty values then
    let separated :=
      if style.separators.afterComma then mapRest (Followed.map (Tree.padded true)) values
      else values
    separated.map (Followed.map (Tree.padded style.within.emptyArrayValues))
  else padList style.within.arrayValues style.separators.afterComma style.separators.beforeComma
    values

/-- Pads the index of an array access. -/
def padDimension (style : Spacing) (dimension : Tree) : Tree :=
  match dimension.shape with
  | .arrayDimension index =>
    let within := style.within.brackets
    dimension.withShape
      (.arrayDimension ((index.map (Tree.padded within)).mapAfter (Space.padded within)))
  | _ => dimension

/-- Pads the parentheses of a cast on the inside. -/
def padCastType (style : Spacing) (type : Tree) : Tree :=
  match type.shape with
  | .controlParentheses inner =>
    type.withShape (.controlParentheses (inner.paddedWithin style.within.typeCast))
  | _ => type

/-- Pads the arguments of a type. -/
def padTypeArguments (style : Spacing) (arguments : Series Tree) : Series Tree :=
  let arguments := arguments.mapBefore (Space.padded style.typeArguments.beforeOpening)
  if startsEmpty arguments.elements then arguments
  else arguments.mapElements
    (padAfterCommas style.within.angleBrackets style.typeArguments.afterComma)

end Spacing

/-- Pads the spaces of a layer. -/
def Shape.pad (styles : Styles) (annotated : Bool) : Shape Tree → Shape Tree :=
  let style := styles.spacing
  fun
  | classDeclaration d => classDeclaration (style.padClass d)
  | methodDeclaration d => methodDeclaration (style.padMethod d)
  | methodInvocation i => methodInvocation (style.padInvocation i)
  | ifStatement condition thenPart alternative =>
    ifStatement
      (condition.padParentheses style.beforeParentheses.ifCondition style.within.ifCondition)
      (thenPart.map (Tree.padded style.beforeBrace.ifBody)) alternative
  | elsePart body => elsePart (body.map (Tree.padded style.beforeBrace.elseBody))
  | forLoop control body =>
    forLoop (Spacing.padForControl styles control)
      (body.map (Tree.padded style.beforeBrace.forBody))
  | forEachLoop control body =>
    forEachLoop (style.padForEachControl control)
      (body.map (Tree.padded style.beforeBrace.forBody))
  | whileLoop condition body =>
    whileLoop
      (condition.padParentheses style.beforeParentheses.whileCondition style.within.whileCondition)
      (body.map (Tree.padded style.beforeBrace.whileBody))
  | doWhileLoop body condition =>
    doWhileLoop (body.map (Tree.padded style.beforeBrace.doBody))
      ((condition.mapBefore (Space.padded style.beforeKeywords.whileKeyword)).map
        (Tree.padParentheses style.beforeParentheses.whileCondition style.within.whileCondition))
  | switchStatement selector cases =>
    switchStatement
      (selector.padParentheses style.beforeParentheses.switchSelector style.within.switchSelector)
      (cases.padded style.beforeBrace.switchBody)
  | tryStatement body catches finallyBlock =>
    tryStatement (body.padded style.beforeBrace.tryBody) catches
      (finallyBlock.map fun f =>
        (f.mapBefore (Space.padded style.beforeKeywords.finallyKeyword)).map
          (Tree.padded style.beforeBrace.finallyBody))
  | catchClause parameter body =>
    catchClause
      (parameter.padParentheses style.beforeParentheses.catchParameter style.within.catchParameter)
      (body.padded style.beforeBrace.catchBody)
  | annotationUse name arguments =>
    annotationUse name (arguments.map style.padAnnotationArguments)
  | assignment target value => assignment target (value.padded style.aroundOperators.assignment)
  | assignmentOperation target beforeOperator operator value =>
    let around := style.aroundOperators.assignment
    assignmentOperation target (beforeOperator.padded around) operator (value.padded around)
  | namedVariable name initializer type =>
    namedVariable name (initializer.map (Preceded.padded style.aroundOperators.assignment)) type
  | binary left beforeOperator operator right type =>
    let around := style.aroundOperators.wants operator.category
    binary left (beforeOperator.padded around) operator (right.padded around) type
  | unary beforeOperator operator operand =>
    let around := style.aroundOperators.unary
    unary (beforeOperator.padded around) operator
      (if operator.isPostfix then operand else operand.padded around)
  | lambda l =>
    let around := style.aroundOperators.lambdaArrow
    lambda { l with
      beforeArrow := l.beforeArrow.padded around
      body := l.body.padded around
      parameters :=
        if startsEmpty l.parameters then l.parameters
        else padSeparators style.separators.afterComma style.separators.beforeComma l.parameters }
  | newArray element dimensions values =>
    newArray element dimensions (values.map fun s =>
      (if annotated then s
        else s.mapBefore (Space.padded style.beforeBrace.arrayValues)).mapElements
        style.padArrayValues)
  | arrayAccess array dimension => arrayAccess array (style.padDimension dimension)
  | parentheses inner =>
    let within := style.within.parentheses
    parentheses ((inner.map (Tree.padded within)).mapAfter (Space.padded within))
  | typeCast type operand =>
    typeCast (style.padCastType type) (operand.padded style.separators.afterTypeCast)
  | parameterizedType name arguments type =>
    parameterizedType name (arguments.map style.padTypeArguments) type
  | ternary condition whenTrue whenFalse =>
    let around := style.ternary
    ternary condition
      ((whenTrue.mapBefore (Space.padded around.beforeQuestion)).map
        (Tree.padded around.afterQuestion))
      ((whenFalse.mapBefore (Space.padded around.beforeColon)).map (Tree.padded around.afterColon))
  | newClass name arguments body type =>
    newClass name
      ((arguments.mapBefore (Space.padded style.beforeParentheses.methodCall)).mapElements
        (padSeparators style.separators.afterComma style.separators.beforeComma))
      body type
  | enumValue name arguments =>
    enumValue name (arguments.map (Series.mapElements
      (padSeparators style.separators.afterComma style.separators.beforeComma)))
  | typeParameter annotations name bounds =>
    let around := style.typeParameters.aroundBounds
    typeParameter annotations name (bounds.map (Series.mapElements (padSeparators around around)))
  | x => x

/-- Pads the leading space of the nodes that pad their own: a part of a statement that starts with a
keyword, and an array in an annotation. -/
def Tree.padLeading (style : Spacing) (annotated : Bool) (t : Tree) : Tree :=
  match t.shape with
  | .elsePart _ => t.padded style.beforeKeywords.elseKeyword
  | .catchClause _ _ => t.padded style.beforeKeywords.catchKeyword
  | .newArray _ _ _ =>
    if annotated && !style.within.annotationArguments then
      t.padded style.beforeBrace.annotationArrayValues
    else t
  | _ => t

/-- Pads the spaces of a node, given the kind of the node above. -/
def Tree.pad (styles : Styles) (parent : Option NodeKind) (t : Tree) : Tree :=
  let annotated := parent == some .annotationUse
  (t.padLeading styles.spacing annotated).withShape (t.shape.pad styles annotated)

/-- Pads the spaces inside lines. -/
def spacePadder (styles : Styles) (stopAfter : Option NodeId) : Visitor Unit Unit :=
  .ofNodes stopAfter (Tree.pad styles)

end JavaSource
