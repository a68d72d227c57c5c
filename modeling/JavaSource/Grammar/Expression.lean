import JavaSource.Grammar.Body

/-!
# Expressions

Binary expressions are read by precedence: an operand on the right binds tighter than the operator,
one on the left at least as tight. Greater signs that directly follow each other are one operator.
-/

namespace JavaSource.Grammar

open JavaSource.Parser Lookahead

variable (g : Productions)

/-! ### Operators ahead -/

/-- The comparison or shift that starts with a greater sign, with its number of tokens; nothing when
it is a shift that assigns. -/
def greaterAhead (ts : List Token) : Option (BinaryOperator × Nat) :=
  if isJoined ts 1 .greater then
    if isJoined ts 2 .greater then
      if isJoined ts 3 .assign then none else some (.unsignedRightShift, 3)
    else if isJoined ts 2 .assign then none
    else some (.rightShift, 2)
  else if isJoined ts 1 .assign then some (.greaterThanOrEqual, 2)
  else some (.greaterThan, 1)

/-- The binary operator that comes next, with its number of tokens. -/
def binaryAhead (ts : List Token) : Option (BinaryOperator × Nat) :=
  match kindOf ts with
  | .plus => some (.addition, 1)
  | .minus => some (.subtraction, 1)
  | .star => some (.multiplication, 1)
  | .slash => some (.division, 1)
  | .percent => some (.modulo, 1)
  | .less => some (.lessThan, 1)
  | .lessEqual => some (.lessThanOrEqual, 1)
  | .shiftLeft => some (.leftShift, 1)
  | .equalEqual => some (.equal, 1)
  | .notEqual => some (.notEqual, 1)
  | .ampersand => some (.bitAnd, 1)
  | .bar => some (.bitOr, 1)
  | .caret => some (.bitXor, 1)
  | .andAnd => some (.and, 1)
  | .orOr => some (.or, 1)
  | .greater => greaterAhead ts
  | _ => none

/-- The assignment that comes next, with its number of tokens; a plain one has no operator. -/
def assignmentAhead (ts : List Token) : Option (Option AssignmentOperator × Nat) :=
  match kindOf ts with
  | .assign => some (none, 1)
  | .plusAssign => some (some .addition, 1)
  | .minusAssign => some (some .subtraction, 1)
  | .starAssign => some (some .multiplication, 1)
  | .slashAssign => some (some .division, 1)
  | .percentAssign => some (some .modulo, 1)
  | .ampersandAssign => some (some .bitAnd, 1)
  | .barAssign => some (some .bitOr, 1)
  | .caretAssign => some (some .bitXor, 1)
  | .shiftLeftAssign => some (some .leftShift, 1)
  | .greater =>
    if !isJoined ts 1 .greater then none
    else if isJoined ts 2 .assign then some (some .rightShift, 3)
    else if isJoined ts 2 .greater && isJoined ts 3 .assign then some (some .unsignedRightShift, 4)
    else none
  | _ => none

/-- The operator that a token is in front of an operand. -/
def unaryAhead : TokenKind → Option UnaryOperator
  | .plusPlus => some .preIncrement
  | .minusMinus => some .preDecrement
  | .plus => some .positive
  | .minus => some .negative
  | .tilde => some .complement
  | .bang => some .not
  | _ => none

/-- The type of the literal that a token is. -/
def literalKind (kind : TokenKind) (text : Text) : Option Primitive :=
  let endsWith (cs : List Char) : Bool := text.getLast?.any cs.contains
  match kind with
  | .intLiteral => some (if endsWith ['l', 'L'] then .long else .int)
  | .floatLiteral => some (if endsWith ['f', 'F'] then .float else .double)
  | .stringLiteral => some .string
  | .charLiteral => some .char
  | .trueWord | .falseWord => some .boolean
  | .nullWord => some .null
  | _ => none

/-! ### Primaries -/

/-- An index in brackets, or empty brackets. -/
def arrayDimension : Parser Tree := do
  let leading ← expect .openBracket
  let index ← if ← at? .closeBracket then placeholder else followed g.expression
  let _ ← expect .closeBracket
  node leading (.arrayDimension index)

/-- The creation of an object or an array. -/
def creation : Parser Tree := do
  let leading ← expect .newWord
  let name ← typeWithoutDimensions g
  if ← at? .openBracket then
    let dimensions ← whileAt .openBracket (arrayDimension g)
    let values ← ifAt .openBrace (arrayValues g)
    node leading (.newArray (some name) dimensions values)
  else
    let arguments ← arguments g
    let body ← ifAt .openBrace (classBody g)
    node leading (.newClass name arguments body none)

/-- A name, or a call without receiver. -/
def nameOrCall : Parser Tree := do
  let name ← anyName
  if ← at? .openParen then
    let (leading, name) := name.lift
    node leading (.methodInvocation ⟨none, none, name, ← arguments g, none⟩)
  else return name

/-- A literal, name, call, creation, or an expression in parentheses. -/
def primary : Parser Tree := do
  let kind ← peek
  if let some type := literalKind kind (← text) then
    let leading ← takeSpace
    let source ← text
    let _ ← bump
    node leading (.literal source type)
  else
    match kind with
    | .identifier | .thisWord | .superWord => nameOrCall g
    | .openParen =>
      let leading ← bump
      let inner ← followed g.expression
      let _ ← expect .closeParen
      node leading (.parentheses inner)
    | .newWord => creation g
    | .openBrace => arrayInitializer g
    | kind => if kind.primitive?.isSome then type g else fail .expression

/-- A member of the target: a field, or a call with the target as its receiver. -/
def selection (target : Tree) : Parser Tree := do
  let before ← expect .dot
  let typeArguments ← ifAt .less (typeArguments g)
  let name ←
    match ← peek with
    | .identifier | .thisWord | .classWord | .superWord => anyName
    | _ => fail .memberName
  let (leading, target) := target.lift
  if typeArguments.isSome || (← at? .openParen) then
    node leading
      (.methodInvocation ⟨some ⟨target, before⟩, typeArguments, name, ← arguments g, none⟩)
  else node leading (.fieldAccess target ⟨before, name⟩ none)

/-- An operator behind an operand. -/
def postfixOperation (operator : UnaryOperator) (operand : Tree) : Parser Tree := do
  let before ← bump
  let (leading, operand) := operand.lift
  node leading (.unary before operator operand)

/-- A primary with its selections, indices and operators behind it. -/
def postfixExpression : Parser Tree := do
  repeating (← primary g) fun operand => do
    match ← peek with
    | .dot => return some (← selection g operand)
    | .openBracket =>
      let dimension ← arrayDimension g
      let (leading, array) := operand.lift
      return some (← node leading (.arrayAccess array dimension))
    | .plusPlus => return some (← postfixOperation .postIncrement operand)
    | .minusMinus => return some (← postfixOperation .postDecrement operand)
    | _ => return none

/-! ### Operations -/

/-- A type in parentheses, and its operand. -/
def cast : Parser Tree := do
  let leading ← expect .openParen
  let type ← followed (type g)
  let _ ← expect .closeParen
  let operand ← g.unary
  node leading (.typeCast (← node .empty (.controlParentheses type)) operand)

/-- Operators and casts in front of an operand. -/
def unaryExpression : Parser Tree := do
  match unaryAhead (← peek) with
  | some operator =>
    let leading ← bump
    node leading (.unary .empty operator (← g.unary))
  | none => if isCast (← tokens) then cast g else postfixExpression g

/-- Operands with operators between them that bind at least as tight as `least`. -/
def binaryExpression (least : Nat) : Parser Tree := do
  repeating (← unaryExpression g) fun left => do
    match binaryAhead (← tokens) with
    | none => return none
    | some (operator, width) =>
      if operator.precedence < least then return none
      let before ← takeSpace
      skip width
      let right ← g.binary (operator.precedence + 1)
      let (leading, left) := left.lift
      return some (← node leading (.binary left before operator right none))

/-- The parameter of a lambda expression in parentheses. -/
def lambdaParameter : Parser Tree := do
  if isLocalVariable (← tokens) || (← at? .finalWord) then parameter g else identifier

/-- A lambda expression. -/
def lambda : Parser Tree := do
  let leading ← takeSpace
  let (before, parenthesized, parameters) ←
    if ← at? .identifier then do
      let name ← identifier
      pure (Space.empty, false, [Followed.bare name])
    else do
      let parameters ← delimited .openParen .closeParen (lambdaParameter g)
      pure (parameters.before, true, parameters.elements)
  let beforeArrow ← expect .arrow
  let body ← if ← at? .openBrace then block g else g.expression
  node leading (.lambda ⟨before, parenthesized, parameters, beforeArrow, body⟩)

/-- A condition with the values it chooses from. -/
def ternaryExpression : Parser Tree := do
  let condition ← binaryExpression g 1
  if ← at? .question then
    let beforeQuestion ← bump
    let whenTrue ← g.expression
    let beforeColon ← expect .colon
    let whenFalse ← if isLambda (← tokens) then lambda g else g.ternary
    let (leading, condition) := condition.lift
    node leading (.ternary condition ⟨beforeQuestion, whenTrue⟩ ⟨beforeColon, whenFalse⟩)
  else return condition

/-- A lambda expression, an assignment, or what is assigned to. -/
def expression : Parser Tree := do
  if isLambda (← tokens) then lambda g
  else
    let target ← ternaryExpression g
    match assignmentAhead (← tokens) with
    | none => return target
    | some (operator, width) =>
      let before ← takeSpace
      skip width
      let value ← g.expression
      let (leading, target) := target.lift
      match operator with
      | none => node leading (.assignment target ⟨before, value⟩)
      | some operator => node leading (.assignmentOperation target before operator value)

end JavaSource.Grammar
