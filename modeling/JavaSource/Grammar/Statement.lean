import JavaSource.Grammar.Declaration
import JavaSource.Grammar.Expression

/-!
# Statements
-/

namespace JavaSource.Grammar

open JavaSource.Parser Lookahead

variable (g : Productions)

/-- A statement with its semicolon. -/
def terminated : Parser (Followed Tree) := do terminate (← g.statement)

/-- An expression in the parentheses of a statement. -/
def controlParentheses : Parser Tree := do
  let leading ← expect .openParen
  let inner ← followed g.expression
  let _ ← expect .closeParen
  node leading (.controlParentheses inner)

/-- The label that a jump names, if it does. -/
def jumpLabel : Parser (Option Tree) := ifAt .identifier identifier

/-- A statement behind its label. -/
def labeled : Parser Tree := do
  let (leading, name) := (← identifier).lift
  let after ← expect .colon
  node leading (.labeled ⟨name, after⟩ (← g.statement))

/-- A choice between two statements. -/
def ifStatement : Parser Tree := do
  let leading ← expect .ifWord
  let condition ← controlParentheses g
  let thenPart ← terminated g
  let alternative ← ifAt .elseWord do
    let leading ← bump
    node leading (.elsePart (← terminated g))
  node leading (.ifStatement condition thenPart alternative)

/-- A loop with its condition in front. -/
def whileLoop : Parser Tree := do
  let leading ← expect .whileWord
  let condition ← controlParentheses g
  node leading (.whileLoop condition (← terminated g))

/-- A loop with its condition behind. -/
def doWhileLoop : Parser Tree := do
  let leading ← expect .doWord
  let body ← terminated g
  let before ← expect .whileWord
  node leading (.doWhileLoop body ⟨before, ← controlParentheses g⟩)

/-- Expressions with commas between them. -/
def expressionList : Parser (List (Followed Tree)) := do
  let first ← followed g.expression
  let others ← whileAt .comma do
    let _ ← bump
    followed g.expression
  return first :: others

/-- The header of a loop over the values of an expression. -/
def forEachControl : Parser Tree := do
  let leading ← expect .openParen
  let declared ← followed (member g)
  let _ ← expect .colon
  let iterable ← followed g.expression
  let _ ← expect .closeParen
  node leading (.forEachControl declared iterable)

/-- The header of a loop with a counter. A section that is left out holds a placeholder. -/
def forControl : Parser Tree := do
  let leading ← expect .openParen
  let init ←
    if ← at? .semicolon then pure [← placeholder]
    else if isLocalVariable (← tokens) || (← at? .finalWord) then pure [← followed (member g)]
    else expressionList g
  let _ ← expect .semicolon
  let condition ← if ← at? .semicolon then placeholder else followed g.expression
  let _ ← expect .semicolon
  let update ← if ← at? .closeParen then pure [← placeholder] else expressionList g
  let _ ← expect .closeParen
  node leading (.forControl init condition update)

/-- A loop with a header. -/
def forLoop : Parser Tree := do
  let leading ← expect .forWord
  if isForEach 0 (← tokens) then
    let control ← forEachControl g
    node leading (.forEachLoop control (← terminated g))
  else
    let control ← forControl g
    node leading (.forLoop control (← terminated g))

/-- The type of what is caught, or several types with bars between them. -/
def caughtType : Parser Tree := do
  let first ← type g
  if ← at? .bar then
    let (leading, first) := first.lift
    let others ← whileAt .bar do
      let after ← bump
      return (after, ← type g)
    let spaces := others.map Prod.fst ++ [.empty]
    node leading
      (.multiCatch ((first :: others.map Prod.snd).zipWith Followed.mk spaces))
  else return first

/-- A handler of exceptions. -/
def catchClause : Parser Tree := do
  let leading ← expect .catchWord
  let beforeOpen ← expect .openParen
  let beforeParameter ← takeSpace
  let modifiers ← whileAt .finalWord (modifier .final)
  let type ← caughtType g
  let declared ← namedVariable g false
  let parameter ← node beforeParameter
    (.variableDeclarations ⟨[], modifiers, some type, none, [.bare declared]⟩)
  let after ← takeSpace
  let _ ← expect .closeParen
  let body ← block g
  node leading (.catchClause (← node beforeOpen (.controlParentheses ⟨parameter, after⟩)) body)

/-- A block with its handlers, of which there is at least one. -/
def tryStatement : Parser Tree := do
  let leading ← expect .tryWord
  let body ← block g
  let catches ← whileAt .catchWord (catchClause g)
  let finallyBlock ← ifAt .finallyWord do
    let before ← bump
    return Preceded.mk before (← block g)
  if catches.isEmpty && finallyBlock.isNone then fail .catchOrFinally
  else node leading (.tryStatement body catches finallyBlock)

/-- A case with its statements. -/
def caseClause : Parser Tree := do
  let leading ← takeSpace
  let value ←
    if ← at? .defaultWord then do
      let _ ← bump
      pure none
    else do
      let _ ← expect .caseWord
      pure (some (← g.expression))
  let before ← expect .colon
  let statements ← collecting do
    match ← peek with
    | .caseWord | .defaultWord | .closeBrace | .eof => return none
    | _ => return some (← terminated g)
  node leading (.caseClause value ⟨before, statements⟩)

/-- A choice by the value of an expression. -/
def switchStatement : Parser Tree := do
  let leading ← expect .switchWord
  let selector ← controlParentheses g
  let beforeOpen ← expect .openBrace
  let cases ← collecting do
    if (← at? .caseWord) || (← at? .defaultWord) then return some (.bare (← caseClause g))
    else return none
  let beforeClose ← expect .closeBrace
  node leading (.switchStatement selector (← node beforeOpen (.block none cases beforeClose)))

/-- An expression that can stand as a statement. -/
def expressionStatement : Parser Tree := do
  let start ← tokens
  let tree ← g.expression
  if tree.needsSemicolon then return tree else failAt start .statement

/-- A statement, without its semicolon. -/
def statement : Parser Tree := do
  match ← peek with
  | .openBrace => block g
  | .ifWord => ifStatement g
  | .whileWord => whileLoop g
  | .doWord => doWhileLoop g
  | .forWord => forLoop g
  | .tryWord => tryStatement g
  | .switchWord => switchStatement g
  | .returnWord =>
    let leading ← bump
    let value ← if ← at? .semicolon then pure none else pure (some (← g.expression))
    node leading (.returnStatement value)
  | .throwWord =>
    let leading ← bump
    node leading (.throwStatement (← g.expression))
  | .breakWord =>
    let leading ← bump
    node leading (.breakStatement (← jumpLabel))
  | .continueWord =>
    let leading ← bump
    node leading (.continueStatement (← jumpLabel))
  | .semicolon => node (← takeSpace) .empty
  | .classWord | .interfaceWord | .enumWord | .finalWord | .abstractWord | .atSign => member g
  | kind =>
    if kind = .identifier && (← peekNext) == .colon then labeled g
    else if isLocalVariable (← tokens) then member g
    else expressionStatement g

end JavaSource.Grammar
