import JavaSource.Grammar.Type
import JavaSource.Tree.Printer

/-!
# Blocks, variables and class bodies

The productions that expressions, statements and declarations share. A statement does not read its
own semicolon; `terminate` does, for the list or the slot that holds the statement.
-/

namespace JavaSource.Grammar

open JavaSource.Parser

variable (g : Productions)

/-- The semicolon of a statement, if it needs one. -/
def terminate (statement : Tree) : Parser (Followed Tree) := do
  if statement.needsSemicolon then return ⟨statement, ← expect .semicolon⟩
  else return .bare statement

/-- Statements or members up to the closing brace, each with its semicolon. -/
def itemsUntilBrace (item : Parser Tree) : Parser (List (Followed Tree)) :=
  collecting do
    if (← at? .closeBrace) || (← at? .eof) then return none
    else return some (← terminate (← item))

/-- The braces of a block, and the statements in them. -/
def blockBody (leading : Space) (afterStatic : Option Space) : Parser Tree := do
  let _ ← expect .openBrace
  let statements ← itemsUntilBrace g.statement
  let beforeClose ← expect .closeBrace
  node leading (.block afterStatic statements beforeClose)

/-- A block. -/
def block : Parser Tree := do blockBody g (← takeSpace) none

/-- The body of a class. -/
def classBody : Parser Tree := do
  let leading ← expect .openBrace
  let members ← itemsUntilBrace g.member
  let beforeClose ← expect .closeBrace
  node leading (.block none members beforeClose)

/-- The values in the braces of an array. -/
def arrayValues : Parser (Series Tree) :=
  delimited .openBrace .closeBrace do
    if ← at? .openBrace then g.arrayInitializer else g.expression

/-- Braces around the values of an array. -/
def arrayInitializer : Parser Tree := do
  let leading ← takeSpace
  node leading (.newArray none [] (some (← arrayValues g)))

/-- The name of a variable, and the value it starts with if that is allowed and there. The variable
owns the space before its name. -/
def namedVariable (initialized : Bool) : Parser Tree := do
  if ← at? .identifier then
    let leading ← takeSpace
    let name ← identifier
    let initializer ←
      if initialized && (← at? .assign) then do
        let before ← bump
        let value ← if ← at? .openBrace then arrayInitializer g else g.expression
        pure (some (Preceded.mk before value))
      else pure none
    node leading (.namedVariable name initializer none)
  else fail .variableName

/-- One declared variable: a parameter of a method or of a lambda expression. -/
def parameter : Parser Tree := do
  let leading ← takeSpace
  let annotations ← annotations g
  let modifiers ← whileAt .finalWord (modifier .final)
  let type ← type g
  let beforeDots ← ifAt .ellipsis bump
  let declared ← namedVariable g false
  node leading
    (.variableDeclarations ⟨annotations, modifiers, some type, beforeDots, [.bare declared]⟩)

end JavaSource.Grammar
