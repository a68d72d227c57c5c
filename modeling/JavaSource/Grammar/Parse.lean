import JavaSource.Grammar.Statement

/-!
# Parsing

`grammar n` holds the productions with `n` levels of nesting left. Every production steps past a
token before it goes down a level, so as many levels as there are tokens are enough for any input.
-/

namespace JavaSource

/-- The productions with the given number of levels left. -/
def grammar : Nat → Productions
  | 0 =>
    let none : Parser Tree := throw .outOfBudget
    ⟨none, none, none, fun _ => none, none, none, none, none⟩
  | n + 1 =>
    let g := grammar n
    { type := Grammar.type g
      expression := Grammar.expression g
      ternary := Grammar.ternaryExpression g
      binary := Grammar.binaryExpression g
      unary := Grammar.unaryExpression g
      arrayInitializer := Grammar.arrayInitializer g
      statement := Grammar.statement g
      member := Grammar.member g }

/-- What a text is to be parsed as. -/
inductive SourceKind where
  /-- A whole file. -/
  | unit
  | expression
  /-- A statement with its semicolon, if it needs one. -/
  | statement
deriving DecidableEq, Repr

/-- The end of the input, behind a snippet. -/
def endOfInput : Parser Unit := do
  if !(← Parser.at? .eof) then Parser.fail .endOfInput

/-- The production for a kind of text. -/
def SourceKind.parser (kind : SourceKind) (g : Productions) : Parser Tree :=
  match kind with
  | .unit => Grammar.compilationUnit g
  | .expression => do
    let tree ← Grammar.expression g
    endOfInput
    return tree
  | .statement => do
    let tree ← Grammar.statement g
    let _ ← Grammar.terminate tree
    endOfInput
    return tree

/-- Parses tokens, giving nodes identities from `firstId` on; gives the tree and the identity after
the last one it used. -/
def parseTokens (kind : SourceKind) (tokens : List Token) (firstId : NodeId) :
    Except SyntaxError (Tree × NodeId) := do
  let (tree, input) ← (kind.parser (grammar (tokens.length + 1))).run ⟨tokens, false, firstId⟩
  return (tree, input.nextId)

/-- Parses a text, giving nodes identities from `firstId` on; gives the tree and the identity after
the last one it used. -/
def parseFrom (kind : SourceKind) (source : Text) (firstId : NodeId) :
    Except SyntaxError (Tree × NodeId) := do
  parseTokens kind (← lex source) firstId

/-- Parses a text. -/
def parse (kind : SourceKind) (source : Text) : Except SyntaxError Tree := do
  return (← parseFrom kind source 0).1

end JavaSource
