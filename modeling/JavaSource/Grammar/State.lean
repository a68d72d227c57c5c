import JavaSource.Token.Lexer
import JavaSource.Tree.Basic

/-!
# The state of a parse

A `Parser` reads from an `Input`: the tokens that are left, whether the gap before the first of them
has been put into the tree already, and the identity of the next node. `takeSpace` hands out that
gap once, and `bump` hands out what is left of it before it steps past the token; no part of the
text can be dropped or used twice.
-/

namespace JavaSource

/-- What a parser reads from. -/
structure Input where
  /-- The tokens that are left; the end of the input is the last. -/
  tokens : List Token
  /-- The gap before the first token is in the tree already. -/
  gapTaken : Bool
  /-- The identity of the next node. -/
  nextId : NodeId

/-- The kind of the first of these tokens; the end of the input when there is none. -/
def kindOf : List Token → TokenKind
  | [] => .eof
  | t :: _ => t.kind

/-- A step of a parse. -/
abbrev Parser := StateT Input (Except SyntaxError)

namespace Parser

variable {α : Type}

/-- The tokens that are left. -/
def tokens : Parser (List Token) := return (← get).tokens

/-- The kind of the current token. -/
def peek : Parser TokenKind := return kindOf (← get).tokens

/-- The kind of the token after the current one. -/
def peekNext : Parser TokenKind := return kindOf ((← get).tokens.drop 1)

/-- The current token is of this kind. -/
def at? (kind : TokenKind) : Parser Bool := return (← peek) == kind

/-- Fails at the first of these tokens. -/
def failAt (ts : List Token) (expected : Expectation) : Parser α :=
  match ts with
  | [] => throw (.unexpectedEnd expected)
  | t :: _ =>
    if t.kind = .eof then throw (.unexpectedEnd expected)
    else throw (.unexpectedToken expected t.text t.start)

/-- Fails at the current token. -/
def fail (expected : Expectation) : Parser α := do failAt (← tokens) expected

/-- The text of the current token. -/
def text : Parser Text := return ((← get).tokens.head?.map Token.text).getD []

/-- The gap before the current token, unless it is taken. -/
def takeSpace : Parser Space := do
  let i ← get
  if i.gapTaken then return .empty
  set { i with gapTaken := true }
  return Space.ofText ((i.tokens.head?.map Token.gap).getD [])

/-- Steps past the current token, unless it is the end of the input. Gives what is left of the gap
before it. -/
def bump : Parser Space := do
  let before ← takeSpace
  let i ← get
  match i.tokens with
  | [] => return before
  | t :: rest =>
    if t.kind ≠ .eof then set { i with tokens := rest, gapTaken := false }
    return before

/-- Steps past a token of this kind, or fails. -/
def expect (kind : TokenKind) : Parser Space := do
  if ← at? kind then bump else fail (.token kind)

/-- Steps past as many tokens. -/
def skip : Nat → Parser Unit
  | 0 => return
  | n + 1 => do
    let _ ← bump
    skip n

/-- A new node. -/
def node (leading : Space) (shape : Shape Tree) : Parser Tree := do
  let i ← get
  set { i with nextId := i.nextId + 1 }
  return .node i.nextId leading shape

/-- Repeats a step at most as often as the budget allows, until it gives nothing. -/
def repeatWithin (step : α → Parser (Option α)) : Nat → α → Parser α
  | 0, _ => throw .outOfBudget
  | n + 1, a => do
    match ← step a with
    | none => return a
    | some b => repeatWithin step n b

/-- Repeats a step until it gives nothing. A step that gives something steps past a token, so that
the budget suffices. -/
def repeating (a : α) (step : α → Parser (Option α)) : Parser α := do
  repeatWithin step ((← tokens).length + 1) a

/-- Collects items, at most as many as the budget allows, until there is none. -/
def collectWithin (item : Parser (Option α)) : Nat → Parser (List α)
  | 0 => throw .outOfBudget
  | n + 1 => do
    match ← item with
    | none => return []
    | some a => return a :: (← collectWithin item n)

/-- Collects items until there is none. Each item has a token, so that the budget suffices. -/
def collecting (item : Parser (Option α)) : Parser (List α) := do
  collectWithin item ((← tokens).length + 1)

/-- An item as long as the current token is of this kind. -/
def whileAt (kind : TokenKind) (item : Parser α) : Parser (List α) :=
  collecting do if ← at? kind then return some (← item) else return none

/-- An item if the current token is of this kind. -/
def ifAt (kind : TokenKind) (item : Parser α) : Parser (Option α) := do
  if ← at? kind then return some (← item) else return none

/-- An element and the space after it. -/
def followed (element : Parser Tree) : Parser (Followed Tree) := do
  let a ← element
  return ⟨a, ← takeSpace⟩

/-- A placeholder with the space before the current token. -/
def placeholder : Parser (Followed Tree) := do
  return .bare (← node (← takeSpace) .empty)

/-- An identifier. -/
def identifier : Parser Tree := do
  if ← at? .identifier then
    let leading ← takeSpace
    let name ← text
    let _ ← bump
    node leading (.identifier name none)
  else fail (.token .identifier)

/-- The current token as an identifier, whatever its kind. -/
def anyName : Parser Tree := do
  let leading ← takeSpace
  let name ← text
  let _ ← bump
  node leading (.identifier name none)

/-- Elements separated by commas, up to the closing token, which is not read. No element at all, and
a comma before the closing token, leave a placeholder. -/
def elementsUntil (closing : TokenKind) (element : Parser Tree) : Parser (List (Followed Tree)) := do
  if ← at? closing then return [← placeholder]
  let first ← followed element
  let others ← whileAt .comma do
    let _ ← bump
    if ← at? closing then placeholder else followed element
  return first :: others

/-- A list between delimiters. -/
def delimited (opening closing : TokenKind) (element : Parser Tree) : Parser (Series Tree) := do
  let before ← expect opening
  let elements ← elementsUntil closing element
  let _ ← expect closing
  return ⟨before, elements⟩

/-- Elements after each other with a separator between them; the last one has no padding. -/
def separatedBy (separator : TokenKind) (element : Parser Tree) : Parser (List (Followed Tree)) := do
  let first ← element
  let (last, earlier) ← repeating (first, []) fun (current, earlier) => do
    if ← at? separator then
      let after ← bump
      let next ← element
      return some (next, ⟨current, after⟩ :: earlier)
    else return none
  return (Followed.bare last :: earlier).reverse

end Parser

/-- A node without the space before it, and that space, for a node that starts at the same token. -/
def Tree.lift (t : Tree) : Space × Tree := (t.leading, t.withLeading .empty)

end JavaSource
