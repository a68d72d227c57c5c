import JavaSource.Grammar.Lookahead

/-!
# Types, names and annotations

The productions of the language call each other through a `Productions` record, only after they have
stepped past a token; `JavaSource.Grammar.Parse` ties the knot.
-/

namespace JavaSource

/-- The productions that others call behind their first token. -/
structure Productions where
  type : Parser Tree
  expression : Parser Tree
  ternary : Parser Tree
  /-- A binary expression whose operators all bind at least this tight. -/
  binary : Nat → Parser Tree
  unary : Parser Tree
  arrayInitializer : Parser Tree
  statement : Parser Tree
  member : Parser Tree

namespace Grammar

open JavaSource.Parser

variable (g : Productions)

/-- A question mark, with a bound if there is one. -/
def wildcard : Parser Tree := do
  let leading ← expect .question
  let bounded (bound : WildcardBound) : Parser Tree := do
    let before ← bump
    let type ← g.type
    node leading (.wildcard (some (before, bound)) (some type))
  match ← peek with
  | .extendsWord => bounded .upper
  | .superWord => bounded .lower
  | _ => node leading (.wildcard none none)

/-- Type arguments in angle brackets; none at all leave a placeholder. -/
def typeArguments : Parser (Series Tree) := do
  let before ← expect .less
  let elements ←
    if ← at? .greater then pure [← placeholder]
    else do
      let first ← followed g.type
      let others ← whileAt .comma do
        let _ ← bump
        followed g.type
      pure (first :: others)
  let _ ← expect .greater
  return ⟨before, elements⟩

/-- The type arguments that may follow a name in a type. -/
def withTypeArguments (name : Tree) : Parser Tree := do
  if ← at? .less then
    let arguments ← typeArguments g
    let (leading, name) := name.lift
    node leading (.parameterizedType name (some arguments) none)
  else return name

/-- A primitive type, a wildcard or a class type, without dimensions. -/
def typeWithoutDimensions : Parser Tree := do
  let kind ← peek
  if let some primitive := kind.primitive? then
    node (← bump) (.primitiveType primitive)
  else if kind = .question then wildcard g
  else
    let name ← withTypeArguments g (← identifier)
    repeating name fun target => do
      if (← at? .dot) && (← peekNext) == .identifier then
        let before ← bump
        let name ← identifier
        let (leading, target) := target.lift
        return some (← withTypeArguments g (← node leading (.fieldAccess target ⟨before, name⟩ none)))
      else return none

/-- A type with its dimensions. -/
def type : Parser Tree := do
  repeating (← typeWithoutDimensions g) fun element => do
    if (← at? .openBracket) && (← peekNext) == .closeBracket then
      let beforeOpen ← bump
      let beforeClose ← bump
      let (leading, element) := element.lift
      return some (← node leading (.arrayType element beforeOpen beforeClose))
    else return none

/-- Types with a separator between them, behind a keyword. -/
def typeList (before : Space) (separator : TokenKind) : Parser (Series Tree) :=
  return ⟨before, ← separatedBy separator (type g)⟩

/-- A dotted name; in an import the last segment may be a star. -/
def qualifiedName (allowStar : Bool) : Parser Tree := do
  repeating (← identifier) fun target => do
    if ← at? .dot then
      let before ← bump
      let name ← if allowStar && (← at? .star) then anyName else identifier
      let (leading, target) := target.lift
      return some (← node leading (.fieldAccess target ⟨before, name⟩ none))
    else return none

/-- Arguments in parentheses. -/
def arguments : Parser (Series Tree) := delimited .openParen .closeParen g.expression

/-- An annotation. -/
def annotationUse : Parser Tree := do
  let leading ← expect .atSign
  let name ← qualifiedName false
  node leading (.annotationUse name (← ifAt .openParen (arguments g)))

/-- Annotations as long as there are any. -/
def annotations : Parser (List Tree) := whileAt .atSign (annotationUse g)

/-- A keyword as a modifier. -/
def modifier (word : Modifier) : Parser Tree := do node (← bump) (.modifier word)

/-- A type parameter with its bounds. -/
def typeParameter : Parser Tree := do
  let leading ← takeSpace
  let annotations ← annotations g
  let name ← identifier
  let bounds ← ifAt .extendsWord do typeList g (← bump) .ampersand
  node leading (.typeParameter annotations name bounds)

/-- Type parameters in angle brackets. -/
def typeParameters : Parser (Series Tree) := delimited .less .greater (typeParameter g)

end Grammar

end JavaSource
