/-!
# Spacing styles

Where a line has a blank between two tokens: one flag for each kind of place.
-/

namespace JavaSource

/-- A blank before an opening parenthesis. -/
structure BeforeParentheses where
  methodDeclaration : Bool := false
  methodCall : Bool := false
  ifCondition : Bool := true
  forHeader : Bool := true
  whileCondition : Bool := true
  switchSelector : Bool := true
  tryResources : Bool := true
  catchParameter : Bool := true
  synchronizedLock : Bool := true
  annotationArguments : Bool := false
deriving DecidableEq, Repr

/-- A blank on both sides of an operator. -/
structure AroundOperators where
  assignment : Bool := true
  logical : Bool := true
  equality : Bool := true
  relational : Bool := true
  bitwise : Bool := true
  additive : Bool := true
  multiplicative : Bool := true
  shift : Bool := true
  unary : Bool := false
  lambdaArrow : Bool := true
deriving DecidableEq, Repr

/-- A blank before an opening brace. -/
structure BeforeBrace where
  classBody : Bool := true
  methodBody : Bool := true
  ifBody : Bool := true
  elseBody : Bool := true
  forBody : Bool := true
  whileBody : Bool := true
  doBody : Bool := true
  switchBody : Bool := true
  tryBody : Bool := true
  catchBody : Bool := true
  finallyBody : Bool := true
  synchronizedBody : Bool := true
  arrayValues : Bool := false
  annotationArrayValues : Bool := false
deriving DecidableEq, Repr

/-- A blank before a keyword that continues a statement. -/
structure BeforeKeywords where
  elseKeyword : Bool := true
  whileKeyword : Bool := true
  catchKeyword : Bool := true
  finallyKeyword : Bool := true
deriving DecidableEq, Repr

/-- A blank just inside a pair of delimiters. -/
structure WithinDelimiters where
  codeBraces : Bool := false
  brackets : Bool := false
  arrayValues : Bool := false
  emptyArrayValues : Bool := false
  parentheses : Bool := false
  methodParameters : Bool := false
  emptyMethodParameters : Bool := false
  methodArguments : Bool := false
  emptyMethodArguments : Bool := false
  ifCondition : Bool := false
  forHeader : Bool := false
  whileCondition : Bool := false
  switchSelector : Bool := false
  tryResources : Bool := false
  catchParameter : Bool := false
  synchronizedLock : Bool := false
  typeCast : Bool := false
  annotationArguments : Bool := false
  angleBrackets : Bool := false
deriving DecidableEq, Repr

/-- Blanks around the two signs of a conditional expression. -/
structure AroundTernary where
  beforeQuestion : Bool := true
  afterQuestion : Bool := true
  beforeColon : Bool := true
  afterColon : Bool := true
deriving DecidableEq, Repr

/-- Blanks in the arguments of a type or of a call. -/
structure InTypeArguments where
  afterComma : Bool := true
  beforeOpening : Bool := false
  afterClosing : Bool := false
deriving DecidableEq, Repr

/-- Blanks in the type parameters of a declaration. -/
structure InTypeParameters where
  beforeOpening : Bool := false
  aroundBounds : Bool := true
deriving DecidableEq, Repr

/-- Blanks around separators, and what the other records leave out. -/
structure AroundSeparators where
  beforeComma : Bool := false
  afterComma : Bool := true
  beforeForSemicolon : Bool := false
  afterForSemicolon : Bool := true
  afterTypeCast : Bool := true
  beforeForEachColon : Bool := true
  emptyEnumBraces : Bool := false
deriving DecidableEq, Repr

/-- Where a line has a blank between two tokens. -/
structure Spacing where
  beforeParentheses : BeforeParentheses := {}
  aroundOperators : AroundOperators := {}
  beforeBrace : BeforeBrace := {}
  beforeKeywords : BeforeKeywords := {}
  within : WithinDelimiters := {}
  ternary : AroundTernary := {}
  typeArguments : InTypeArguments := {}
  typeParameters : InTypeParameters := {}
  separators : AroundSeparators := {}
deriving DecidableEq, Repr

end JavaSource
