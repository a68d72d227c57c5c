import JavaSource.Pattern.Method
import JavaSource.Tree.Printer

/-!
# Annotation patterns

An annotation pattern names the type of an annotation and arguments that it must have:
`@a.Retry(times = 3)`. Values are compared as they are written; an argument without a name has the
name `value`.
-/

namespace JavaSource

/-- A pattern of annotations. -/
structure AnnotationPattern where
  /-- The pattern as it was written. -/
  source : Text
  type : Text
  /-- The name and the value of each required argument. -/
  arguments : List (Text × Text)
deriving DecidableEq, Repr

/-- The name of an argument without a name. -/
def valueName : Text := "value".toList

/-! ### Reading -/

/-- A literal up to its closing quote, and the text after it. -/
def readQuoted (quote : Char) : Text → Option (Text × Text)
  | [] => none
  | '\\' :: c :: rest => (readQuoted quote rest).map fun (text, after) => ('\\' :: c :: text, after)
  | '\\' :: [] => none
  | c :: rest =>
    if c = quote then some ([c], rest)
    else (readQuoted quote rest).map fun (text, after) => (c :: text, after)

/-- The character stays in an argument without quotes. -/
def isArgumentChar (c : Char) : Bool := c != '=' && c != ',' && c != ')'

/-- An argument name or value, and the text after it. An error is the text from where it does not
fit. -/
def readArgumentText : Text → Except Text (Text × Text)
  | '"' :: rest => readLiteral '"' rest
  | '\'' :: rest => readLiteral '\'' rest
  | start =>
    let text := Text.trimEnd (start.takeWhile isArgumentChar)
    let rest := start.dropWhile isArgumentChar
    if text.isEmpty then .error rest else .ok (text, rest)
where
  /-- A literal after its opening quote. -/
  readLiteral (quote : Char) (rest : Text) : Except Text (Text × Text) :=
    match readQuoted quote rest with
    | none => .error []
    | some (text, after) => .ok (quote :: text, after)

/-- One argument, and the text after it. -/
def readArgument (t : Text) : Except Text ((Text × Text) × Text) := do
  let (first, rest) ← readArgumentText (skipBlanks t)
  match skipBlanks rest with
  | '=' :: rest =>
    let (value, rest) ← readArgumentText (skipBlanks rest)
    return ((first, value), rest)
  | rest => return ((valueName, first), rest)

/-- The arguments from one of them on, no more than `budget`, and the text after the closing
parenthesis. -/
def readArgumentsWithin : Nat → Text → Except Text (List (Text × Text) × Text)
  | 0, t => .error t
  | budget + 1, t => do
    let (argument, rest) ← readArgument t
    match skipBlanks rest with
    | ',' :: rest =>
      let (arguments, after) ← readArgumentsWithin budget rest
      return (argument :: arguments, after)
    | ')' :: rest => return ([argument], rest)
    | place => .error place

/-- The arguments after the opening parenthesis, and the text after the closing one. -/
def readArgumentList (t : Text) : Except Text (List (Text × Text) × Text) :=
  match skipBlanks t with
  | ')' :: rest => .ok ([], rest)
  | start => readArgumentsWithin (start.length + 1) start

namespace AnnotationPattern

/-- Reads what follows the type of a pattern; an error is the text from where it does not fit. -/
def readEnd (t : Text) : Except Text (List (Text × Text)) := do
  let (arguments, rest) ← match skipBlanks t with
    | '(' :: rest => readArgumentList rest
    | rest => pure ([], rest)
  match skipBlanks rest with
  | [] => return arguments
  | place => .error place

/-- Reads a pattern; an error is the text from where it does not fit. -/
def read (source : Text) : Except Text AnnotationPattern :=
  match skipBlanks source with
  | '@' :: rest =>
    let type := rest.takeWhile isTypePatternChar
    if type.isEmpty then .error rest
    else return { source, type, arguments := ← readEnd (rest.dropWhile isTypePatternChar) }
  | place => .error place

/-- Reads a pattern. -/
def ofText (source : Text) : Except PatternError AnnotationPattern :=
  (read source).mapError (PatternError.ofRest source)

end AnnotationPattern

/-! ### Matching -/

/-- The name and the value of an argument of an annotation, if it has a value. -/
def Tree.annotationArgument? (t : Tree) : Option (Text × Text) :=
  match t.shape with
  | .empty => none
  | .assignment target value =>
    target.identifierName?.map fun name => (name, Text.trim value.element.toText)
  | _ => some (valueName, Text.trim t.toText)

/-- An annotation fits by the type attached to its name, and by the arguments that it has. -/
def AnnotationPattern.fits (p : AnnotationPattern) (r : Registry) (t : Tree) : Bool :=
  match t.shape with
  | .annotationUse name arguments =>
    match name.nameType?.bind r.name? with
    | none => false
    | some type =>
      let present := (Series.itemsOf arguments).filterMap Tree.annotationArgument?
      (Glob.ofTypePattern p.type).accepts type && p.arguments.all present.contains
  | _ => false

end JavaSource
