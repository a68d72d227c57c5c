import JavaSource.Pattern.Error
import JavaSource.Pattern.TypePattern
import JavaSource.Tree.Name
import JavaSource.Types.Question

/-!
# Method patterns

A method pattern names the declaring type, the method and its parameters:
`java.util.List add(int, ..)`. `MethodPattern.ofText` reads it; a pattern matches a method by its
declaring type or a type above that, its name, and its parameter types.
-/

namespace JavaSource

/-- A parameter of a method pattern. -/
inductive ParameterPattern where
  /-- Any number of parameters. -/
  | any
  | one (type : Text)
  /-- The array that a parameter of variable arity is. -/
  | repeated (type : Text)
deriving DecidableEq, Repr

/-- A pattern of methods. -/
structure MethodPattern where
  /-- The pattern as it was written. -/
  source : Text
  declaring : Text
  name : Text
  parameters : List ParameterPattern
  /-- Interfaces count as types above a type. -/
  withInterfaces : Bool
deriving DecidableEq, Repr

/-! ### Reading -/

/-- Without the white space at the start. -/
def skipBlanks (t : Text) : Text := t.dropWhile isWhiteSpace

/-- The parameter that a word of a pattern stands for; the place of the error is in dots at the end
of the word. -/
def ParameterPattern.ofWord (word rest : Text) : Except Text ParameterPattern :=
  if word = ['.', '.'] then .ok .any
  else
    match word.reverse with
    | '.' :: '.' :: '.' :: reversed =>
      if reversed.isEmpty || reversed.head? == some '.' then .error ('.' :: '.' :: '.' :: rest)
      else .ok (.repeated reversed.reverse)
    | _ => .ok (.one word)

theorem length_dropWhile_le (p : Char → Bool) (t : Text) : (t.dropWhile p).length ≤ t.length :=
  (List.dropWhile_sublist p).length_le

/-- The parameters from one of them on, and the text after the closing parenthesis. An error is the
text from where it does not fit. -/
def readParameters (t : Text) : Except Text (List ParameterPattern × Text) :=
  let start := skipBlanks t
  let word := start.takeWhile isTypePatternChar
  let rest := start.dropWhile isTypePatternChar
  if word.isEmpty then .error start
  else
    match ParameterPattern.ofWord word rest with
    | .error e => .error e
    | .ok parameter =>
      match _h : skipBlanks rest with
      | ',' :: more =>
        match readParameters more with
        | .error e => .error e
        | .ok (parameters, after) => .ok (parameter :: parameters, after)
      | ')' :: more => .ok ([parameter], more)
      | other => .error other
termination_by t.length
decreasing_by
  have h₁ := length_dropWhile_le isWhiteSpace t
  have h₂ := length_dropWhile_le isTypePatternChar (skipBlanks t)
  have h₃ := length_dropWhile_le isWhiteSpace ((skipBlanks t).dropWhile isTypePatternChar)
  have h₄ : (skipBlanks ((skipBlanks t).dropWhile isTypePatternChar)).length = more.length + 1 :=
    congrArg List.length _h
  simp only [skipBlanks] at h₂ h₃ h₄
  omega

/-- The parameters after the opening parenthesis. -/
def readParameterList (t : Text) : Except Text (List ParameterPattern × Text) :=
  match skipBlanks t with
  | ')' :: rest => .ok ([], rest)
  | start => readParameters start

/-- The character can stand in the name of a method pattern. -/
def isNamePatternChar (c : Char) : Bool :=
  isAlphanumeric c || c == '_' || c == '$' || c == '*' || c == '<' || c == '>'

/-- Skips what stands between the declaring type and the name; says whether there is anything. -/
def skipSeparator (t : Text) : Bool × Text :=
  match skipBlanks t with
  | '#' :: rest => (true, skipBlanks rest)
  | start => (start.length < t.length, start)

namespace MethodPattern

/-- Reads the pattern from its opening parenthesis on. -/
def readFrom (source declaring name : Text) (withInterfaces : Bool) (t : Text) :
    Except PatternError MethodPattern :=
  match skipBlanks t with
  | '(' :: rest =>
    match readParameterList rest with
    | .error place => .error (.ofRest source place)
    | .ok (parameters, rest) =>
      match skipBlanks rest with
      | [] => .ok { source, declaring, name, parameters, withInterfaces }
      | place => .error (.ofRest source place)
  | place => .error (.ofRest source place)

/-- Reads a pattern. -/
def ofText (withInterfaces : Bool) (source : Text) : Except PatternError MethodPattern :=
  let start := skipBlanks source
  let declaring := start.takeWhile isTypePatternChar
  let rest := start.dropWhile isTypePatternChar
  if declaring.isEmpty then .error (.ofRest source start)
  else
    let (separated, rest) := skipSeparator rest
    let name := rest.takeWhile isNamePatternChar
    if name.isEmpty then
      match rest with
      | [] | '(' :: _ => .error .missingMethodName
      | place => .error (.ofRest source place)
    else if separated then
      readFrom source declaring name withInterfaces (rest.dropWhile isNamePatternChar)
    else .error .missingMethodName

end MethodPattern

/-! ### Globs -/

namespace Glob

/-- A comma between two types. -/
def comma : Glob := char ','

/-- One or more types with commas between them. -/
def anyTypes : Glob := seq (many (seq anyType comma)) anyType

/-- The types that fit one parameter. -/
def ofParameter : ParameterPattern → Glob
  | .any => optional anyTypes
  | .one type => ofTypePattern type
  | .repeated type => seq (ofTypePattern type) (text ['[', ']'])

/-- The lists of types that fit parameters, after a comma unless they are the first. -/
def ofParameters (first : Bool) : List ParameterPattern → Glob
  | [] => empty
  | .any :: rest => seq (optional (seq comma anyTypes)) (ofParameters false rest)
  | p :: rest =>
    if first then seq (ofParameter p) (ofParameters false rest)
    else seq comma (seq (ofParameter p) (ofParameters false rest))

/-- The lists of types, with commas between them, that fit a list of parameters. Any number of
parameters at the start takes the comma after it along. -/
def ofParameterList : List ParameterPattern → Glob
  | [.any] => optional anyTypes
  | .any :: rest => seq (optional (seq anyTypes comma)) (ofParameters true rest)
  | parameters => ofParameters true parameters

/-- The names that fit the name of a method pattern. -/
def ofNamePattern : Text → Glob
  | [] => empty
  | '*' :: rest => seq segmentPart (ofNamePattern rest)
  | c :: rest => seq (char c) (ofNamePattern rest)

end Glob

/-! ### Spelling types -/

namespace Registry

/-- How a type is spelled in a pattern, through no more than `depth` arrays. -/
def spellWithin (r : Registry) : Nat → TypeHandle → Option Text
  | 0, _ => none
  | depth + 1, h =>
    match h.primitive? with
    | some .string => some "java.lang.String".toList
    | some .none | some .wildcard | some .null => none
    | some p => some p.keyword
    | none =>
      match r.get? h with
      | some (.array element) => do
        let element ← element
        return (← spellWithin r depth element) ++ ['[', ']']
      | some d => if d.isNamed then r.name? h else none
      | none => none

/-- How a type is spelled in a pattern, if it can be. -/
def spell? (r : Registry) (h : TypeHandle) : Option Text := r.spellWithin r.size h

/-- The types that can be spelled, with commas between them. -/
def spellParameters (r : Registry) (types : List TypeHandle) : Text :=
  Text.join [','] (types.filterMap r.spell?)

end Registry

/-! ### Matching -/

namespace MethodPattern

/-- The name of a type fits. -/
def fitsType (p : MethodPattern) (name : Text) : Bool :=
  (Glob.ofTypePattern p.declaring).accepts name

/-- The name of a method fits. -/
def fitsName (p : MethodPattern) (name : Text) : Bool := (Glob.ofNamePattern p.name).accepts name

/-- The parameter types fit. -/
def fitsParameters (p : MethodPattern) (r : Registry) (types : List TypeHandle) : Bool :=
  (Glob.ofParameterList p.parameters).accepts (r.spellParameters types)

/-- A type or one above it fits, in no more than `depth` steps. -/
def matchesTypeWithin (p : MethodPattern) (r : Registry) : Nat → TypeHandle → Bool
  | 0, _ => false
  | depth + 1, h =>
    match r.name? h with
    | none => false
    | some name =>
      p.fitsType name ||
        (name != objectName && matchesTypeWithin p r depth ((r.supertype? h).getD .object)) ||
        (p.withInterfaces && (r.interfaces h).any (matchesTypeWithin p r depth))

/-- A type or one above it fits; above every type is `java.lang.Object`. -/
def matchesType (p : MethodPattern) (r : Registry) (h : TypeHandle) : Bool :=
  p.matchesTypeWithin r r.size h

/-- A method fits by its declaring type, its name and its resolved parameter types. -/
def matchesMethod (p : MethodPattern) (r : Registry) (h : TypeHandle) : Bool :=
  match r.methodAt? h with
  | none => false
  | some m =>
    match m.resolved with
    | none => false
    | some signature =>
      p.matchesType r m.declaring && p.fitsName m.name && p.fitsParameters r signature.parameters

/-- A call or a constructor call fits by the method attached to it. -/
def fitsCall (p : MethodPattern) (r : Registry) (t : Tree) : Bool :=
  match t.shape with
  | .methodInvocation i => i.type.any (p.matchesMethod r)
  | .newClass _ _ _ type => type.any (p.matchesMethod r)
  | _ => false

/-- A declaration fits by the type of the class around it, its own name and the parameter types of
the method attached to it. -/
def matchesDeclaration (p : MethodPattern) (r : Registry) (d : MethodDeclaration Tree)
    (enclosing : ClassDeclaration Tree) : Bool :=
  match enclosing.type, d.name.identifierName?, d.type.bind r.methodAt? with
  | some type, some name, some m =>
    match m.resolved with
    | none => false
    | some signature =>
      p.matchesType r type && p.fitsName name && p.fitsParameters r signature.parameters
  | _, _, _ => false

/-- A field access spells a member of a class of the declaring type. -/
def matchesReference (p : MethodPattern) (t : Tree) : Bool :=
  match t.shape with
  | .fieldAccess target name _ =>
    match name.element.identifierName?, target.qualifiedName? with
    | some name, some target => p.fitsType target && p.fitsName name
    | _, _ => false
  | _ => false

/-- The pattern that spells the method attached to a declaration. -/
def spellDeclaration (r : Registry) (d : MethodDeclaration Tree) : Option Text := do
  let m ← d.type.bind r.methodAt?
  let signature ← m.resolved
  let declaring ← r.spell? m.declaring
  let name ← d.name.identifierName?
  return declaring ++ [' '] ++ name ++ ['('] ++ r.spellParameters signature.parameters ++ [')']

end MethodPattern

end JavaSource
