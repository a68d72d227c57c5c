import JavaSource.Token.Error
import JavaSource.Space.Reader

/-!
# Tokens of a text

`lex` cuts a text into lexemes: at each place the rule that matches most characters wins, and of two
that match as many the one listed first, so that a keyword is not an identifier. Blanks and comments
become the `gap` of the token that follows them.
-/

namespace JavaSource

/-- A token, with the blanks and comments between it and the token before. -/
structure Token where
  kind : TokenKind
  gap : Text
  text : Text
  /-- The offset of `text` in bytes. -/
  start : Nat
deriving DecidableEq, Repr

/-- The offset of the byte after the token. -/
def Token.stop (t : Token) : Nat := t.start + Text.byteLength t.text

/-- What a rule of the lexer recognizes. -/
inductive Lexeme where
  | blanks | lineComment | blockComment
  /-- A block comment that the text ends within. -/
  | unclosedComment
  | token (kind : TokenKind)
deriving DecidableEq, Repr

namespace Lexeme

/-- Blanks, line breaks and form feeds. -/
def isBlankChar (c : Char) : Bool :=
  c == ' ' || c == '\t' || c == '\r' || c == '\n' || c == '\x0c'

/-- A letter, underscore or dollar sign. -/
def isIdentifierStart (c : Char) : Bool := c.isAlpha || c == '_' || c == '$'

/-- A character that may follow the first one of an identifier. -/
def isIdentifierPart (c : Char) : Bool := isIdentifierStart c || c.isDigit

/-- A digit, or an underscore between digits. -/
def isDigitPart (c : Char) : Bool := c.isDigit || c == '_'

/-- A hexadecimal digit or an underscore. -/
def isHexPart (c : Char) : Bool :=
  c.isDigit || ('a' ≤ c && c ≤ 'f') || ('A' ≤ c && c ≤ 'F') || c == '_'

/-- A binary digit or an underscore. -/
def isBinaryPart (c : Char) : Bool := c == '0' || c == '1' || c == '_'

/-! ### Lengths of matches

Each function gives the number of characters that a rule matches at the start of a text; zero means
that it does not match. -/

/-- The characters at the start that satisfy `p`. -/
def runLength (p : Char → Bool) (t : Text) : Nat := (t.takeWhile p).length

/-- One character of a class, if it is there. -/
def optionalChar (chars : List Char) : Text → Nat
  | [] => 0
  | c :: _ => if chars.contains c then 1 else 0

/-- A digit, then digits and underscores. -/
def digitsLength : Text → Nat
  | [] => 0
  | c :: cs => if c.isDigit then 1 + runLength isDigitPart cs else 0

/-- A keyword or symbol. -/
def wordLength (w t : Text) : Nat := if w.isPrefixOf t then w.length else 0

/-- Two slashes and the rest of the line. -/
def lineCommentLength : Text → Nat
  | '/' :: '/' :: rest => 2 + runLength isInLine rest
  | _ => 0

/-- A block comment up to its close. -/
def blockCommentLength : Text → Nat
  | '/' :: '*' :: rest =>
    match Text.splitClose rest with
    | (text, some _) => 4 + text.length
    | (_, none) => 0
  | _ => 0

/-- A block comment without a close, to the end of the text. -/
def unclosedCommentLength : Text → Nat
  | '/' :: '*' :: rest => if (Text.splitClose rest).2.isNone then 2 + rest.length else 0
  | _ => 0

/-- Digits after a base, the `l` of a long literal included. -/
def basedLength (part : Char → Bool) (t : Text) : Nat :=
  let n := runLength part t
  if n = 0 then 0 else 2 + n + optionalChar ['l', 'L'] (t.drop n)

/-- An integer literal: decimal, hexadecimal or binary. -/
def intLength (t : Text) : Nat :=
  let n := digitsLength t
  let decimal := if n = 0 then 0 else n + optionalChar ['l', 'L'] (t.drop n)
  let based :=
    match t with
    | '0' :: 'x' :: rest | '0' :: 'X' :: rest => basedLength isHexPart rest
    | '0' :: 'b' :: rest | '0' :: 'B' :: rest => basedLength isBinaryPart rest
    | _ => 0
  max decimal based

/-- An exponent: `e`, a sign if there is one, and digits. -/
def exponentLength : Text → Nat
  | [] => 0
  | c :: rest =>
    if c = 'e' ∨ c = 'E' then
      let sign := optionalChar ['+', '-'] rest
      let n := runLength Char.isDigit (rest.drop sign)
      if n = 0 then 0 else 1 + sign + n
    else 0

/-- An exponent and a suffix, both optional. -/
def floatTailLength (t : Text) : Nat :=
  let n := exponentLength t
  n + optionalChar ['f', 'F', 'd', 'D'] (t.drop n)

/-- A floating-point literal: it has a point, an exponent or a suffix. -/
def floatLength (t : Text) : Nat :=
  let n := digitsLength t
  let rest := t.drop n
  match n, rest with
  | 0, '.' :: fraction =>
    let m := digitsLength fraction
    if m = 0 then 0 else 1 + m + floatTailLength (fraction.drop m)
  | 0, _ => 0
  | n, '.' :: fraction =>
    let m := runLength isDigitPart fraction
    n + 1 + m + floatTailLength (fraction.drop m)
  | n, rest =>
    let m := floatTailLength rest
    if m = 0 then 0 else n + m

/-- The text of a literal after its opening quote: how many characters and escapes it has, and how
many characters there are up to and including the closing quote. -/
def quotedLength (quote : Char) : Text → Option (Nat × Nat)
  | [] => none
  | '\\' :: c :: rest =>
    if c = '\n' then none else (quotedLength quote rest).map fun r => (r.1 + 1, r.2 + 2)
  | c :: rest =>
    if c = quote then some (0, 1)
    else if c = '\\' ∨ c = '\r' ∨ c = '\n' then none
    else (quotedLength quote rest).map fun r => (r.1 + 1, r.2 + 1)

/-- A string literal. -/
def stringLength : Text → Nat
  | '"' :: rest =>
    match quotedLength '"' rest with
    | some (_, n) => n + 1
    | none => 0
  | _ => 0

/-- A character literal, which is not empty. -/
def charLength : Text → Nat
  | '\'' :: rest =>
    match quotedLength '\'' rest with
    | some (k, n) => if k = 0 then 0 else n + 1
    | none => 0
  | _ => 0

/-- An identifier. -/
def identifierLength : Text → Nat
  | [] => 0
  | c :: rest => if isIdentifierStart c then 1 + runLength isIdentifierPart rest else 0

/-- The rule for a keyword or symbol. -/
def wordRule (k : TokenKind) : Option (Lexeme × (Text → Nat)) :=
  k.text?.map fun w => (token k, wordLength w)

/-- The rules, each with the length of its match; of two longest matches the first wins. -/
def rules : List (Lexeme × (Text → Nat)) :=
  [(blanks, runLength isBlankChar), (lineComment, lineCommentLength),
    (blockComment, blockCommentLength), (unclosedComment, unclosedCommentLength)] ++
  (TokenKind.keywords ++ TokenKind.symbols).filterMap wordRule ++
  [(token .intLiteral, intLength), (token .floatLiteral, floatLength),
    (token .stringLiteral, stringLength), (token .charLiteral, charLength),
    (token .identifier, identifierLength)]

/-- The better of the best match so far and a further one: the longer, or the earlier. -/
def better (t : Text) (best : Option (Lexeme × Nat)) (rule : Lexeme × (Text → Nat)) :
    Option (Lexeme × Nat) :=
  let n := rule.2 t
  match best with
  | none => if n = 0 then none else some (rule.1, n)
  | some (l, m) => if m < n then some (rule.1, n) else some (l, m)

/-- The longest match at the start of a text, if any rule matches. -/
def longest (t : Text) : Option (Lexeme × Nat) := rules.foldl (better t) none

end Lexeme

/-- The tokens of the rest of a text, from the given offset on; `gap` holds the blanks and comments
that were passed since the last token. -/
def lexFrom (offset : Nat) (gap : Text) : Text → Except SyntaxError (List Token)
  | [] => .ok [⟨.eof, gap, [], offset⟩]
  | c :: cs =>
    match Lexeme.longest (c :: cs) with
    | none | some (_, 0) => .error (.invalidToken offset)
    | some (lexeme, n + 1) =>
      let text := (c :: cs).take (n + 1)
      let next := offset + Text.byteLength text
      match lexeme with
      | .blanks | .lineComment | .blockComment => lexFrom next (gap ++ text) (cs.drop n)
      | .unclosedComment => .error (.unclosedComment offset)
      | .token kind => do
        let tokens ← lexFrom next [] (cs.drop n)
        return ⟨kind, gap, text, offset⟩ :: tokens
termination_by t => t.length
decreasing_by all_goals simp only [List.length_drop, List.length_cons]; omega

/-- The tokens of a text; the last one is the end of the input. -/
def lex (t : Text) : Except SyntaxError (List Token) := lexFrom 0 [] t

end JavaSource
