import JavaSource.Tree.Word
import JavaSource.Types.Primitive

/-!
# Kinds of token

Keywords and symbols have one fixed text; literals and identifiers are classes of texts. A greater
sign is always a token of its own: the parser joins neighbouring ones, so that nested type
arguments need no lookahead.
-/

namespace JavaSource

/-- What kind of token it is. -/
inductive TokenKind where
  | abstractWord | booleanWord | breakWord | byteWord | caseWord | catchWord | charWord
  | classWord | continueWord | defaultWord | doWord | doubleWord | elseWord | enumWord
  | extendsWord | falseWord | finalWord | finallyWord | floatWord | forWord | ifWord
  | implementsWord | importWord | intWord | interfaceWord | longWord | nativeWord | newWord
  | nullWord | packageWord | privateWord | protectedWord | publicWord | returnWord | shortWord
  | staticWord | strictfpWord | superWord | switchWord | synchronizedWord | thisWord | throwWord
  | throwsWord | transientWord | trueWord | tryWord | voidWord | volatileWord | whileWord
  | openParen | closeParen | openBrace | closeBrace | openBracket | closeBracket | semicolon
  | comma | dot | ellipsis | atSign | atInterface | doubleColon | colon | question | arrow
  | assign | equalEqual | bang | notEqual | tilde | less | lessEqual | shiftLeft | shiftLeftAssign
  | greater | andAnd | orOr | plusPlus | minusMinus | plus | minus | star | slash | ampersand
  | bar | caret | percent | plusAssign | minusAssign | starAssign | slashAssign | ampersandAssign
  | barAssign | caretAssign | percentAssign
  | intLiteral | floatLiteral | stringLiteral | charLiteral | identifier
  /-- The end of the input. -/
  | eof
deriving DecidableEq, Repr

namespace TokenKind

/-- The keywords. -/
def keywords : List TokenKind :=
  [abstractWord, booleanWord, breakWord, byteWord, caseWord, catchWord, charWord, classWord,
    continueWord, defaultWord, doWord, doubleWord, elseWord, enumWord, extendsWord, falseWord,
    finalWord, finallyWord, floatWord, forWord, ifWord, implementsWord, importWord, intWord,
    interfaceWord, longWord, nativeWord, newWord, nullWord, packageWord, privateWord,
    protectedWord, publicWord, returnWord, shortWord, staticWord, strictfpWord, superWord,
    switchWord, synchronizedWord, thisWord, throwWord, throwsWord, transientWord, trueWord,
    tryWord, voidWord, volatileWord, whileWord]

/-- The separators and operators. -/
def symbols : List TokenKind :=
  [openParen, closeParen, openBrace, closeBrace, openBracket, closeBracket, semicolon, comma,
    dot, ellipsis, atSign, atInterface, doubleColon, colon, question, arrow, assign, equalEqual,
    bang, notEqual, tilde, less, lessEqual, shiftLeft, shiftLeftAssign, greater, andAnd, orOr,
    plusPlus, minusMinus, plus, minus, star, slash, ampersand, bar, caret, percent, plusAssign,
    minusAssign, starAssign, slashAssign, ampersandAssign, barAssign, caretAssign, percentAssign]

/-- The text of a keyword or symbol; other kinds have no fixed text. -/
def text? : TokenKind → Option Text
  | abstractWord => "abstract".toList
  | booleanWord => "boolean".toList
  | breakWord => "break".toList
  | byteWord => "byte".toList
  | caseWord => "case".toList
  | catchWord => "catch".toList
  | charWord => "char".toList
  | classWord => "class".toList
  | continueWord => "continue".toList
  | defaultWord => "default".toList
  | doWord => "do".toList
  | doubleWord => "double".toList
  | elseWord => "else".toList
  | enumWord => "enum".toList
  | extendsWord => "extends".toList
  | falseWord => "false".toList
  | finalWord => "final".toList
  | finallyWord => "finally".toList
  | floatWord => "float".toList
  | forWord => "for".toList
  | ifWord => "if".toList
  | implementsWord => "implements".toList
  | importWord => "import".toList
  | intWord => "int".toList
  | interfaceWord => "interface".toList
  | longWord => "long".toList
  | nativeWord => "native".toList
  | newWord => "new".toList
  | nullWord => "null".toList
  | packageWord => "package".toList
  | privateWord => "private".toList
  | protectedWord => "protected".toList
  | publicWord => "public".toList
  | returnWord => "return".toList
  | shortWord => "short".toList
  | staticWord => "static".toList
  | strictfpWord => "strictfp".toList
  | superWord => "super".toList
  | switchWord => "switch".toList
  | synchronizedWord => "synchronized".toList
  | thisWord => "this".toList
  | throwWord => "throw".toList
  | throwsWord => "throws".toList
  | transientWord => "transient".toList
  | trueWord => "true".toList
  | tryWord => "try".toList
  | voidWord => "void".toList
  | volatileWord => "volatile".toList
  | whileWord => "while".toList
  | openParen => ['(']
  | closeParen => [')']
  | openBrace => ['{']
  | closeBrace => ['}']
  | openBracket => ['[']
  | closeBracket => [']']
  | semicolon => [';']
  | comma => [',']
  | dot => ['.']
  | ellipsis => ['.', '.', '.']
  | atSign => ['@']
  | atInterface => "@interface".toList
  | doubleColon => [':', ':']
  | colon => [':']
  | question => ['?']
  | arrow => ['-', '>']
  | assign => ['=']
  | equalEqual => ['=', '=']
  | bang => ['!']
  | notEqual => ['!', '=']
  | tilde => ['~']
  | less => ['<']
  | lessEqual => ['<', '=']
  | shiftLeft => ['<', '<']
  | shiftLeftAssign => ['<', '<', '=']
  | greater => ['>']
  | andAnd => ['&', '&']
  | orOr => ['|', '|']
  | plusPlus => ['+', '+']
  | minusMinus => ['-', '-']
  | plus => ['+']
  | minus => ['-']
  | star => ['*']
  | slash => ['/']
  | ampersand => ['&']
  | bar => ['|']
  | caret => ['^']
  | percent => ['%']
  | plusAssign => ['+', '=']
  | minusAssign => ['-', '=']
  | starAssign => ['*', '=']
  | slashAssign => ['/', '=']
  | ampersandAssign => ['&', '=']
  | barAssign => ['|', '=']
  | caretAssign => ['^', '=']
  | percentAssign => ['%', '=']
  | intLiteral | floatLiteral | stringLiteral | charLiteral | identifier | eof => none

/-- The name in listings. -/
def name : TokenKind → String
  | abstractWord => "Abstract"
  | booleanWord => "Boolean"
  | breakWord => "Break"
  | byteWord => "Byte"
  | caseWord => "Case"
  | catchWord => "Catch"
  | charWord => "Char"
  | classWord => "Class"
  | continueWord => "Continue"
  | defaultWord => "Default"
  | doWord => "Do"
  | doubleWord => "Double"
  | elseWord => "Else"
  | enumWord => "Enum"
  | extendsWord => "Extends"
  | falseWord => "False"
  | finalWord => "Final"
  | finallyWord => "Finally"
  | floatWord => "Float"
  | forWord => "For"
  | ifWord => "If"
  | implementsWord => "Implements"
  | importWord => "Import"
  | intWord => "Int"
  | interfaceWord => "Interface"
  | longWord => "Long"
  | nativeWord => "Native"
  | newWord => "New"
  | nullWord => "Null"
  | packageWord => "Package"
  | privateWord => "Private"
  | protectedWord => "Protected"
  | publicWord => "Public"
  | returnWord => "Return"
  | shortWord => "Short"
  | staticWord => "Static"
  | strictfpWord => "Strictfp"
  | superWord => "Super"
  | switchWord => "Switch"
  | synchronizedWord => "Synchronized"
  | thisWord => "This"
  | throwWord => "Throw"
  | throwsWord => "Throws"
  | transientWord => "Transient"
  | trueWord => "True"
  | tryWord => "Try"
  | voidWord => "Void"
  | volatileWord => "Volatile"
  | whileWord => "While"
  | openParen => "LParen"
  | closeParen => "RParen"
  | openBrace => "LBrace"
  | closeBrace => "RBrace"
  | openBracket => "LBracket"
  | closeBracket => "RBracket"
  | semicolon => "Semicolon"
  | comma => "Comma"
  | dot => "Dot"
  | ellipsis => "Ellipsis"
  | atSign => "At"
  | atInterface => "AtInterface"
  | doubleColon => "ColonColon"
  | colon => "Colon"
  | question => "Question"
  | arrow => "Arrow"
  | assign => "Assign"
  | equalEqual => "EqEq"
  | bang => "Bang"
  | notEqual => "NotEq"
  | tilde => "Tilde"
  | less => "Lt"
  | lessEqual => "LtEq"
  | shiftLeft => "Shl"
  | shiftLeftAssign => "ShlAssign"
  | greater => "Gt"
  | andAnd => "AmpAmp"
  | orOr => "PipePipe"
  | plusPlus => "PlusPlus"
  | minusMinus => "MinusMinus"
  | plus => "Plus"
  | minus => "Minus"
  | star => "Star"
  | slash => "Slash"
  | ampersand => "Amp"
  | bar => "Pipe"
  | caret => "Caret"
  | percent => "Percent"
  | plusAssign => "PlusAssign"
  | minusAssign => "MinusAssign"
  | starAssign => "StarAssign"
  | slashAssign => "SlashAssign"
  | ampersandAssign => "AmpAssign"
  | barAssign => "PipeAssign"
  | caretAssign => "CaretAssign"
  | percentAssign => "PercentAssign"
  | intLiteral => "IntLiteral"
  | floatLiteral => "FloatLiteral"
  | stringLiteral => "StringLiteral"
  | charLiteral => "CharLiteral"
  | identifier => "Identifier"
  | eof => "Eof"

/-- How the token is called in messages; most kinds are just a token. -/
def describe : TokenKind → String
  | openParen => "`(`"
  | closeParen => "`)`"
  | openBrace => "`\x7b`"
  | closeBrace => "`\x7d`"
  | openBracket => "`[`"
  | closeBracket => "`]`"
  | semicolon => "`;`"
  | comma => "`,`"
  | dot => "`.`"
  | colon => "`:`"
  | arrow => "`->`"
  | atSign => "`@`"
  | less => "`<`"
  | greater => "`>`"
  | assign => "`=`"
  | whileWord => "`while`"
  | identifier => "identifier"
  | eof => "end of file"
  | _ => "token"

/-- The modifier that the keyword is. -/
def modifier? : TokenKind → Option Modifier
  | publicWord => some .publicAccess
  | protectedWord => some .protectedAccess
  | privateWord => some .privateAccess
  | abstractWord => some .abstract
  | staticWord => some .static
  | finalWord => some .final
  | nativeWord => some .native
  | strictfpWord => some .strictFloat
  | synchronizedWord => some .synchronized
  | transientWord => some .transient
  | volatileWord => some .volatile
  | defaultWord => some .default
  | _ => none

/-- The primitive type that the keyword is. -/
def primitive? : TokenKind → Option Primitive
  | booleanWord => some .boolean
  | byteWord => some .byte
  | charWord => some .char
  | doubleWord => some .double
  | floatWord => some .float
  | intWord => some .int
  | longWord => some .long
  | shortWord => some .short
  | voidWord => some .void
  | _ => none

theorem text?_of_modifier? {k : TokenKind} {m : Modifier} (h : k.modifier? = some m) :
    k.text? = some m.keyword := by
  cases k <;> simp [modifier?] at h <;> subst h <;> rfl

theorem text?_of_primitive? {k : TokenKind} {p : Primitive} (h : k.primitive? = some p) :
    k.text? = some p.keyword := by
  cases k <;> simp [primitive?] at h <;> subst h <;> rfl

end TokenKind

end JavaSource
