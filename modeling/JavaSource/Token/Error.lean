import JavaSource.Token.Kind

/-!
# Syntax errors

Why a text is not in the language, and where.
-/

namespace JavaSource

/-- What a production was looking for. -/
inductive Expectation where
  | token (kind : TokenKind)
  | catchOrFinally | classWord | endOfInput | expression | memberName | methodDeclaration
  | statement | typeDeclaration | variableName
deriving DecidableEq, Repr

/-- How it is called in messages. -/
def Expectation.describe : Expectation → String
  | token kind => kind.describe
  | catchOrFinally => "`catch` or `finally`"
  | classWord => "`class`"
  | endOfInput => "end of input"
  | expression => "expression"
  | memberName => "member name"
  | methodDeclaration => "method declaration"
  | statement => "statement"
  | typeDeclaration => "type declaration"
  | variableName => "variable name"

/-- Why a text is not in the language. Offsets are in bytes. -/
inductive SyntaxError where
  | unexpectedToken (expected : Expectation) (found : Text) (offset : Nat)
  | unexpectedEnd (expected : Expectation)
  | unclosedComment (offset : Nat)
  | invalidToken (offset : Nat)
  /-- The budget of nested productions ran out; a budget of one more than the number of tokens
  always suffices. -/
  | outOfBudget
deriving DecidableEq, Repr

namespace SyntaxError

/-- Where the error is, in a text of the given length. -/
def offset (length : Nat) : SyntaxError → Nat
  | unexpectedToken _ _ o | unclosedComment o | invalidToken o => o
  | unexpectedEnd _ | outOfBudget => length

/-- The whole message. -/
def message : SyntaxError → String
  | unexpectedToken expected found _ =>
    "expected " ++ expected.describe ++ ", found `" ++ String.ofList found ++ "`"
  | unexpectedEnd expected => "expected " ++ expected.describe ++ ", found end of file"
  | unclosedComment _ => "unterminated block comment"
  | invalidToken _ => "invalid token"
  | outOfBudget => "nesting exceeds the budget"

/-- The remark at the place of the error. -/
def label : SyntaxError → String
  | unexpectedToken expected _ _ | unexpectedEnd expected => expected.describe
  | unclosedComment _ => "comment starts here"
  | invalidToken _ => "not part of the supported syntax"
  | outOfBudget => "nested too deeply"

end SyntaxError

end JavaSource
