import JavaSource.Text.Basic

/-!
# Pattern errors

Why a text is not a pattern.
-/

namespace JavaSource

/-- Why a text is not a pattern. -/
inductive PatternError where
  /-- The pattern ends where something is missing. -/
  | unexpectedEnd
  /-- A method pattern without the name of a method. -/
  | missingMethodName
  /-- A character that does not fit, and its place in bytes. -/
  | unexpectedCharacter (pattern : Text) (position : Nat) (found : Char)
deriving DecidableEq, Repr

namespace PatternError

/-- The error of a pattern that does not fit from `rest` on. -/
def ofRest (pattern rest : Text) : PatternError :=
  match rest with
  | [] => unexpectedEnd
  | c :: _ => unexpectedCharacter pattern (Text.byteLength pattern - Text.byteLength rest) c

/-- The whole message. -/
def message : PatternError → String
  | unexpectedEnd => "pattern ends early"
  | missingMethodName => "method pattern has no method name"
  | unexpectedCharacter pattern position found =>
    "unexpected `" ++ String.singleton found ++ "` at " ++ toString position ++ " in `" ++
      String.ofList pattern ++ "`"

end PatternError

end JavaSource
