import JavaSource.Grammar.State

/-!
# Looking ahead

A type, a cast, a lambda expression and the header of a `for` each loop can start with the same
tokens as something else. These functions look as far ahead as it takes to tell.
-/

namespace JavaSource

namespace Lookahead

/-- The tokens after type arguments that are `depth` brackets deep, if these can be type arguments. -/
def typeArguments? (depth : Nat) : List Token → Option (List Token)
  | [] => none
  | t :: rest =>
    match t.kind with
    | .less => typeArguments? (depth + 1) rest
    | .greater =>
      match depth with
      | 0 => none
      | 1 => some rest
      | d + 2 => typeArguments? (d + 1) rest
    | .identifier | .dot | .comma | .question | .extendsWord | .superWord | .ampersand
    | .openBracket | .closeBracket => typeArguments? depth rest
    | kind => if kind.primitive?.isSome then typeArguments? depth rest else none

theorem length_of_typeArguments? {depth : Nat} {ts rest : List Token}
    (h : typeArguments? depth ts = some rest) : rest.length < ts.length := by
  fun_induction typeArguments? depth ts <;> simp_all <;> omega

/-- The tokens after the type arguments and the further segments of a class type. -/
def classType? (ts : List Token) : Option (List Token) :=
  match _h : (if kindOf ts = .less then typeArguments? 0 ts else some ts) with
  | none => none
  | some rest =>
    match rest with
    | dot :: name :: others =>
      if dot.kind = .dot ∧ name.kind = .identifier then classType? others else some rest
    | _ => some rest
termination_by ts.length
decreasing_by
  split at _h
  · have := length_of_typeArguments? _h; simp at this; omega
  · have := congrArg List.length (Option.some.inj _h)
    simp only [List.length_cons] at this
    omega

/-- The tokens after pairs of brackets. -/
def dimensions : List Token → List Token
  | a :: b :: rest =>
    if a.kind = .openBracket ∧ b.kind = .closeBracket then dimensions rest else a :: b :: rest
  | ts => ts

/-- The tokens after a type, if there is one. -/
def type? (ts : List Token) : Option (List Token) :=
  if (kindOf ts).primitive?.isSome then some (dimensions (ts.drop 1))
  else if kindOf ts = .identifier then (classType? (ts.drop 1)).map dimensions
  else none

/-- A type and a name: a declaration of local variables. -/
def isLocalVariable (ts : List Token) : Bool :=
  match type? ts with
  | some rest => kindOf rest == .identifier
  | none => false

/-- The token can start the operand of a cast to a class type. -/
def startsOperand : TokenKind → Bool
  | .identifier | .intLiteral | .floatLiteral | .stringLiteral | .charLiteral | .trueWord
  | .falseWord | .nullWord | .thisWord | .superWord | .newWord | .openParen | .bang | .tilde => true
  | _ => false

/-- A type in parentheses and an operand. Behind a primitive type anything is an operand. -/
def isCast (ts : List Token) : Bool :=
  kindOf ts == .openParen &&
    match type? (ts.drop 1) with
    | some rest =>
      kindOf rest == .closeParen &&
        ((kindOf (ts.drop 1)).primitive?.isSome || startsOperand (kindOf (rest.drop 1)))
    | none => false

/-- An arrow follows the parenthesis that closes `depth` open ones. -/
def arrowAfterParentheses (depth : Nat) : List Token → Bool
  | [] => false
  | t :: rest =>
    match t.kind with
    | .openParen => arrowAfterParentheses (depth + 1) rest
    | .closeParen =>
      if depth ≤ 1 then kindOf rest == .arrow else arrowAfterParentheses (depth - 1) rest
    | .eof | .semicolon | .openBrace => false
    | _ => arrowAfterParentheses depth rest

/-- A name or parentheses, and an arrow. -/
def isLambda (ts : List Token) : Bool :=
  match kindOf ts with
  | .identifier => kindOf (ts.drop 1) == .arrow
  | .openParen => arrowAfterParentheses 0 ts
  | _ => false

/-- A colon inside one pair of parentheses, before any semicolon. -/
def isForEach (depth : Nat) : List Token → Bool
  | [] => false
  | t :: rest =>
    match t.kind with
    | .openParen | .openBracket | .openBrace => isForEach (depth + 1) rest
    | .closeParen | .closeBracket | .closeBrace =>
      if depth ≤ 1 then false else isForEach (depth - 1) rest
    | .colon => if depth = 1 then true else isForEach depth rest
    | .semicolon | .eof => false
    | _ => isForEach depth rest

/-- The `n`th token from here is of this kind and directly follows the one before it. -/
def isJoined (ts : List Token) (n : Nat) (kind : TokenKind) : Bool :=
  match ts[n]? with
  | some t => t.kind == kind && t.gap.isEmpty
  | none => false

end Lookahead

end JavaSource
