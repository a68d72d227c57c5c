import JavaSource.Proofs.OperationsAhead
import JavaSource.Proofs.Persisting

/-!
# One run of each production

What a production of expressions gives, from what the productions below it give.  Binary expressions
and primaries are loops: `GoesOn` says that a production has read some tokens and has rounds of its
loop left, so that one more round reads more of them (`GoesOn.round`) until one stops
(`GoesOn.readsAs`).
-/

namespace JavaSource

/-! ### Loops -/

namespace Grammar

variable (g : Productions)

/-- A round of a binary expression: an operator and what it applies to beside `left`. -/
def binaryStep (least : Nat) (left : Tree) : Parser (Option Tree) := do
  match binaryAhead (← Parser.tokens) with
  | none => return none
  | some (operator, width) =>
    if operator.precedence < least then return none
    let before ← Parser.takeSpace
    Parser.skip width
    let right ← g.binary (operator.precedence + 1)
    let (leading, left) := left.lift
    return some (← Parser.node leading (.binary left before operator right none))

theorem binaryExpression_eq (least : Nat) : binaryExpression g least =
    unaryExpression g >>= fun left => Parser.repeating left (binaryStep g least) := rfl

/-- A round of a primary with its selections, indices and operators behind it. -/
def postfixStep (operand : Tree) : Parser (Option Tree) := do
  match ← Parser.peek with
  | .dot => return some (← selection g operand)
  | .openBracket =>
    let dimension ← arrayDimension g
    let (leading, array) := operand.lift
    return some (← Parser.node leading (.arrayAccess array dimension))
  | .plusPlus => return some (← postfixOperation .postIncrement operand)
  | .minusMinus => return some (← postfixOperation .postDecrement operand)
  | _ => return none

theorem postfixExpression_eq : postfixExpression g =
    primary g >>= fun operand => Parser.repeating operand (postfixStep g) := rfl

end Grammar


namespace Parser

variable {p q : Parser Tree} {step : Tree → Parser (Option Tree)} {us os rest : List Token}
  {t t' : Tree}

theorem run_skip (h : ∀ o ∈ os, o.kind ≠ .eof) (taken : Bool) (i : NodeId) :
    (skip os.length).run ⟨os ++ rest, taken, i⟩ = .ok ((), ⟨rest, taken && os.isEmpty, i⟩) := by
  induction os generalizing taken with
  | nil => cases taken <;> rfl
  | cons o os ih =>
    obtain ⟨ho, hos⟩ := List.forall_mem_cons.1 h
    have hbump : bump.run ⟨o :: os ++ rest, taken, i⟩ = .ok (_, ⟨os ++ rest, false, i⟩) :=
      run_bump rfl ho
    rw [List.length_cons, skip, run_bind_ok hbump, ih hos, Bool.false_and]
    cases taken <;> rfl

/-- An operator behind the space before it. -/
theorem run_operator {α : Type} {gap : Text} {ks : List TokenKind} {f : Space → Parser α}
    (h : Joined gap ks os) (hks : ks.all TokenKind.isPlain) (hos : os ≠ []) (i : NodeId) :
    (do let before ← takeSpace; skip os.length; f before).run ⟨os ++ rest, false, i⟩ =
      (f (.ofText gap)).run ⟨rest, false, i⟩ := by
  have hspace : Input.space ⟨os ++ rest, false, i⟩ = .ofText gap := by
    cases h with
    | nil => exact absurd rfl hos
    | cons _ hg => exact congrArg Space.ofText hg
  rw [run_bind_ok (run_takeSpace _), hspace, run_bind_ok (run_skip (h.ne_eof hks) true i),
    List.isEmpty_eq_false_iff.2 hos]
  rfl

/-- The parser reads these tokens as `t` and stops in front of `rest`. -/
def ReadsAs (p : Parser Tree) (us rest : List Token) (t : Tree) : Prop :=
  ∀ i, ∃ u j, p.run ⟨us ++ rest, false, i⟩ = .ok (u, ⟨rest, false, j⟩) ∧ u.unnumbered = t.unnumbered

/-- The parser reads these tokens as `t` and goes on with rounds of `step`. -/
def GoesOn (p : Parser Tree) (step : Tree → Parser (Option Tree)) (us rest : List Token)
    (t : Tree) : Prop :=
  ∀ i, ∃ u j b, p.run ⟨us ++ rest, false, i⟩ = (repeatWithin step b u).run ⟨rest, false, j⟩ ∧
    u.unnumbered = t.unnumbered ∧ rest.length < b

theorem ReadsAs.goesOn (h : p.ReadsAs us rest t) :
    GoesOn (p >>= fun a => repeating a step) step us rest t := by
  intro i
  obtain ⟨u, j, hrun, hu⟩ := h i
  refine ⟨u, j, rest.length + 1, ?_, hu, Nat.lt_succ_self _⟩
  rw [run_bind_ok hrun]
  rfl

theorem GoesOn.readsAs (h : p.GoesOn step us rest t)
    (hstop : ∀ u j, (step u).run ⟨rest, false, j⟩ = .ok (none, ⟨rest, false, j⟩)) :
    p.ReadsAs us rest t := by
  intro i
  obtain ⟨u, j, b, hrun, hu, hb⟩ := h i
  refine ⟨u, j, ?_, hu⟩
  obtain ⟨b, rfl⟩ := Nat.exists_eq_succ_of_ne_zero (Nat.ne_zero_of_lt hb)
  rw [hrun, repeatWithin, run_bind_ok (hstop u j)]
  rfl

/-- One more round. -/
theorem GoesOn.round (h : p.GoesOn step us (os ++ rest) t) (hos : os ≠ [])
    (hround : ∀ u j, u.unnumbered = t.unnumbered → ∃ v k,
      (step u).run ⟨os ++ rest, false, j⟩ = .ok (some v, ⟨rest, false, k⟩) ∧
        v.unnumbered = t'.unnumbered) : p.GoesOn step (us ++ os) rest t' := by
  intro i
  obtain ⟨u, j, b, hrun, hu, hb⟩ := h i
  obtain ⟨v, k, hstep, hv⟩ := hround u j hu
  obtain ⟨b, rfl⟩ := Nat.exists_eq_succ_of_ne_zero (Nat.ne_zero_of_lt hb)
  refine ⟨v, k, b, ?_, hv, ?_⟩
  · rw [List.append_assoc, hrun, repeatWithin, run_bind_ok hstep]
  · have hpos := List.length_pos_iff.2 hos
    rw [List.length_append] at hb
    omega

end Parser

/-! ### The productions -/

/-- A plain assignment, or one with an operation. -/
def Shape.assigning (target : Tree) (before : Space) : Option AssignmentOperator → Tree → Shape Tree
  | none, value => .assignment target ⟨before, value⟩
  | some operator, value => .assignmentOperation target before operator value

namespace Grammar

open JavaSource.Parser Lookahead

variable {g : Productions} {u r : Tree} {ts ts' rest os : List Token} {v : Token} {i j k : NodeId}
  {gap : Text}

theorem run_peek : peek.run ⟨ts, false, i⟩ = .ok (kindOf ts, ⟨ts, false, i⟩) := rfl

theorem run_tokens : tokens.run ⟨ts, false, i⟩ = .ok (ts, ⟨ts, false, i⟩) := rfl

theorem run_at? (k : TokenKind) :
    (at? k).run ⟨ts, false, i⟩ = .ok (kindOf ts == k, ⟨ts, false, i⟩) := rfl

theorem run_bump_cons (hv : v.kind ≠ .eof) :
    bump.run ⟨v :: ts, false, i⟩ = .ok (.ofText v.gap, ⟨ts, false, i⟩) :=
  run_bump rfl hv

/-- A name that no call starts with. -/
theorem run_primary_name (hv : v.kind = .identifier) (hts : kindOf ts ≠ .openParen) :
    (primary g).run ⟨v :: ts, false, i⟩ =
      .ok (.node i (.ofText v.gap) (.identifier v.text none), ⟨ts, false, i + 1⟩) := by
  have hkind : kindOf (v :: ts) = .identifier := hv
  have htext : text.run ⟨v :: ts, false, i⟩ = .ok (v.text, ⟨v :: ts, false, i⟩) := rfl
  have hname : anyName.run ⟨v :: ts, false, i⟩ =
      .ok (.node i (.ofText v.gap) (.identifier v.text none), ⟨ts, false, i + 1⟩) := by
    have hbump : bump.run ⟨v :: ts, true, i⟩ = .ok (.empty, ⟨ts, false, i⟩) :=
      run_bump rfl (hv ▸ nofun)
    rw [anyName, run_bind_ok (run_takeSpace _), run_bind_ok (a := v.text) rfl, run_bind_ok hbump]
    rfl
  rw [primary, run_bind_ok run_peek, run_bind_ok htext, hkind]
  change (nameOrCall g).run _ = _
  rw [nameOrCall, run_bind_ok hname, run_bind_ok (run_at? .openParen), beq_eq_false_iff_ne.2 hts]
  rfl

theorem run_primary_literal (hv : v.kind = .intLiteral)
    (hkind : literalKind .intLiteral v.text = some .int) :
    (primary g).run ⟨v :: ts, false, i⟩ =
      .ok (.node i (.ofText v.gap) (.literal v.text .int), ⟨ts, false, i + 1⟩) := by
  have hlit : kindOf (v :: ts) = .intLiteral := hv
  have htext : text.run ⟨v :: ts, false, i⟩ = .ok (v.text, ⟨v :: ts, false, i⟩) := rfl
  have hbump : bump.run ⟨v :: ts, true, i⟩ = .ok (.empty, ⟨ts, false, i⟩) :=
    run_bump rfl (hv ▸ nofun)
  rw [primary, run_bind_ok run_peek, run_bind_ok htext, hlit, hkind]
  dsimp only
  rw [run_bind_ok (run_takeSpace _), run_bind_ok (a := v.text) rfl, run_bind_ok hbump]
  rfl

theorem run_primary_parentheses {c : Token} (hv : v.kind = .openParen) (hc : c.kind = .closeParen)
    (hinner : g.expression.run ⟨ts, false, i⟩ = .ok (r, ⟨c :: rest, false, j⟩)) :
    (primary g).run ⟨v :: ts, false, i⟩ =
      .ok (.node j (.ofText v.gap) (.parentheses ⟨r, .ofText c.gap⟩), ⟨rest, false, j + 1⟩) := by
  have hkind : kindOf (v :: ts) = .openParen := hv
  have htext : text.run ⟨v :: ts, false, i⟩ = .ok (v.text, ⟨v :: ts, false, i⟩) := rfl
  have hfollowed : (followed g.expression).run ⟨ts, false, i⟩ =
      .ok (⟨r, .ofText c.gap⟩, ⟨c :: rest, true, j⟩) := by
    rw [followed, run_bind_ok hinner, run_bind_ok (run_takeSpace _)]
    rfl
  have hexpect : (expect .closeParen).run ⟨c :: rest, true, j⟩ = .ok (.empty, ⟨rest, false, j⟩) :=
    run_expect rfl hc (by decide)
  rw [primary, run_bind_ok run_peek, run_bind_ok htext, hkind]
  change (bump >>= _).run _ = _
  rw [run_bind_ok (run_bump_cons (hv ▸ by decide)), run_bind_ok hfollowed, run_bind_ok hexpect]
  rfl

/-- Nothing of the operand follows. -/
theorem run_postfixStep_stop (h : (kindOf ts).continues = false) :
    (postfixStep g u).run ⟨ts, false, i⟩ = .ok (none, ⟨ts, false, i⟩) := by
  rw [postfixStep, run_bind_ok run_peek]
  split <;> first | rfl | simp_all [TokenKind.continues]

theorem run_postfixStep_round {o : UnaryOperator} (ho : o.isPostfix) (hv : v.kind = o.token) :
    (postfixStep g u).run ⟨v :: ts, false, i⟩ =
      .ok (some (.node i u.lift.1 (.unary (.ofText v.gap) o u.lift.2)), ⟨ts, false, i + 1⟩) := by
  have hoperation (heof : v.kind ≠ .eof) : (postfixOperation o u).run ⟨v :: ts, false, i⟩ =
      .ok (.node i u.lift.1 (.unary (.ofText v.gap) o u.lift.2), ⟨ts, false, i + 1⟩) := by
    rw [postfixOperation, run_bind_ok (run_bump_cons heof)]
    rfl
  have hkind : kindOf (v :: ts) = o.token := hv
  rw [postfixStep, run_bind_ok run_peek, hkind]
  cases o with
  | postIncrement => exact run_bind_ok (hoperation (hv ▸ by decide))
  | postDecrement => exact run_bind_ok (hoperation (hv ▸ by decide))
  | _ => cases ho

/-- No operator and no cast is in front of the operand. -/
theorem run_unaryExpression_none (h : Sober ts) (hfirst : unaryAhead (kindOf ts) = none) :
    (unaryExpression g).run ⟨ts, false, i⟩ = (postfixExpression g).run ⟨ts, false, i⟩ := by
  rw [unaryExpression, run_bind_ok run_peek, hfirst]
  dsimp only
  rw [run_bind_ok run_tokens, h.isCast]
  rfl

theorem run_unaryExpression_before {o : UnaryOperator} (ho : o.isPostfix = false)
    (hv : v.kind = o.token)
    (hoperand : g.unary.run ⟨ts, false, i⟩ = .ok (r, ⟨rest, false, j⟩)) :
    (unaryExpression g).run ⟨v :: ts, false, i⟩ =
      .ok (.node j (.ofText v.gap) (.unary .empty o r), ⟨rest, false, j + 1⟩) := by
  have hahead : unaryAhead (kindOf (v :: ts)) = some o := by
    rw [kindOf, hv]
    cases o <;> first | rfl | cases ho
  have heof : v.kind ≠ .eof := by
    rw [hv]
    cases o <;> decide
  rw [unaryExpression, run_bind_ok run_peek, hahead]
  dsimp only
  rw [run_bind_ok (run_bump_cons heof), run_bind_ok hoperand]
  rfl

/-- The next operator, if there is one, binds looser than `least`. -/
theorem run_binaryStep_stop {least : Nat}
    (h : ∀ o width, binaryAhead ts = some (o, width) → o.precedence < least) :
    (binaryStep g least u).run ⟨ts, false, i⟩ = .ok (none, ⟨ts, false, i⟩) := by
  rw [binaryStep, run_bind_ok run_tokens]
  split
  · rfl
  · next o width hahead =>
    rw [if_pos (h o width hahead)]
    rfl

theorem run_binaryStep_round {least : Nat} {o : BinaryOperator} (hos : Joined gap o.tokens os)
    (hahead : binaryAhead (os ++ ts) = some (o, os.length)) (hleast : least ≤ o.precedence)
    (hright : (g.binary (o.precedence + 1)).run ⟨ts, false, i⟩ = .ok (r, ⟨rest, false, j⟩)) :
    (binaryStep g least u).run ⟨os ++ ts, false, i⟩ =
      .ok (some (.node j u.lift.1 (.binary u.lift.2 (.ofText gap) o r none)),
        ⟨rest, false, j + 1⟩) := by
  obtain ⟨hplain, hne, -⟩ := hos.between o.between
  rw [binaryStep, run_bind_ok run_tokens, hahead]
  dsimp only
  rw [if_neg (Nat.not_lt.2 hleast), run_operator hos hplain hne, run_bind_ok hright]
  rfl

theorem run_ternaryExpression_none
    (hcondition : (binaryExpression g 1).run ⟨ts, false, i⟩ = .ok (u, ⟨rest, false, j⟩))
    (hrest : kindOf rest ≠ .question) :
    (ternaryExpression g).run ⟨ts, false, i⟩ = .ok (u, ⟨rest, false, j⟩) := by
  rw [ternaryExpression, run_bind_ok hcondition, run_bind_ok (run_at? .question),
    beq_eq_false_iff_ne.2 hrest]
  rfl

theorem run_ternaryExpression_question {q c : Token} {ts'' : List Token} {r' : Tree} {l : NodeId}
    (hcondition : (binaryExpression g 1).run ⟨ts, false, i⟩ = .ok (u, ⟨q :: ts', false, j⟩))
    (hq : q.kind = .question)
    (htrue : g.expression.run ⟨ts', false, j⟩ = .ok (r, ⟨c :: ts'', false, k⟩))
    (hc : c.kind = .colon) (hlambda : isLambda ts'' = false)
    (hfalse : g.ternary.run ⟨ts'', false, k⟩ = .ok (r', ⟨rest, false, l⟩)) :
    (ternaryExpression g).run ⟨ts, false, i⟩ =
      .ok (.node l u.lift.1 (.ternary u.lift.2 ⟨.ofText q.gap, r⟩ ⟨.ofText c.gap, r'⟩),
        ⟨rest, false, l + 1⟩) := by
  have hquestion : kindOf (q :: ts') = .question := hq
  have hcolon : (expect .colon).run ⟨c :: ts'', false, k⟩ = .ok (.ofText c.gap, ⟨ts'', false, k⟩) :=
    run_expect rfl hc (by decide)
  rw [ternaryExpression, run_bind_ok hcondition, run_bind_ok (run_at? .question), hquestion]
  change (bump >>= _).run _ = _
  rw [run_bind_ok (run_bump_cons (hq ▸ by decide)), run_bind_ok htrue, run_bind_ok hcolon,
    run_bind_ok run_tokens, hlambda]
  change (g.ternary >>= _).run _ = _
  rw [run_bind_ok hfalse]
  rfl

theorem run_expression_none (h : Sober ts)
    (htarget : (ternaryExpression g).run ⟨ts, false, i⟩ = .ok (u, ⟨rest, false, j⟩))
    (hrest : assignmentAhead rest = none) :
    (Grammar.expression g).run ⟨ts, false, i⟩ = .ok (u, ⟨rest, false, j⟩) := by
  rw [Grammar.expression, run_bind_ok run_tokens, h.isLambda]
  change (ternaryExpression _ >>= _).run _ = _
  rw [run_bind_ok htarget, run_bind_ok run_tokens, hrest]
  rfl

theorem run_expression_assigning {ks : List TokenKind} {o : Option AssignmentOperator}
    (h : Sober ts)
    (htarget : (ternaryExpression g).run ⟨ts, false, i⟩ = .ok (u, ⟨os ++ ts', false, j⟩))
    (hos : Joined gap ks os) (hks : ks ≠ [] ∧ ks.all TokenKind.isBetween)
    (hahead : assignmentAhead (os ++ ts') = some (o, os.length))
    (hvalue : g.expression.run ⟨ts', false, j⟩ = .ok (r, ⟨rest, false, k⟩)) :
    (Grammar.expression g).run ⟨ts, false, i⟩ =
      .ok (.node k u.lift.1 (.assigning u.lift.2 (.ofText gap) o r), ⟨rest, false, k + 1⟩) := by
  obtain ⟨hplain, hne, -⟩ := hos.between hks
  rw [Grammar.expression, run_bind_ok run_tokens, h.isLambda]
  change (ternaryExpression _ >>= _).run _ = _
  rw [run_bind_ok htarget, run_bind_ok run_tokens, hahead]
  dsimp only
  rw [run_operator hos hplain hne, run_bind_ok hvalue]
  cases o <;> rfl

end Grammar

end JavaSource
