import JavaSource.Proofs.Returned

/-!
# The parser terminates

Levels and rounds are budgets, and no input uses one up (`parsing_terminates`): as many levels as
there are tokens, and one more, are enough.  What is looked ahead at is looked at up to the end of
the input: the tokens behind it (`upToEnd` leaves them out) make no difference.  The counter of open
parentheses is lowered only where it is not zero already; the scans with a counter that would notice
(`isLambda?`, `isForEach?`) never do.
-/

namespace JavaSource

/-- The tokens up to the end of the input, which is the last of them. -/
def upToEnd : List Token → List Token
  | [] => []
  | t :: ts => if t.kind = .eof then [t] else t :: upToEnd ts

@[simp] theorem kindOf_upToEnd (ts : List Token) : kindOf (upToEnd ts) = kindOf ts := by
  cases ts with
  | nil => rfl
  | cons t ts => rw [upToEnd]; split <;> rfl

theorem upToEnd_cons {t : Token} (ts : List Token) (h : t.kind ≠ .eof) :
    upToEnd (t :: ts) = t :: upToEnd ts := if_neg h

theorem drop_upToEnd {ts : List Token} (h : kindOf ts ≠ .eof) :
    (upToEnd ts).drop 1 = upToEnd (ts.drop 1) := by
  cases ts with
  | nil => rfl
  | cons t ts => rw [upToEnd_cons ts h]; rfl

namespace Lookahead

/-! ### Nothing behind the end is looked at -/

theorem typeArguments?_upToEnd (depth : Nat) (ts : List Token) :
    typeArguments? depth (upToEnd ts) = (typeArguments? depth ts).map upToEnd := by
  induction ts generalizing depth with
  | nil => rfl
  | cons t ts ih =>
    by_cases hk : t.kind = .eof
    · simp [upToEnd, typeArguments?, hk, TokenKind.primitive?]
    · rw [upToEnd_cons ts hk, typeArguments?.eq_def, typeArguments?.eq_def depth (t :: ts)]
      simp only [ih]
      repeat' split
      all_goals rfl

theorem arrowAfterParentheses_upToEnd (depth : Nat) (ts : List Token) :
    arrowAfterParentheses depth (upToEnd ts) = arrowAfterParentheses depth ts := by
  induction ts generalizing depth with
  | nil => rfl
  | cons t ts ih =>
    by_cases hk : t.kind = .eof
    · simp [upToEnd, arrowAfterParentheses, hk]
    · rw [upToEnd_cons ts hk, arrowAfterParentheses.eq_def,
        arrowAfterParentheses.eq_def depth (t :: ts)]
      simp only [ih, kindOf_upToEnd]

theorem isForEach_upToEnd (depth : Nat) (ts : List Token) :
    isForEach depth (upToEnd ts) = isForEach depth ts := by
  induction ts generalizing depth with
  | nil => rfl
  | cons t ts ih =>
    by_cases hk : t.kind = .eof
    · simp [upToEnd, isForEach, hk]
    · rw [upToEnd_cons ts hk, isForEach.eq_def, isForEach.eq_def depth (t :: ts)]
      simp only [ih]

/-- Two tokens neither of which is the end. -/
theorem pair_upToEnd (ts : List Token) {k l : TokenKind} (hk : k ≠ .eof) (hl : l ≠ .eof) :
    (kindOf (upToEnd ts) = k ∧ kindOf ((upToEnd ts).drop 1) = l ↔
        kindOf ts = k ∧ kindOf (ts.drop 1) = l) ∧
      (kindOf ts = k ∧ kindOf (ts.drop 1) = l → (upToEnd ts).drop 2 = upToEnd (ts.drop 2)) := by
  rw [kindOf_upToEnd]
  by_cases hkind : kindOf ts = k
  · have htail := drop_upToEnd (hkind ▸ hk)
    refine ⟨by rw [htail, kindOf_upToEnd], fun hboth => ?_⟩
    rw [← List.drop_drop (i := 1) (j := 1), htail, drop_upToEnd (hboth.2 ▸ hl), List.drop_drop]
  · exact ⟨by simp [hkind], fun hboth => absurd hboth.1 hkind⟩

theorem dimensions_upToEnd (ts : List Token) :
    dimensions (upToEnd ts) = upToEnd (dimensions ts) := by
  induction hn : ts.length using Nat.strongRecOn generalizing ts with
  | _ n ih =>
    obtain ⟨hkinds, hbehind⟩ := pair_upToEnd ts (k := .openBracket) (l := .closeBracket)
      (by nofun) (by nofun)
    rw [dimensions_eq (upToEnd ts), dimensions_eq ts, if_congr hkinds rfl rfl]
    split
    · next hboth =>
      have hpos : 0 < ts.length := List.length_pos_iff.2 fun hnil => by simp [hnil, kindOf] at hboth
      rw [hbehind hboth]
      exact ih _ (by rw [List.length_drop]; omega) _ rfl
    · rfl

theorem classType?_upToEnd (ts : List Token) :
    classType? (upToEnd ts) = (classType? ts).map upToEnd := by
  induction hn : ts.length using Nat.strongRecOn generalizing ts with
  | _ n ih =>
    have harguments :
        (if kindOf (upToEnd ts) = .less then typeArguments? 0 (upToEnd ts) else some (upToEnd ts)) =
          (if kindOf ts = .less then typeArguments? 0 ts else some ts).map upToEnd := by
      rw [kindOf_upToEnd, typeArguments?_upToEnd]
      split <;> rfl
    rw [classType?_eq (upToEnd ts), classType?_eq ts, harguments]
    cases hrest : (if kindOf ts = .less then typeArguments? 0 ts else some ts) with
    | none => rfl
    | some rest =>
      have hshort : rest.length ≤ ts.length := by
        split at hrest
        · exact Nat.le_of_lt (length_of_typeArguments? hrest)
        · cases hrest
          exact Nat.le_refl _
      obtain ⟨hkinds, hbehind⟩ := pair_upToEnd rest (k := .dot) (l := .identifier)
        (by nofun) (by nofun)
      simp only [Option.map_some, Option.bind_some, if_congr hkinds rfl rfl]
      split
      · next hboth =>
        have hpos : 0 < rest.length :=
          List.length_pos_iff.2 fun hnil => by simp [hnil, kindOf] at hboth
        rw [hbehind hboth]
        exact ih _ (by rw [List.length_drop]; omega) _ rfl
      · rfl

theorem type?_upToEnd (ts : List Token) : type? (upToEnd ts) = (type? ts).map upToEnd := by
  unfold type?
  rw [kindOf_upToEnd]
  split
  · next hk =>
    have heof : kindOf ts ≠ .eof := fun h => by rw [h] at hk; cases hk
    rw [drop_upToEnd heof, dimensions_upToEnd]
    rfl
  · split
    · next hk =>
      rw [drop_upToEnd (by rw [hk]; nofun), classType?_upToEnd]
      simp only [Option.map_map, Function.comp_def, dimensions_upToEnd]
    · rfl

theorem isLocalVariable_upToEnd (ts : List Token) :
    isLocalVariable (upToEnd ts) = isLocalVariable ts := by
  rw [isLocalVariable, isLocalVariable, type?_upToEnd]
  cases type? ts <;> simp

theorem isLambda_upToEnd (ts : List Token) : isLambda (upToEnd ts) = isLambda ts := by
  unfold isLambda
  rw [kindOf_upToEnd, arrowAfterParentheses_upToEnd]
  split
  · next hk => rw [drop_upToEnd (by rw [hk]; nofun), kindOf_upToEnd]
  · rfl
  · rfl

theorem isCast_upToEnd (ts : List Token) : isCast (upToEnd ts) = isCast ts := by
  unfold isCast
  rw [kindOf_upToEnd]
  by_cases hopen : kindOf ts = .openParen
  · rw [drop_upToEnd (by rw [hopen]; nofun), type?_upToEnd, kindOf_upToEnd]
    cases type? (ts.drop 1) with
    | none => rfl
    | some rest =>
      simp only [Option.map_some, kindOf_upToEnd]
      by_cases hclose : kindOf rest = .closeParen
      · rw [drop_upToEnd (by rw [hclose]; nofun), kindOf_upToEnd]
      · simp only [beq_eq_false_iff_ne.2 hclose, Bool.false_and]
  · simp only [beq_eq_false_iff_ne.2 hopen, Bool.false_and]

/-! ### Counters -/

/-- The counter after something is closed, if anything is open. -/
def lower? : Nat → Option Nat
  | 0 => none
  | depth + 1 => some depth

theorem bind_lower? {α : Type} {depth : Nat} (hpos : 0 < depth) (f : Nat → Option α) :
    (lower? depth).bind f = f (depth - 1) := by
  cases depth with
  | zero => cases hpos
  | succ depth => rfl

/-- `arrowAfterParentheses`; nothing if a parenthesis is closed and none is open. -/
def arrowAfterParentheses? (depth : Nat) : List Token → Option Bool
  | [] => some false
  | t :: rest =>
    match t.kind with
    | .openParen => arrowAfterParentheses? (depth + 1) rest
    | .closeParen => (lower? depth).bind fun depth =>
      if depth = 0 then some (kindOf rest == .arrow) else arrowAfterParentheses? depth rest
    | .eof | .semicolon | .openBrace => some false
    | _ => arrowAfterParentheses? depth rest

/-- `isLambda` with a counter that is watched. -/
def isLambda? (ts : List Token) : Option Bool :=
  match kindOf ts with
  | .identifier => some (kindOf (ts.drop 1) == .arrow)
  | .openParen => arrowAfterParentheses? 0 ts
  | _ => some false

/-- `isForEach`; nothing if something is closed and nothing is open. -/
def isForEach? (depth : Nat) : List Token → Option Bool
  | [] => some false
  | t :: rest =>
    match t.kind with
    | .openParen | .openBracket | .openBrace => isForEach? (depth + 1) rest
    | .closeParen | .closeBracket | .closeBrace =>
      if depth ≤ 1 then some false else (lower? depth).bind fun depth => isForEach? depth rest
    | .colon => if depth = 1 then some true else isForEach? depth rest
    | .semicolon | .eof => some false
    | _ => isForEach? depth rest

theorem arrowAfterParentheses?_eq {depth : Nat} (hpos : 0 < depth) (ts : List Token) :
    arrowAfterParentheses? depth ts = some (arrowAfterParentheses depth ts) := by
  fun_induction arrowAfterParentheses depth ts with
  | case1 => rfl
  | case3 depth t rest hk hlast =>
    rw [arrowAfterParentheses?, hk]
    dsimp only
    rw [bind_lower? hpos, if_pos (by omega)]
  | case4 depth t rest hk hmore ih =>
    rw [arrowAfterParentheses?, hk]
    dsimp only
    rw [bind_lower? hpos, if_neg (by omega)]
    exact ih (by omega)
  | _ => simp_all [arrowAfterParentheses?]

theorem isLambda?_eq (ts : List Token) : isLambda? ts = some (isLambda ts) := by
  unfold isLambda? isLambda
  cases ts with
  | nil => rfl
  | cons t ts =>
    change (match t.kind with | .identifier => _ | .openParen => _ | _ => _) =
      some (match t.kind with | .identifier => _ | .openParen => _ | _ => _)
    split
    · rfl
    · next hk =>
      -- the first token opens the first parenthesis
      rw [arrowAfterParentheses?, arrowAfterParentheses, hk]
      exact arrowAfterParentheses?_eq (Nat.succ_pos 0) ts
    · rfl

theorem isForEach?_eq (depth : Nat) (ts : List Token) :
    isForEach? depth ts = some (isForEach depth ts) := by
  have hlower {depth : Nat} {f : Nat → Option Bool} (h : ¬ depth ≤ 1) :
      (lower? depth).bind f = f (depth - 1) := bind_lower? (by omega) f
  fun_induction isForEach depth ts with
  | case1 => rfl
  | _ => simp_all [isForEach?]

end Lookahead

/-! ### Whole texts -/

open JavaSource.Parser in
theorem returns_wholeText {n : Nat} {g g' : Productions} (hg : g.Return n g') (kind : SourceKind) :
    Returns n (kind.parser g) (kind.parser g') := by
  have hend : Returns n endOfInput endOfInput :=
    settles_at? fun _ => settles_ite settles_fail returns_pure
  cases kind with
  | unit => exact Grammar.returns_compilationUnit hg
  | expression =>
    exact Returns.bind ((Grammar.returns_expression hg).le n.le_succ) fun _ =>
      hend.bind fun _ => returns_pure
  | statement =>
    exact Returns.bind ((Grammar.ends_statement hg).mono fun _ => Nat.zero_le _) fun t =>
      Returns.bind ((Grammar.settles_terminate t).mono fun _ => Nat.zero_le _) fun _ =>
      hend.bind fun _ => returns_pure

/-- **The parser terminates.**  Whatever the tokens are, parsing them uses up neither its levels nor
the rounds of a loop, and more levels than there are tokens change nothing; the same holds for each
production from wherever it is used.  The lookaheads do not look behind the end of the input, and
their counters do not go below zero. -/
theorem parsing_terminates (kind : SourceKind) (ts : List Token) (firstId : NodeId) :
    (parseTokens kind ts firstId ≠ .error .outOfBudget ∧
      (∀ more, (kind.parser (grammar (ts.length + 1 + more))).run ⟨ts, false, firstId⟩ =
        (kind.parser (grammar (ts.length + 1))).run ⟨ts, false, firstId⟩) ∧
      ∀ n more, (grammar n).Return n (grammar (n + more))) ∧
    (Lookahead.type? (upToEnd ts) = (Lookahead.type? ts).map upToEnd ∧
      Lookahead.isLocalVariable (upToEnd ts) = Lookahead.isLocalVariable ts ∧
      Lookahead.isCast (upToEnd ts) = Lookahead.isCast ts ∧
      Lookahead.isLambda (upToEnd ts) = Lookahead.isLambda ts ∧
      ∀ depth, Lookahead.isForEach depth (upToEnd ts) = Lookahead.isForEach depth ts) ∧
    Lookahead.isLambda? ts = some (Lookahead.isLambda ts) ∧
      ∀ depth, Lookahead.isForEach? depth ts = some (Lookahead.isForEach depth ts) := by
  have hleft : (Input.mk ts false firstId).left < ts.length + 1 :=
    Nat.lt_succ_of_le (Input.mk ts false firstId).left_le_length
  have hreturns (more : Nat) := returns_wholeText
    (return_grammar (Nat.le_add_right (ts.length + 1) more)) kind ⟨ts, false, firstId⟩ hleft
  refine ⟨⟨fun herror => ?_, fun more => (hreturns more).1,
      fun n more => return_grammar (n.le_add_right more)⟩,
    ⟨Lookahead.type?_upToEnd ts, Lookahead.isLocalVariable_upToEnd ts, Lookahead.isCast_upToEnd ts,
      Lookahead.isLambda_upToEnd ts, fun depth => Lookahead.isForEach_upToEnd depth ts⟩,
    Lookahead.isLambda?_eq ts, fun depth => Lookahead.isForEach?_eq depth ts⟩
  obtain ⟨-, hbudget, -⟩ := hreturns 0
  rw [parseTokens] at herror
  cases hrun : (kind.parser (grammar (ts.length + 1))).run ⟨ts, false, firstId⟩ with
  | error e =>
    rw [hrun] at herror hbudget
    cases herror
    exact hbudget rfl
  | ok r =>
    rw [hrun] at herror
    cases herror

end JavaSource
