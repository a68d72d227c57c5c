import JavaSource.Proofs.Ahead
import JavaSource.Proofs.Operations

/-!
# Looking ahead in an operation

The parser tells a cast and a lambda expression by their tokens up to the closing parenthesis and
behind it.  Among tokens that are `Sober` there is neither, and the tokens of operations are
(`Tokens.sober`): an operator or a parenthesis that closes stands behind each closing parenthesis.
The operator that comes next is told by its `Joined` tokens, as the token behind them stands apart
(`Grammar.binaryAhead_of_joined`, `Grammar.assignmentAhead_of_joined`).
-/

namespace JavaSource

/-! ### Neither casts nor lambda expressions -/

namespace Lookahead

theorem suffix_of_typeArguments? {depth : Nat} {ts rest : List Token}
    (h : typeArguments? depth ts = some rest) : rest <:+ ts := by
  fun_induction typeArguments? depth ts with
  | case1 | case3 | case16 => cases h
  | case4 t ts => exact Option.some.inj h ▸ List.suffix_cons t ts
  | _ =>
    rename_i ih
    exact (ih h).trans (List.suffix_cons _ _)

theorem suffix_of_classType? {ts rest : List Token} (h : classType? ts = some rest) :
    rest <:+ ts := by
  induction hn : ts.length using Nat.strongRecOn generalizing ts with
  | ind n ih =>
    subst hn
    rw [classType?_eq] at h
    obtain ⟨us, hus, hrest⟩ := Option.bind_eq_some_iff.1 h
    have hsuffix : us <:+ ts := by
      split at hus
      · exact suffix_of_typeArguments? hus
      · cases hus
        exact List.suffix_refl _
    split at hrest
    · next hname =>
      have hlt : (us.drop 2).length < ts.length := by
        have hne : us ≠ [] := by
          rintro rfl
          cases hname.1
        have hle := hsuffix.length_le
        have hpos := List.length_pos_iff.2 hne
        rw [List.length_drop]
        omega
      exact (ih _ hlt hrest rfl).trans ((List.drop_suffix 2 us).trans hsuffix)
    · cases hrest
      exact hsuffix

theorem suffix_dimensions (ts : List Token) : dimensions ts <:+ ts := by
  fun_induction dimensions ts with
  | case1 a b rest h ih => exact ih.trans ⟨[a, b], rfl⟩
  | case2 => exact List.suffix_refl _
  | case3 => exact List.suffix_refl _

theorem suffix_of_type? {ts rest : List Token} (h : type? ts = some rest) : rest <:+ ts := by
  have hdrop := List.drop_suffix 1 ts
  unfold type? at h
  split at h
  · cases h
    exact (suffix_dimensions _).trans hdrop
  · split at h
    · obtain ⟨us, hus, rfl⟩ := Option.map_eq_some_iff.1 h
      exact (suffix_dimensions us).trans ((suffix_of_classType? hus).trans hdrop)
    · cases h

end Lookahead

open Lookahead

/-- Among these tokens there is no lambda expression and no cast: no arrow, no primitive type, and
nothing behind a closing parenthesis that an operand could start with. -/
inductive Sober : List Token → Prop
  | nil : Sober []
  | cons {u : Token} {ts : List Token} (harrow : u.kind ≠ .arrow)
    (hprimitive : u.kind.primitive? = none)
    (hclose : u.kind = .closeParen → startsOperand (kindOf ts) = false) (h : Sober ts) :
    Sober (u :: ts)

namespace Sober

variable {ts us : List Token}

theorem suffix (h : Sober ts) (hs : us <:+ ts) : Sober us := by
  induction h with
  | nil => exact List.suffix_nil.1 hs ▸ .nil
  | cons harrow hprimitive hclose h ih =>
    rcases List.suffix_cons_iff.1 hs with rfl | hs
    · exact .cons harrow hprimitive hclose h
    · exact ih hs

theorem kindOf_ne (h : Sober ts) : kindOf ts ≠ .arrow := by
  cases h with
  | nil => nofun
  | cons harrow => exact harrow

theorem primitive?_kindOf (h : Sober ts) : (kindOf ts).primitive? = none := by
  cases h with
  | nil => rfl
  | cons _ hprimitive => exact hprimitive

theorem arrowAfterParentheses (h : Sober ts) (depth : Nat) :
    arrowAfterParentheses depth ts = false := by
  induction h generalizing depth with
  | nil => rfl
  | @cons u ts _ _ _ h ih =>
    rw [Lookahead.arrowAfterParentheses]
    split
    · exact ih (depth + 1)
    · split
      · exact beq_eq_false_iff_ne.2 h.kindOf_ne
      · exact ih (depth - 1)
    all_goals first | rfl | exact ih depth

theorem isLambda (h : Sober ts) : isLambda ts = false := by
  unfold Lookahead.isLambda
  split
  · exact beq_eq_false_iff_ne.2 (h.suffix (List.drop_suffix 1 ts)).kindOf_ne
  · exact h.arrowAfterParentheses 0
  · rfl

theorem isCast (h : Sober ts) : isCast ts = false := by
  have hprimitive := (h.suffix (List.drop_suffix 1 ts)).primitive?_kindOf
  unfold Lookahead.isCast
  split
  · next rest hrest =>
    have hoperand (hclose : kindOf rest = .closeParen) :
        startsOperand (kindOf (rest.drop 1)) = false := by
      cases h.suffix ((suffix_of_type? hrest).trans (List.drop_suffix 1 ts)) with
      | nil => rfl
      | cons _ _ hstop => exact hstop hclose
    rw [hprimitive, Option.isSome_none, Bool.false_or]
    by_cases hclose : kindOf rest = .closeParen
    · rw [hoperand hclose, Bool.and_false, Bool.and_false]
    · rw [beq_eq_false_iff_ne.2 hclose, Bool.false_and, Bool.and_false]
  · exact Bool.and_false _

end Sober

/-- The token is not the end of the input, and of casts and lambda expressions it can only be the
start. -/
def TokenKind.isPlain (k : TokenKind) : Bool :=
  k != .eof && k != .arrow && k.primitive?.isNone && k != .closeParen

/-- An operand goes on with this token. -/
def TokenKind.continues : TokenKind → Bool
  | .openParen | .dot | .openBracket | .plusPlus | .minusMinus => true
  | _ => false

/-- The token can stand between two operands. -/
def TokenKind.isBetween (k : TokenKind) : Bool :=
  k.isPlain && !startsOperand k && !k.continues

namespace Joined

variable {gap : Text} {k : TokenKind} {ks : List TokenKind} {os rest : List Token}

theorem cons_inv (h : Joined gap (k :: ks) os) :
    ∃ o vs, os = o :: vs ∧ o.kind = k ∧ o.gap = gap ∧ Joined [] ks vs := by
  cases h with
  | cons hk hg h => exact ⟨_, _, rfl, hk, hg, h⟩

theorem one_inv (h : Joined gap [k] os) : ∃ o, os = [o] ∧ o.kind = k ∧ o.gap = gap := by
  obtain ⟨o, vs, rfl, hk, hg, hnil⟩ := h.cons_inv
  cases hnil
  exact ⟨o, rfl, hk, hg⟩

theorem kindOf_append (h : Joined gap ks os) (hks : ks ≠ []) : kindOf (os ++ rest) ∈ ks := by
  cases h with
  | nil => exact absurd rfl hks
  | cons hk => exact List.mem_cons.2 (.inl hk)

theorem length_eq (h : Joined gap ks os) : os.length = ks.length := by
  induction h with
  | nil => rfl
  | cons _ _ _ ih => rw [List.length_cons, List.length_cons, ih]

theorem sober (h : Joined gap ks os) (hks : ks.all TokenKind.isPlain) (hrest : Sober rest) :
    Sober (os ++ rest) := by
  induction h with
  | nil => exact hrest
  | @cons gap k ks o os hk hg h ih =>
    obtain ⟨hfirst, hothers⟩ := Bool.and_eq_true_iff.1 hks
    simp only [TokenKind.isPlain, Bool.and_eq_true, bne_iff_ne, Option.isNone_iff_eq_none] at hfirst
    obtain ⟨⟨⟨-, harrow⟩, hprimitive⟩, hclose⟩ := hfirst
    subst hk
    exact .cons harrow hprimitive (fun h => absurd h hclose) (ih hothers)

theorem ne_eof (h : Joined gap ks os) (hks : ks.all TokenKind.isPlain) :
    ∀ o ∈ os, o.kind ≠ .eof := by
  induction h with
  | nil => nofun
  | @cons gap k ks o os hk hg h ih =>
    obtain ⟨hfirst, hothers⟩ := Bool.and_eq_true_iff.1 hks
    simp only [TokenKind.isPlain, Bool.and_eq_true, bne_iff_ne] at hfirst
    exact List.forall_mem_cons.2 ⟨hk ▸ hfirst.1.1.1, ih hothers⟩

/-- Tokens between two operands. -/
theorem between (h : Joined gap ks os) (hks : ks ≠ [] ∧ ks.all TokenKind.isBetween) :
    ks.all TokenKind.isPlain ∧ os ≠ [] ∧ ∀ rest, startsOperand (kindOf (os ++ rest)) = false ∧
      (kindOf (os ++ rest)).continues = false := by
  have hall {k : TokenKind} (hk : k ∈ ks) :
      (k.isPlain ∧ startsOperand k = false) ∧ k.continues = false := by
    simpa [TokenKind.isBetween] using List.all_eq_true.1 hks.2 k hk
  refine ⟨List.all_eq_true.2 fun k hk => (hall hk).1.1, ?_, fun rest => ?_⟩
  · rintro rfl
    cases h
    exact hks.1 rfl
  · have hfirst : kindOf (os ++ rest) ∈ ks := h.kindOf_append hks.1
    exact ⟨(hall hfirst).1.2, (hall hfirst).2⟩

end Joined

theorem BinaryOperator.between (o : BinaryOperator) :
    o.tokens ≠ [] ∧ o.tokens.all TokenKind.isBetween := by
  cases o <;> decide

theorem AssignmentOperator.between (o : AssignmentOperator) :
    o.tokens ≠ [] ∧ o.tokens.all TokenKind.isBetween := by
  cases o <;> decide

namespace Tokens

variable {gap : Text} {t : Tree} {us : List Token}

/-- There is no lambda expression and no cast in an operation, nor at its end. -/
theorem sober (h : Tokens gap t us) {rest : List Token} (hrest : Sober rest)
    (hstop : startsOperand (kindOf rest) = false) : Sober (us ++ rest) := by
  induction h generalizing rest with
  | identifier hu | literal hu => exact hu.sober (by decide) hrest
  | parentheses ho h hc ih =>
    obtain ⟨c, rfl, hk, -⟩ := hc.one_inv
    have hclose : Sober (c :: rest) := .cons (hk ▸ nofun) (hk ▸ rfl) (fun _ => hstop) hrest
    rw [List.append_assoc, List.append_assoc]
    exact ho.sober (by decide) (ih hclose (by rw [List.singleton_append, kindOf, hk]; rfl))
  | @binary _ _ _ _ _ o _ _ _ hleft ho hright ihleft ihright =>
    obtain ⟨hplain, -, hop⟩ := ho.between o.between
    rw [List.append_assoc, List.append_assoc]
    exact ihleft (ho.sober hplain (ihright hrest hstop)) (hop _).1
  | @before _ _ _ _ o _ _ _ ho h ih =>
    have hplain : o.token.isPlain := by cases o <;> decide
    rw [List.append_assoc]
    exact ho.sober (by simpa using hplain) (ih hrest hstop)
  | @behind _ _ _ _ o _ _ hpost h ho ih =>
    obtain ⟨u, rfl, hk, -⟩ := ho.one_inv
    have htoken : o.token.isPlain ∧ startsOperand o.token = false := by
      cases o <;> first | decide | cases hpost
    rw [List.append_assoc]
    refine ih (ho.sober (by simpa using htoken.1) hrest) ?_
    rw [List.singleton_append, kindOf, hk]
    exact htoken.2
  | ternary hcondition hq htrue hc hfalse ihcondition ihtrue ihfalse =>
    obtain ⟨hplain, -, hop⟩ := hc.between (by decide)
    obtain ⟨hplain', -, hop'⟩ := hq.between (by decide)
    have htail := hc.sober hplain (ihfalse hrest hstop)
    simp only [List.append_assoc]
    exact ihcondition (hq.sober hplain' (ihtrue htail (hop _).1)) (hop' _).1
  | assignment htarget ho hvalue ihtarget ihvalue =>
    obtain ⟨hplain, -, hop⟩ := ho.between (by decide)
    rw [List.append_assoc, List.append_assoc]
    exact ihtarget (ho.sober hplain (ihvalue hrest hstop)) (hop _).1
  | @assignmentOperation _ _ _ _ _ o _ _ _ htarget ho hvalue ihtarget ihvalue =>
    obtain ⟨hplain, -, hop⟩ := ho.between o.between
    rw [List.append_assoc, List.append_assoc]
    exact ihtarget (ho.sober hplain (ihvalue hrest hstop)) (hop _).1

/-- The first token of an operation is behind its gap. -/
theorem exists_cons (h : Tokens gap t us) : ∃ u vs, us = u :: vs ∧ u.gap = gap := by
  induction h with
  | identifier hu | literal hu =>
    obtain ⟨u, heq, -, hg⟩ := hu.one_inv
    exact ⟨u, [], heq, hg⟩
  | parentheses ho | before _ ho =>
    obtain ⟨o, rfl, -, hg⟩ := ho.one_inv
    exact ⟨o, _, rfl, hg⟩
  | binary _ _ _ ih | behind _ _ _ ih | ternary _ _ _ _ _ ih | assignment _ _ _ ih
  | assignmentOperation _ _ _ ih =>
    obtain ⟨u, vs, rfl, hg⟩ := ih
    exact ⟨u, _, rfl, hg⟩

theorem gapOf_append (h : Tokens gap t us) (rest : List Token) : gapOf (us ++ rest) = gap := by
  obtain ⟨u, vs, rfl, hg⟩ := h.exists_cons
  exact hg

end Tokens

/-! ### Operators ahead -/

namespace Lookahead

theorem isJoined_zero {ts : List Token} (h : gapOf ts ≠ []) (k : TokenKind) :
    isJoined ts 0 k = false := by
  cases ts with
  | nil => rfl
  | cons u ts =>
    have hgap : u.gap.isEmpty = false := List.isEmpty_eq_false_iff.2 h
    exact (congrArg (u.kind == k && ·) hgap).trans (Bool.and_false _)

theorem isJoined_cons_zero (u : Token) (ts : List Token) (k : TokenKind) :
    isJoined (u :: ts) 0 k = (u.kind == k && u.gap.isEmpty) := rfl

theorem isJoined_cons_succ (u : Token) (ts : List Token) (n : Nat) (k : TokenKind) :
    isJoined (u :: ts) (n + 1) k = isJoined ts n k := rfl

end Lookahead

namespace Grammar

variable {gap : Text} {os rest : List Token}

theorem binaryAhead_of_joined {o : BinaryOperator} (h : Joined gap o.tokens os)
    (hrest : gapOf rest ≠ []) : binaryAhead (os ++ rest) = some (o, os.length) := by
  have hjoined := isJoined_zero hrest
  cases o with
  | greaterThanOrEqual | rightShift =>
    obtain ⟨o₁, _, rfl, hk₁, -, h⟩ := h.cons_inv
    obtain ⟨o₂, rfl, hk₂, hg₂⟩ := h.one_inv
    simp_all [binaryAhead, greaterAhead, kindOf, isJoined_cons_succ, isJoined_cons_zero]
  | unsignedRightShift =>
    obtain ⟨o₁, _, rfl, hk₁, -, h⟩ := h.cons_inv
    obtain ⟨o₂, _, rfl, hk₂, hg₂, h⟩ := h.cons_inv
    obtain ⟨o₃, rfl, hk₃, hg₃⟩ := h.one_inv
    simp_all [binaryAhead, greaterAhead, kindOf, isJoined_cons_succ, isJoined_cons_zero]
  | _ =>
    obtain ⟨o, rfl, hk, -⟩ := h.one_inv
    simp [binaryAhead, greaterAhead, kindOf, isJoined_cons_succ, hjoined, hk]

theorem assignmentAhead_of_joined {o : AssignmentOperator} (h : Joined gap o.tokens os)
    (rest : List Token) : binaryAhead (os ++ rest) = none ∧
      assignmentAhead (os ++ rest) = some (some o, os.length) := by
  cases o with
  | rightShift =>
    obtain ⟨o₁, _, rfl, hk₁, -, h⟩ := h.cons_inv
    obtain ⟨o₂, _, rfl, hk₂, hg₂, h⟩ := h.cons_inv
    obtain ⟨o₃, rfl, hk₃, hg₃⟩ := h.one_inv
    simp_all [binaryAhead, greaterAhead, assignmentAhead, kindOf, isJoined_cons_succ,
      isJoined_cons_zero]
  | unsignedRightShift =>
    obtain ⟨o₁, _, rfl, hk₁, -, h⟩ := h.cons_inv
    obtain ⟨o₂, _, rfl, hk₂, hg₂, h⟩ := h.cons_inv
    obtain ⟨o₃, _, rfl, hk₃, hg₃, h⟩ := h.cons_inv
    obtain ⟨o₄, rfl, hk₄, hg₄⟩ := h.one_inv
    simp_all [binaryAhead, greaterAhead, assignmentAhead, kindOf, isJoined_cons_succ,
      isJoined_cons_zero]
  | _ =>
    obtain ⟨o, rfl, hk, -⟩ := h.one_inv
    simp [binaryAhead, assignmentAhead, kindOf, hk]

end Grammar

end JavaSource
