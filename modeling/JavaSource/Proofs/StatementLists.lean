import JavaSource.Proofs.LexedLines
import JavaSource.Proofs.Persisted

/-!
# Lists of statements

The statements of a block are read as each of them is read alone (`statements_of_parse`): its tokens come
out of the text of the block too, nothing that can follow a statement there continues it, and no
production looks past its end.
-/

namespace JavaSource

/-! ### What no statement starts with -/

/-- No statement starts with a token of this kind. -/
def TokenKind.stops : TokenKind → Bool
  | .elseWord | .catchWord | .finallyWord | .closeBrace | .eof => true
  | _ => false

theorem TokenKind.eq_of_stops {k : TokenKind} (h : k.stops) :
    k = .elseWord ∨ k = .catchWord ∨ k = .finallyWord ∨ k = .closeBrace ∨ k = .eof := by
  cases k <;> simp_all [stops]

namespace Grammar

open JavaSource.Parser Lookahead

variable {g : Productions} {i : Input} (h : (kindOf i.tokens).stops)

include h

theorem primary_stops : (primary g).Ensures i fun _ _ => False := by
  refine ensures_bind.2 (ensures_peek.2 (ensures_bind.2 (ensures_text.2 ?_)))
  rcases TokenKind.eq_of_stops h with h | h | h | h | h <;> rw [h] <;> exact ensures_fail

theorem expression_stops : (expression g).Ensures i fun _ _ => False := by
  have hunary : (unaryExpression g).Ensures i fun _ _ => False := by
    refine ensures_bind.2 (ensures_peek.2 ?_)
    have hcast : isCast i.tokens = false := by
      rw [isCast]
      rcases TokenKind.eq_of_stops h with h | h | h | h | h <;> rw [h] <;> rfl
    have hpostfix : (tokens >>= fun ts => if isCast ts then cast g else postfixExpression g).Ensures i
        fun _ _ => False := by
      refine ensures_bind.2 (ensures_tokens.2 ?_)
      rw [hcast]
      exact postfixExpression_fails (primary_stops h)
    rcases TokenKind.eq_of_stops h with h | h | h | h | h <;> rw [h] <;> exact hpostfix
  have hlambda : isLambda i.tokens = false := by
    rw [isLambda]
    rcases TokenKind.eq_of_stops h with h | h | h | h | h <;> rw [h]
  refine ensures_bind.2 (ensures_tokens.2 ?_)
  rw [hlambda]
  exact ensures_bind.2 ((ternaryExpression_fails hunary).mono fun _ _ => False.elim)

theorem statement_stops (hg : g.expression.Ensures i fun _ _ => False) :
    (statement g).Ensures i fun _ _ => False := by
  have hlocal : isLocalVariable i.tokens = false := by
    rw [isLocalVariable, type?]
    rcases TokenKind.eq_of_stops h with h | h | h | h | h <;> rw [h] <;> rfl
  have hlast : (peekNext >>= fun n => if false && n == .colon then labeled g
      else tokens >>= fun ts => if isLocalVariable ts then member g else expressionStatement g).Ensures i
        fun _ _ => False := by
    refine ensures_bind.2 (ensures_peekNext.2 (ensures_bind.2 (ensures_tokens.2 ?_)))
    rw [hlocal]
    exact ensures_bind.2 (ensures_tokens.2 (ensures_bind.2 (hg.mono fun _ _ => False.elim)))
  refine ensures_bind.2 (ensures_peek.2 ?_)
  rcases TokenKind.eq_of_stops h with h | h | h | h | h <;> rw [h] <;> exact hlast

end Grammar

theorem grammar_statement_stops {n : Nat} {i : Input} (h : (kindOf i.tokens).stops) :
    (grammar n).statement.Ensures i fun _ _ => False := by
  cases n with
  | zero => exact Parser.ensures_throw
  | succ n =>
    refine Grammar.statement_stops h ?_
    cases n with
    | zero => exact Parser.ensures_throw
    | succ n => exact Grammar.expression_stops h

/-! ### The tokens of a statement -/

namespace Recut

variable {ts ts' : List Token}

theorem length_eq (h : Recut ts ts') : ts.length = ts'.length + 1 := by
  induction h with
  | nil => rfl
  | cons _ _ _ _ _ ih => rw [List.length_cons, List.length_cons, ih]

theorem kindOf_eq (h : Recut ts ts') (hk : kindOf ts ≠ .eof) (rest : List Token) :
    kindOf (ts' ++ rest) = kindOf ts := by
  cases h with
  | nil he => exact absurd he hk
  | cons hkind => exact hkind

/-- If the last token that is read is one that statements end with, those of the longer text go on
behind it. -/
theorem ahead (h : Recut ts ts') {q : Sequel} {us rest : List Token} (hts : ts = us ++ rest)
    (hrest : kindOf rest = .eof) (heof : ∀ u ∈ us, u.kind ≠ .eof) (hne : us ≠ [])
    (hcloses : ∀ u ∈ us.getLast?, u.kind.closes) :
    q.Ahead ts (ts' ++ q.tokens) := by
  induction h generalizing us with
  | nil he =>
    cases us with
    | nil => exact absurd rfl hne
    | cons u us =>
      obtain ⟨rfl, -⟩ := List.cons.inj hts
      exact absurd he (heof _ (.head _))
  | @cons t t' ts ts' hkind htext hk hgap h ih =>
    cases us with
    | nil => exact absurd rfl hne
    | cons u us =>
      obtain ⟨rfl, htail⟩ := List.cons.inj hts
      clear hts
      change ts = us ++ rest at htail
      cases h with
      | nil he =>
        cases us with
        | nil => exact .last hkind htext (hcloses t rfl) he
        | cons v us =>
          obtain ⟨rfl, -⟩ := List.cons.inj htail
          exact absurd he (heof _ (.tail _ (.head _)))
      | @cons v v' vs vs' hkind' htext' hk' hgap' h =>
        cases us with
        | nil =>
          rw [List.nil_append] at htail
          rw [← htail] at hrest
          exact absurd hrest hk'
        | cons w us =>
          refine .next hkind htext hk (hgap v' rfl v rfl) ?_
          refine ih htail (fun w hw => heof w (.tail _ hw)) nofun fun w hw => hcloses w ?_
          rwa [List.getLast?_cons_cons]

end Recut

namespace Grammar

open JavaSource.Parser

/-- These tokens are those of a text that holds this statement and nothing else. -/
def Holds (ts : List Token) (t : Tree) : Prop :=
  ∃ x j, (terminated (grammar (ts.length + 2))).run ⟨ts, false, 0⟩ = .ok (x, j) ∧ x.element = t ∧
    kindOf j.tokens = .eof

theorem ensures_terminate (t : Tree) (i : Input) :
    (terminate t).Ensures i fun x _ => x.element = t := by
  unfold terminate
  split
  · exact ensures_bind.2 fun _ _ _ => ensures_pure.2 rfl
  · exact ensures_pure.2 rfl

theorem holds_of_run {ts : List Token} {t : Tree} {j : Input}
    (h : (SourceKind.statement.parser (grammar (ts.length + 1))).run ⟨ts, false, 0⟩ = .ok (t, j)) :
    Holds ts t := by
  have hensures : (SourceKind.statement.parser (grammar (ts.length + 1))).Ensures ⟨ts, false, 0⟩
      fun t _ => Holds ts t := by
    refine ensures_bind.2 (ensures_run.mono fun t j hstatement => ?_)
    refine ensures_bind.2 ((ensures_run.and (ensures_terminate t j)).mono fun x k ⟨hsemicolon, hx⟩ => ?_)
    have hrun : (terminated (grammar (ts.length + 2))).run ⟨ts, false, 0⟩ = .ok (x, k) := by
      rw [terminated, StateT.run_bind]
      change ((statement (grammar (ts.length + 1))).run ⟨ts, false, 0⟩ >>= _) = _
      rw [hstatement]
      exact hsemicolon
    refine ensures_bind.2 (ensures_bind.2 (ensures_at?.2 ?_))
    split
    · exact ensures_fail
    · next hend => exact ensures_pure.2 (ensures_pure.2 ⟨x, k, hrun, hx, by simpa using hend⟩)
  exact hensures t j h

/-- A statement in a longer text, behind as many identities as the sequel says. -/
theorem run_terminated {q : Sequel} {ts ts' : List Token} {t : Tree} {i' : Input} {n : Nat}
    (hread : Holds ts t) (hcut : Recut ts ts') (htokens : i'.tokens = ts' ++ q.tokens)
    (hid : i'.nextId = q.shift) (hn : ts.length + 2 ≤ n) :
    ∃ x j', (terminated (grammar n)).run i' = .ok (x, j') ∧ j'.tokens = q.tokens ∧
      x.element.Same t := by
  obtain ⟨x, j, hrun, rfl, hj⟩ := hread
  -- where the longer text has another space in front is said by that space itself
  obtain ⟨⟨us, hus, heof, hlast⟩, hagree⟩ := persists_terminated (persist_grammar q hn) (E := True)
    (s := some i'.space) ⟨ts, false, 0⟩ i' x j hrun
  obtain ⟨hne, hcloses⟩ := hlast trivial
  have hahead : q.Ahead ts i'.tokens := htokens ▸ hcut.ahead hus hj heof hne hcloses
  have hi : q.Agree (some i'.space) ⟨ts, false, 0⟩ i' :=
    ⟨hid.trans (Nat.zero_add _).symm, .inl ⟨hahead, rfl⟩⟩
  obtain ⟨j', hrun', hj'⟩ := hagree hi fun _ => trivial
  refine ⟨_, j', hrun', ?_, Tree.same_moved x.element⟩
  rcases hj'.tokens with ⟨hahead', -⟩ | ⟨-, hj'⟩
  · exact absurd hj hahead'.kindOf_ne_eof
  · exact hj'

/-- The next statement of a block with its semicolon, if there is one. -/
def nextStatement (g : Productions) : Parser (Option (Followed Tree)) := do
  if (← at? .closeBrace) || (← at? .eof) then return none
  else return some (← terminated g)

theorem itemsUntilBrace_eq (g : Productions) :
    itemsUntilBrace g.statement = collecting (nextStatement g) := by
  unfold itemsUntilBrace nextStatement terminated
  simp only [bind_assoc]

theorem run_nextStatement {g : Productions} {i : Input} :
    (nextStatement g).run i =
      if kindOf i.tokens == .closeBrace || kindOf i.tokens == .eof then .ok (none, i)
      else ((terminated g).run i).map fun (x, j) => (some x, j) := by
  have hrun : (nextStatement g).run i =
      (if kindOf i.tokens == .closeBrace || kindOf i.tokens == .eof then pure none
        else terminated g >>= fun x => pure (some x) : Parser (Option (Followed Tree))).run i := rfl
  rw [hrun]
  split
  · rfl
  · rw [StateT.run_bind]
    cases (terminated g).run i <;> rfl

theorem Holds.stops_eq_false {ts : List Token} {t : Tree} (h : Holds ts t) :
    (kindOf ts).stops = false := by
  obtain ⟨x, j, hrun, -, -⟩ := h
  by_contra hstops
  have hfails : (terminated (grammar (ts.length + 2))).Ensures ⟨ts, false, 0⟩ fun _ _ => False :=
    ensures_bind.2 ((grammar_statement_stops (Bool.not_eq_false _ ▸ hstops)).mono fun _ _ => False.elim)
  exact hfails x j hrun

theorem stops_of_holds {ts ts' : List Token} {t : Tree} (h : Holds ts t) (hcut : Recut ts ts')
    (rest : List Token) : (kindOf (ts' ++ rest)).stops = false := by
  have hstops := h.stops_eq_false
  rw [hcut.kindOf_eq ?_ rest]
  · exact hstops
  · rintro heof
    rw [heof] at hstops
    cases hstops

/-- What follows a statement of the list does not continue it. -/
theorem apart_of_holds {tss tss' : List (List Token)} {ts : List Tree} {rest : List Token}
    (hread : List.Forall₂ Holds tss ts) (hcut : List.Forall₂ Recut tss tss')
    (hrest : kindOf rest = .closeBrace) :
    tss'.flatten ++ rest ≠ [] ∧ kindOf (tss'.flatten ++ rest) ≠ .elseWord ∧
      kindOf (tss'.flatten ++ rest) ≠ .catchWord ∧ kindOf (tss'.flatten ++ rest) ≠ .finallyWord := by
  have hkind : kindOf (tss'.flatten ++ rest) = .closeBrace ∨
      (kindOf (tss'.flatten ++ rest)).stops = false := by
    cases hread with
    | nil =>
      cases hcut
      exact .inl hrest
    | cons hread =>
      cases hcut with
      | cons hcut =>
        rw [List.flatten_cons, List.append_assoc]
        exact .inr (stops_of_holds hread hcut _)
  refine ⟨?_, ?_, ?_, ?_⟩
  · intro hnil
    rw [hnil] at hkind
    rcases hkind with h | h <;> cases h
  all_goals
    intro h
    rw [h] at hkind
    rcases hkind with h | h <;> cases h

theorem run_collectWithin {tss tss' : List (List Token)} {ts : List Tree} {rest : List Token} {n : Nat}
    (hread : List.Forall₂ Holds tss ts) (hcut : List.Forall₂ Recut tss tss')
    (hrest : kindOf rest = .closeBrace) (hn : ∀ us ∈ tss, us.length + 2 ≤ n) {i : Input}
    (hi : i.tokens = tss'.flatten ++ rest) {budget : Nat} (hbudget : ts.length < budget) :
    ∃ xs j, (collectWithin (nextStatement (grammar n)) budget).run i = .ok (xs, j) ∧
      j.tokens = rest ∧ List.Forall₂ (fun x t => x.element.Same t) xs ts := by
  induction hread generalizing tss' i budget with
  | nil =>
    cases hcut
    obtain ⟨budget, rfl⟩ := Nat.exists_eq_succ_of_ne_zero (n := budget) (by omega)
    refine ⟨[], i, ?_, hi, .nil⟩
    rw [collectWithin, StateT.run_bind, run_nextStatement, hi, List.flatten_nil, List.nil_append, hrest]
    rfl
  | @cons us t tss ts hread hreads ih =>
    cases hcut with
    | @cons _ us' _ tss' hcut hcuts =>
      obtain ⟨budget, rfl⟩ := Nat.exists_eq_succ_of_ne_zero (n := budget) (by omega)
      rw [List.flatten_cons, List.append_assoc] at hi
      -- what is left of the list, up to the brace, is what follows this statement
      obtain ⟨hne, hapart⟩ := apart_of_holds hreads hcuts hrest
      obtain ⟨x, j, hrun, hj, hx⟩ := run_terminated (q := ⟨tss'.flatten ++ rest, i.nextId, hne, hapart⟩)
        hread hcut hi rfl (hn us (.head _))
      obtain ⟨xs, k, hruns, hk, hxs⟩ := ih hcuts (fun vs hvs => hn vs (.tail _ hvs)) hj
        (Nat.lt_of_succ_lt_succ hbudget)
      refine ⟨x :: xs, k, ?_, hk, .cons hx hxs⟩
      have hmore : (kindOf i.tokens == .closeBrace || kindOf i.tokens == .eof) = false := by
        have hstops := stops_of_holds hread hcut (tss'.flatten ++ rest)
        rw [← hi] at hstops
        rw [Bool.or_eq_false_iff, beq_eq_false_iff_ne, beq_eq_false_iff_ne]
        constructor
        · intro hend
          rw [hend] at hstops
          cases hstops
        · intro hend
          rw [hend] at hstops
          cases hstops
      rw [collectWithin, StateT.run_bind, run_nextStatement, hmore, hrun]
      change ((collectWithin (nextStatement (grammar n)) budget).run j >>= _) = _
      rw [hruns]
      rfl

theorem length_le_of_holds {tss tss' : List (List Token)} {ts : List Tree}
    (hread : List.Forall₂ Holds tss ts) (hcut : List.Forall₂ Recut tss tss') :
    ts.length ≤ tss'.flatten.length ∧ ∀ us ∈ tss, us.length ≤ tss'.flatten.length + 1 := by
  induction hread generalizing tss' with
  | nil => exact ⟨Nat.zero_le _, nofun⟩
  | cons hread _ ih =>
    cases hcut with
    | @cons _ us' _ tss' hcut hcuts =>
      obtain ⟨hle, hmem⟩ := ih hcuts
      have hlength := hcut.length_eq
      have hpos : 0 < us'.length := by
        refine List.length_pos_iff.2 fun hnil => ?_
        have hstops := stops_of_holds hread hcut []
        rw [hnil] at hstops
        cases hstops
      rw [List.flatten_cons, List.length_append, List.length_cons]
      refine ⟨by omega, fun vs hvs => ?_⟩
      rcases List.mem_cons.1 hvs with rfl | hvs
      · omega
      · have := hmem vs hvs
        omega

/-- Statements between braces are a block of these statements. -/
theorem run_block {tss tss' : List (List Token)} {ts : List Tree} {o c e : Token} {n : Nat} {i : Input}
    (hread : List.Forall₂ Holds tss ts) (hcut : List.Forall₂ Recut tss tss')
    (hi : i.tokens = o :: (tss'.flatten ++ [c, e])) (ho : o.kind = .openBrace)
    (hc : c.kind = .closeBrace) (hn : i.tokens.length ≤ n) :
    ∃ id leading xs beforeClose j,
      (block (grammar n)).run i = .ok (.node id leading (.block none xs beforeClose), j) ∧
        j.tokens = [e] ∧ List.Forall₂ (fun x t => x.element.Same t) xs ts := by
  obtain ⟨hbudget, hlevels⟩ := length_le_of_holds hread hcut
  rw [hi, List.length_cons, List.length_append] at hn
  have hrounds : ts.length < (tss'.flatten ++ [c, e]).length + 1 := by
    rw [List.length_append]
    omega
  have hrest : kindOf [c, e] = .closeBrace := hc
  obtain ⟨xs, j, hxs, hj, hsame⟩ := run_collectWithin hread hcut hrest
    (fun us hus => Nat.le_trans (Nat.add_le_add_right (hlevels us hus) 2) hn)
    (i := ⟨tss'.flatten ++ [c, e], false, i.nextId⟩) rfl hrounds
  refine ⟨j.nextId, i.space, xs, j.space, ⟨[e], false, j.nextId + 1⟩, ?_, rfl, hsame⟩
  have hopen := run_expect (i := { i with gapTaken := true }) hi ho nofun
  rw [block, run_bind_ok (run_takeSpace i), blockBody, run_bind_ok hopen, itemsUntilBrace_eq]
  have hcollecting : (collecting (nextStatement (grammar n))).run
      ⟨tss'.flatten ++ [c, e], false, i.nextId⟩ = .ok (xs, j) := hxs
  rw [run_bind_ok hcollecting, run_bind_ok (run_expect hj hc nofun)]
  rfl

end Grammar

theorem holds_of_parse {s : Text} {t : Tree} (h : parse .statement s = .ok t) :
    ∃ ts, lex s = .ok ts ∧ Grammar.Holds ts t := by
  cases hparse : parseFrom .statement s 0 with
  | error e => rw [parse, hparse] at h; cases h
  | ok r =>
    rw [parse, hparse] at h
    cases h
    obtain ⟨t, n⟩ := r
    obtain ⟨ts, j, hts, -, hrun⟩ := exists_run_of_parseFrom hparse
    exact ⟨ts, hts, Grammar.holds_of_run hrun⟩

theorem exists_holds {ss : List Text} {ts : List Tree}
    (h : List.Forall₂ (fun s t => parse .statement s = .ok t) ss ts) :
    ∃ tss, List.Forall₂ (fun s us => lex s = .ok us) ss tss ∧
      List.Forall₂ Grammar.Holds tss ts := by
  induction h with
  | nil => exact ⟨[], .nil, .nil⟩
  | @cons s t ss ts hs h ih =>
    obtain ⟨tss, hlexed, hread⟩ := ih
    obtain ⟨us, hus, hholds⟩ := holds_of_parse hs
    exact ⟨us :: tss, .cons hus hlexed, .cons hholds hread⟩

/-- A block that nothing follows is a statement. -/
theorem parse_of_run_block {source : Text} {ts : List Token} {id : NodeId} {leading beforeClose : Space}
    {xs : List (Followed Tree)} {j : Input} (hlex : lex source = .ok ts)
    (hk : kindOf ts = .openBrace)
    (hrun : (Grammar.block (grammar (ts.length + 1))).run ⟨ts, false, 0⟩ =
      .ok (.node id leading (.block none xs beforeClose), j))
    (hj : kindOf j.tokens = .eof) :
    parse .statement source = .ok (.node id leading (.block none xs beforeClose)) := by
  have hstatement : (Grammar.statement (grammar (ts.length + 1))).run ⟨ts, false, 0⟩ =
      .ok (.node id leading (.block none xs beforeClose), j) := by
    have hpeek : Parser.peek.run ⟨ts, false, 0⟩ = .ok (.openBrace, ⟨ts, false, 0⟩) :=
      congrArg (fun k => Except.ok (k, _)) hk
    rw [Grammar.statement, Parser.run_bind_ok hpeek]
    exact hrun
  have hend : endOfInput.run j = .ok ((), j) := by
    have hat : (Parser.at? .eof).run j = .ok (true, j) := by
      change Except.ok (kindOf j.tokens == .eof, j) = _
      rw [hj]
      rfl
    rw [endOfInput, Parser.run_bind_ok hat]
    rfl
  have hparser : (SourceKind.statement.parser (grammar (ts.length + 1))).run ⟨ts, false, 0⟩ =
      .ok (.node id leading (.block none xs beforeClose), j) := by
    rw [SourceKind.parser, Parser.run_bind_ok hstatement]
    have hbare : (Grammar.terminate (.node id leading (.block none xs beforeClose))).run j =
        .ok (.bare (.node id leading (.block none xs beforeClose)), j) := rfl
    rw [Parser.run_bind_ok hbare, Parser.run_bind_ok hend]
    rfl
  have htokens : parseTokens .statement ts 0 =
      .ok (.node id leading (.block none xs beforeClose), j.nextId) := by
    rw [parseTokens, hparser]
    rfl
  have hparse : parseFrom .statement source 0 =
      .ok (.node id leading (.block none xs beforeClose), j.nextId) := by
    rw [parseFrom, hlex]
    exact htokens
  rw [parse, hparse]
  rfl

theorem lexFrom_singleton {c : Char} {k : TokenKind} (h : Lexeme.longest [c] = some (.token k, 1))
    (offset : Nat) (gap : Text) :
    lexFrom offset gap [c] =
      .ok [⟨k, gap, [c], offset⟩, ⟨.eof, [], [], offset + Text.byteLength [c]⟩] := by
  rw [lexFrom_token h, List.drop_nil, lexFrom.eq_def]
  rfl

/-- **Statement lists parse compositionally.** Statements that are in lines between braces are a block of
as many statements: each of them is read there as it is read alone, but for identities and for the
space in front of it. -/
theorem parse_statements {ss : List Text} {ts : List Tree}
    (h : List.Forall₂ (fun s t => parse .statement s = .ok t) ss ts) :
    ∃ b xs beforeClose,
      parse .statement ('{' :: '\n' :: ss.flatMap (· ++ ['\n']) ++ ['}']) = .ok b ∧
        b.shape = .block none xs beforeClose ∧ List.Forall₂ (fun x t => x.element.Same t) xs ts := by
  obtain ⟨tss, hlexed, hread⟩ := exists_holds h
  have hopen : lex ['{'] = .ok [⟨.openBrace, [], ['{'], 0⟩, ⟨.eof, [], [], 1⟩] :=
    lexFrom_singleton (by decide +kernel) 0 []
  obtain ⟨tss', offset, gap, hcut, hlex⟩ := lexFrom_lines (.cons hopen hlexed) 0 [] ['}']
  rw [lexFrom_singleton (by decide +kernel : Lexeme.longest ['}'] = some (.token .closeBrace, 1))] at hlex
  cases hcut with
  | @cons _ os _ tss' hbrace hcut =>
    cases hbrace with
    | @cons _ o _ os ho _ _ _ hnil =>
      cases hnil with
      | cons _ _ hk => exact absurd rfl hk
      | nil =>
        obtain ⟨id, leading, xs, beforeClose, j, hrun, hj, hsame⟩ := Grammar.run_block
          (c := ⟨.closeBrace, gap, ['}'], offset⟩) (e := ⟨.eof, [], [], offset + Text.byteLength ['}']⟩)
          (i := ⟨o :: (tss'.flatten ++ [_, _]), false, 0⟩) hread hcut rfl ho rfl (Nat.le_succ _)
        exact ⟨_, xs, beforeClose, parse_of_run_block hlex ho hrun (hj ▸ rfl), rfl, hsame⟩

/-- A choice that no other statement continues, in front of a comment, and a loop. -/
theorem parse_statements_choice :
    ∃ t u b xs beforeClose, parse .statement "if (a) b(); // if not, nothing".toList = .ok t ∧
      parse .statement "for (int i = 0; i < n; i++) c(i);".toList = .ok u ∧
      parse .statement ('{' :: '\n' :: ["if (a) b(); // if not, nothing".toList,
        "for (int i = 0; i < n; i++) c(i);".toList].flatMap (· ++ ['\n']) ++ ['}']) = .ok b ∧
      b.shape = .block none xs beforeClose ∧ List.Forall₂ (fun x t => x.element.Same t) xs [t, u] := by
  have hchoice : (parse .statement "if (a) b(); // if not, nothing".toList).toOption.isSome := by
    decide +kernel
  have hloop : (parse .statement "for (int i = 0; i < n; i++) c(i);".toList).toOption.isSome := by
    decide +kernel
  cases ht : parse .statement "if (a) b(); // if not, nothing".toList with
  | error e => rw [ht] at hchoice; cases hchoice
  | ok t =>
    cases hu : parse .statement "for (int i = 0; i < n; i++) c(i);".toList with
    | error e => rw [hu] at hloop; cases hloop
    | ok u =>
      obtain ⟨b, xs, beforeClose, hb, hshape, hsame⟩ := parse_statements (.cons ht (.cons hu .nil))
      exact ⟨t, u, b, xs, beforeClose, rfl, rfl, hb, hshape, hsame⟩

end JavaSource
