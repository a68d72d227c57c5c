import JavaSource.Proofs.Halting
import JavaSource.Proofs.Partition

/-!
# Tokens in front of something else

What is printed behind a token can become a part of it.  `goesOn v c` says that a word `v`, with the
character `c` behind it, is read on; where it is not, the word stays the longest match
(`longest_word`).  A match at a symbol may go on over several of them (`longest_symbol`), but never
into a word.
-/

namespace JavaSource

namespace Lexeme

/-- No rule goes past `v` when something is behind it, so the longest match is the same. -/
theorem longest_append {v t : Text} (h : ∀ rule ∈ rules, rule.2 (v ++ t) ≤ v.length) :
    longest (v ++ t) = longest v := by
  cases hl : longest (v ++ t) with
  | some r =>
    obtain ⟨len, hm, hlen⟩ := mem_rules_of_longest hl
    exact (longest_of_append hl (hlen ▸ h _ hm)).symm
  | none =>
    have hzero := longest_eq_none_iff.1 hl
    refine (longest_eq_none_iff.2 fun rule hrule => ?_).symm
    rcases stable_of_mem hrule with rfl | hstable
    · by_contra hne
      rcases unclosedCommentLength_append hne t with hv | hv
      · exact hv (hzero _ hrule)
      · have hblock : blockCommentLength (v ++ t) = 0 :=
          hzero (.blockComment, blockCommentLength) (by simp [rules])
        rw [hblock] at hv
        exact absurd hv (Nat.not_lt_zero _)
    · rw [hstable v t (h rule hrule), hzero rule hrule]

/-! ### The rules at a word -/

/-- The rules of a token: keywords and symbols have their text, and each class of literals and the
identifiers have a rule of their own. -/
theorem token_rule_cases {k : TokenKind} {len : Text → Nat} (h : (token k, len) ∈ rules) :
    (∃ w, k ∈ TokenKind.keywords ++ TokenKind.symbols ∧ k.text? = some w ∧ len = wordLength w) ∨
      (k = .intLiteral ∧ len = intLength) ∨ (k = .floatLiteral ∧ len = floatLength) ∨
      (k = .stringLiteral ∧ len = stringLength) ∨ (k = .charLiteral ∧ len = charLength) ∨
      (k = .identifier ∧ len = identifierLength) := by
  simp only [rules, List.mem_append, List.mem_cons, List.not_mem_nil, or_false,
    List.mem_filterMap, Prod.mk.injEq, reduceCtorEq, false_and, false_or, token.injEq] at h
  rcases h with ⟨k', hk', hrule⟩ | h
  · obtain ⟨w, hw, heq⟩ := Option.map_eq_some_iff.1 hrule
    cases heq
    exact .inl ⟨w, List.mem_append.2 hk', hw, rfl⟩
  · exact .inr h

/-- What no keyword or symbol is: it starts as a name and goes on otherwise, or it starts as a
number, or in quotes. -/
theorem keyword_or_symbol : ∀ k ∈ TokenKind.keywords ++ TokenKind.symbols, ∀ w ∈ k.text?,
    (w.head?.any isIdentifierStart && w.all isIdentifierPart) ||
      w.head?.any fun c => !isIdentifierPart c && c != '"' && c != '\'' := by
  decide

theorem wordLength_append {k : TokenKind} (hk : k ∈ TokenKind.keywords ++ TokenKind.symbols)
    {w : Text} (hw : k.text? = some w) {c : Char} (hc : isIdentifierPart c) {v t : Text}
    (ht : ∀ c ∈ t.head?, isIdentifierPart c = false) :
    wordLength w (c :: v ++ t) ≤ (c :: v).length := by
  unfold wordLength
  split
  · next hprefix =>
    have hprefix := List.isPrefixOf_iff_prefix.1 hprefix
    rcases Bool.or_eq_true_iff.1 (keyword_or_symbol k hk w hw) with hname | hsymbol
    · -- a longer word would go on with a letter
      by_contra hlt
      obtain ⟨s, rfl⟩ := List.prefix_of_prefix_length_le (List.prefix_append (c :: v) t) hprefix
        (Nat.le_of_lt (Nat.lt_of_not_le hlt))
      cases s with
      | nil => exact hlt (by rw [List.append_nil])
      | cons d s =>
        obtain ⟨rest, rfl⟩ := (List.prefix_append_right_inj (c :: v)).1 hprefix
        have hpart := List.all_eq_true.1 (Bool.and_eq_true_iff.1 hname).2 d (by simp)
        rw [ht d rfl] at hpart
        cases hpart
    · cases w with
      | nil => cases hsymbol
      | cons d w =>
        obtain ⟨rfl, -⟩ := List.cons_prefix_cons.1 hprefix
        simp [hc] at hsymbol
  · exact Nat.zero_le _

theorem isIdentifierStart_eq_false {c : Char} (h : c.isDigit) : isIdentifierStart c = false := by
  have halpha : c.isAlpha = false := by
    simp only [Char.isDigit, Bool.and_eq_true, decide_eq_true_eq] at h
    rw [← Bool.not_eq_true, isAlpha_iff]
    have hdigit : c ≤ '9' := h.2
    rintro (⟨ha, -⟩ | ⟨ha, -⟩) <;> exact absurd (Char.le_trans ha hdigit) (by decide)
  simp only [isIdentifierStart, halpha, Bool.false_or, Bool.or_eq_false_iff, beq_eq_false_iff_ne]
  constructor <;> rintro rfl <;> exact absurd h (by decide)

/-- Of the rules for blanks, comments and what is in quotes, none matches at a character of names
and numbers. -/
theorem eq_zero_of_isIdentifierPart {c : Char} (hc : isIdentifierPart c) (s : Text) :
    runLength isBlankChar (c :: s) = 0 ∧ lineCommentLength (c :: s) = 0 ∧
      blockCommentLength (c :: s) = 0 ∧ unclosedCommentLength (c :: s) = 0 ∧
      stringLength (c :: s) = 0 ∧ charLength (c :: s) = 0 := by
  have hne {d : Char} (hd : isIdentifierPart d = false) : c ≠ d := by
    rintro rfl
    rw [hc] at hd
    cases hd
  have hblank : isBlankChar c = false := by
    rw [← Bool.not_eq_true]
    intro h
    rcases eq_of_isBlankChar h with rfl | rfl | rfl | rfl | rfl <;> exact hne (by decide) rfl
  have hslash : c ≠ '/' := hne (by decide)
  have hquote : c ≠ '"' := hne (by decide)
  have happ : c ≠ '\'' := hne (by decide)
  refine ⟨?_, ?_, ?_, ?_, ?_, ?_⟩
  · rw [runLength, List.takeWhile_cons_of_neg (by simp [hblank])]
    rfl
  · simp [lineCommentLength, hslash]
  · simp [blockCommentLength, hslash]
  · simp [unclosedCommentLength, hslash]
  · simp [stringLength, hquote]
  · simp [charLength, happ]

/-- The matches of all rules are no longer than `n`, if those of each are. -/
theorem forall_rules {s : Text} {n : Nat}
    (htrivia : runLength isBlankChar s ≤ n ∧ lineCommentLength s ≤ n ∧ blockCommentLength s ≤ n ∧
      unclosedCommentLength s ≤ n)
    (hword : ∀ k ∈ TokenKind.keywords ++ TokenKind.symbols, ∀ w, k.text? = some w →
      wordLength w s ≤ n)
    (hnumber : intLength s ≤ n ∧ floatLength s ≤ n)
    (hquoted : stringLength s ≤ n ∧ charLength s ≤ n) (hname : identifierLength s ≤ n) :
    ∀ rule ∈ rules, rule.2 s ≤ n := by
  rintro ⟨l, len⟩ hrule
  cases l with
  | blanks => rw [show len = _ from rule_of_mem hrule]; exact htrivia.1
  | lineComment => rw [show len = _ from rule_of_mem hrule]; exact htrivia.2.1
  | blockComment => rw [show len = _ from rule_of_mem hrule]; exact htrivia.2.2.1
  | unclosedComment => rw [show len = _ from rule_of_mem hrule]; exact htrivia.2.2.2
  | token k =>
    rcases token_rule_cases hrule with
      ⟨w, hk, hw, rfl⟩ | ⟨-, rfl⟩ | ⟨-, rfl⟩ | ⟨-, rfl⟩ | ⟨-, rfl⟩ | ⟨-, rfl⟩
    · exact hword k hk w hw
    · exact hnumber.1
    · exact hnumber.2
    · exact hquoted.1
    · exact hquoted.2
    · exact hname

/-- Behind a name or a number, no rule but the one for floating-point literals goes on into what
does not start with a letter or a digit. -/
theorem le_of_isIdentifierPart {c : Char} (hc : isIdentifierPart c) {v t : Text}
    (ht : ∀ c ∈ t.head?, isIdentifierPart c = false)
    (hfloat : floatLength (c :: v ++ t) ≤ (c :: v).length) :
    ∀ rule ∈ rules, rule.2 (c :: v ++ t) ≤ (c :: v).length := by
  obtain ⟨hblank, hline, hblock, hunclosed, hstring, hchar⟩ :=
    eq_zero_of_isIdentifierPart hc (v ++ t)
  refine forall_rules ?_ (fun k hk w hw => wordLength_append hk hw hc ht)
    ⟨halts_intLength ht _, hfloat⟩ ?_ (halts_identifierLength ht _)
  · exact ⟨hblank ▸ Nat.zero_le _, hline ▸ Nat.zero_le _, hblock ▸ Nat.zero_le _,
      hunclosed ▸ Nat.zero_le _⟩
  · exact ⟨hstring ▸ Nat.zero_le _, hchar ▸ Nat.zero_le _⟩

theorem floatLength_of_isIdentifierStart {c : Char} (hc : isIdentifierStart c) (s : Text) :
    floatLength (c :: s) = 0 := by
  have hdigit : c.isDigit = false := by
    rw [← Bool.not_eq_true]
    intro h
    rw [isIdentifierStart_eq_false h] at hc
    cases hc
  have hdigits : digitsLength (c :: s) = 0 := by simp [digitsLength, hdigit]
  have hdot : c ≠ '.' := by rintro rfl; exact absurd hc (by decide)
  rw [floatLength_eq, hdigits, if_pos rfl]
  exact pointLength_cons hdot _

/-- What is behind the digits of an integer literal makes no floating-point literal of them. -/
theorem afterDigits_eq_zero {d : Char} (hd : d ∈ ['l', 'L', 'x', 'X', 'b', 'B']) (s : Text) :
    afterDigits (d :: s) = 0 := by
  simp only [List.mem_cons, List.not_mem_nil, or_false] at hd
  rcases hd with rfl | rfl | rfl | rfl | rfl | rfl <;>
    simp [afterDigits, floatTailLength, exponentLength, optionalChar]

theorem withBaseLength_cases {u : Text} (h : withBaseLength u ≠ 0) :
    ∃ d r, u = '0' :: d :: r ∧ d ∈ ['l', 'L', 'x', 'X', 'b', 'B'] := by
  unfold withBaseLength at h
  split at h
  · exact ⟨_, _, rfl, by decide⟩
  · exact ⟨_, _, rfl, by decide⟩
  · exact ⟨_, _, rfl, by decide⟩
  · exact ⟨_, _, rfl, by decide⟩
  · exact absurd rfl h

/-- An integer literal has digits, and behind them a suffix or what belongs to a base. -/
theorem drop_digitsLength {u : Text} (hne : u ≠ []) (hu : intLength u = u.length) :
    digitsLength u ≠ 0 ∧ (u.drop (digitsLength u) = [] ∨
      ∃ d r, u.drop (digitsLength u) = d :: r ∧ d ∈ ['l', 'L', 'x', 'X', 'b', 'B']) := by
  have hpos : u.length ≠ 0 := fun h => hne (List.eq_nil_of_length_eq_zero h)
  have hmax : intLength u = max (if digitsLength u = 0 then 0
      else digitsLength u + optionalChar ['l', 'L'] (u.drop (digitsLength u)))
      (withBaseLength u) := rfl
  by_cases hbase : withBaseLength u = 0
  · rw [hmax, hbase, Nat.max_zero] at hu
    split at hu
    · exact absurd hu.symm hpos
    · next hn =>
      refine ⟨hn, ?_⟩
      have hlen : (u.drop (digitsLength u)).length = u.length - digitsLength u := List.length_drop
      generalize u.drop (digitsLength u) = w at hu hlen
      cases w with
      | nil => exact .inl rfl
      | cons d r =>
        rw [optionalChar] at hu
        rw [List.length_cons] at hlen
        split at hu
        · next hd =>
          refine .inr ⟨d, r, rfl, ?_⟩
          have hmem : d ∈ ['l', 'L'] := List.contains_iff_mem.1 hd
          exact List.mem_append_left ['x', 'X', 'b', 'B'] hmem
        · omega
  · obtain ⟨d, r, rfl, hd⟩ := withBaseLength_cases hbase
    have hone : digitsLength ('0' :: d :: r) = 1 := by
      have hpart : isDigitPart d = false := by
        simp only [List.mem_cons, List.not_mem_nil, or_false] at hd
        rcases hd with rfl | rfl | rfl | rfl | rfl | rfl <;> decide
      rw [digitsLength, if_pos (by decide), runLength, List.takeWhile_cons_of_neg (by simp [hpart])]
      rfl
    rw [hone]
    exact ⟨Nat.one_ne_zero, .inr ⟨d, r, rfl, hd⟩⟩

/-- An integer literal becomes a floating-point literal by a point behind its digits only. -/
theorem floatLength_of_intLength {u t : Text} (ht : ∀ c ∈ t.head?, isIdentifierPart c = false)
    (hne : u ≠ []) (hu : intLength u = u.length)
    (hdot : digitsLength u = u.length → t.head? ≠ some '.') :
    floatLength (u ++ t) ≤ u.length := by
  have hdigits := halts_digitsLength ht u
  have heq : digitsLength u = digitsLength (u ++ t) := greedy_digitsLength.stable u t hdigits
  obtain ⟨hn, hbehind⟩ := drop_digitsLength hne hu
  rw [← heq] at hdigits
  have hafter : afterDigits (u.drop (digitsLength u) ++ t) = 0 := by
    rcases hbehind with hnil | ⟨d, r, hdrop, hd⟩
    · rw [hnil, List.nil_append]
      have htail : floatTailLength t = 0 := Nat.le_zero.1 (haltsAt_floatTailLength ht [] rfl)
      have hall : digitsLength u = u.length := by
        have := congrArg List.length hnil
        rw [List.length_drop, List.length_nil] at this
        omega
      cases t with
      | nil => rfl
      | cons c t => rw [afterDigits_cons fun h => hdot hall (congrArg some h), htail]
    · rw [hdrop, List.cons_append]
      exact afterDigits_eq_zero hd _
  rw [floatLength_eq, ← heq, if_neg hn, List.drop_append_of_le_length hdigits, if_pos hafter]
  exact Nat.zero_le _

/-- Behind a number that starts with its point, no rule but the one for floating-point literals goes
on. -/
theorem le_of_point {d : Char} (hd : d.isDigit) {v t : Text}
    (hfloat : floatLength ('.' :: d :: v ++ t) ≤ ('.' :: d :: v).length) :
    ∀ rule ∈ rules, rule.2 ('.' :: d :: v ++ t) ≤ ('.' :: d :: v).length := by
  refine forall_rules ⟨Nat.zero_le _, Nat.zero_le _, Nat.zero_le _, Nat.zero_le _⟩ ?_
    ⟨Nat.zero_le _, hfloat⟩ ⟨Nat.zero_le _, Nat.zero_le _⟩ (Nat.zero_le _)
  intro k hk w hw
  have hpoint : ∀ k ∈ TokenKind.keywords ++ TokenKind.symbols, ∀ w ∈ k.text?,
      w.head? = some '.' → w = ['.'] ∨ w[1]? = some '.' := by decide
  unfold wordLength
  split
  · next hprefix =>
    have hprefix := List.isPrefixOf_iff_prefix.1 hprefix
    cases w with
    | nil => exact Nat.zero_le _
    | cons c w =>
      obtain ⟨rfl, hrest⟩ := List.cons_prefix_cons.1 hprefix
      rcases hpoint k hk _ hw rfl with hw | hw
      · rw [hw]
        exact Nat.succ_le_succ (Nat.zero_le _)
      · cases w with
        | nil => exact Nat.succ_le_succ (Nat.zero_le _)
        | cons c w =>
          obtain ⟨rfl, -⟩ := List.cons_prefix_cons.1 hrest
          cases hw
          exact absurd hd (by decide)
  · exact Nat.zero_le _

theorem wordLength_of_quote {k : TokenKind} (hk : k ∈ TokenKind.keywords ++ TokenKind.symbols)
    {w : Text} (hw : k.text? = some w) {q : Char} (hq : q = '"' ∨ q = '\'') (s : Text) :
    wordLength w (q :: s) = 0 := by
  unfold wordLength
  rw [if_neg]
  intro hprefix
  cases w with
  | nil => exact absurd (keyword_or_symbol k hk _ hw) (by decide)
  | cons c w =>
    obtain ⟨rfl, -⟩ := List.cons_prefix_cons.1 (List.isPrefixOf_iff_prefix.1 hprefix)
    have h := keyword_or_symbol k hk _ hw
    rcases hq with rfl | rfl <;> simp [isIdentifierStart, isIdentifierPart] at h

/-- Behind a literal in double quotes no rule goes on. -/
theorem le_of_stringLength {u : Text} (hne : u ≠ []) (hu : stringLength u = u.length) (t : Text) :
    ∀ rule ∈ rules, rule.2 (u ++ t) ≤ u.length := by
  cases u with
  | nil => exact absurd rfl hne
  | cons c r =>
    by_cases hc : c = '"'
    · subst hc
      have hstring : stringLength ('"' :: r ++ t) ≤ ('"' :: r).length := by
        rw [stringLength] at hu
        split at hu
        · next k n hq =>
          rw [List.cons_append, stringLength, quotedLength_append (by decide) hq]
          exact Nat.le_of_eq hu
        · cases hu
      exact forall_rules ⟨Nat.zero_le _, Nat.zero_le _, Nat.zero_le _, Nat.zero_le _⟩
        (fun k hk w hw => (wordLength_of_quote hk hw (.inl rfl) (r ++ t)).trans_le (Nat.zero_le _))
        ⟨Nat.zero_le _, Nat.zero_le _⟩ ⟨hstring, Nat.zero_le _⟩ (Nat.zero_le _)
    · simp [stringLength, hc] at hu

/-- Behind a literal in single quotes no rule goes on. -/
theorem le_of_charLength {u : Text} (hne : u ≠ []) (hu : charLength u = u.length) (t : Text) :
    ∀ rule ∈ rules, rule.2 (u ++ t) ≤ u.length := by
  cases u with
  | nil => exact absurd rfl hne
  | cons c r =>
    by_cases hc : c = '\''
    · subst hc
      have hchar : charLength ('\'' :: r ++ t) ≤ ('\'' :: r).length := by
        rw [charLength] at hu
        split at hu
        · next k n hq =>
          rw [List.cons_append, charLength, quotedLength_append (by decide) hq]
          exact Nat.le_of_eq hu
        · cases hu
      exact forall_rules ⟨Nat.zero_le _, Nat.zero_le _, Nat.zero_le _, Nat.zero_le _⟩
        (fun k hk w hw => (wordLength_of_quote hk hw (.inr rfl) (r ++ t)).trans_le (Nat.zero_le _))
        ⟨Nat.zero_le _, Nat.zero_le _⟩ ⟨Nat.zero_le _, hchar⟩ (Nat.zero_le _)
    · simp [charLength, hc] at hu

/-! ### What goes on -/

/-- The text of a name, a keyword or a number: a word that is not in quotes. -/
def isUnquoted : Text → Bool
  | [] => false
  | '.' :: d :: _ => d.isDigit
  | c :: _ => isIdentifierPart c

/-- The word, with this character behind it, is read on. A point behind digits makes them a
floating-point literal, a digit behind a point does so too, two points may be the start of three,
and a slash opens a comment. -/
def goesOn (v : Text) (c : Char) : Bool :=
  if isUnquoted v then isIdentifierPart c || c == '.' && digitsLength v == v.length
  else if v = ['/'] then c == '/' || c == '*'
  else v = ['.'] && (c == '.' || c.isDigit)

theorem floatLength_append {v t : Text} (hne : v ≠ [])
    (ht : ∀ c ∈ t.head?, isIdentifierPart c = false)
    (hdot : digitsLength v = v.length → t.head? ≠ some '.')
    (hv : intLength v = v.length ∨ floatLength v = v.length) :
    floatLength (v ++ t) ≤ v.length := by
  rcases hv with hv | hv
  · exact floatLength_of_intLength ht hne hv hdot
  · exact haltsAt_floatLength ht hne hv

theorem isUnquoted_cons {c : Char} (hc : isIdentifierPart c) (r : Text) :
    isUnquoted (c :: r) := by
  unfold isUnquoted
  split
  · next heq => cases heq
  · next heq =>
    obtain ⟨rfl, -⟩ := List.cons.inj heq
    exact absurd hc (by decide)
  · next heq =>
    obtain ⟨rfl, -⟩ := List.cons.inj heq
    exact hc

theorem stops_of_goesOn {v t : Text} (hv : isUnquoted v)
    (h : ∀ c ∈ t.head?, goesOn v c = false) :
    (∀ c ∈ t.head?, isIdentifierPart c = false) ∧
      (digitsLength v = v.length → t.head? ≠ some '.') := by
  have hc {c : Char} (hc : c ∈ t.head?) :
      isIdentifierPart c = false ∧ (c == '.' && digitsLength v == v.length) = false := by
    have hstop := h c hc
    rwa [goesOn, if_pos hv, Bool.or_eq_false_iff] at hstop
  refine ⟨fun c hmem => (hc hmem).1, fun hall hdot => ?_⟩
  have h := (hc hdot).2
  simp [hall] at h

/-- Behind a name nothing goes on that does not go on with a letter or a digit. -/
theorem le_of_name {c : Char} (hc : isIdentifierStart c) {r t : Text}
    (h : ∀ d ∈ t.head?, goesOn (c :: r) d = false) :
    ∀ rule ∈ rules, rule.2 (c :: r ++ t) ≤ (c :: r).length := by
  have hpart : isIdentifierPart c := by rw [isIdentifierPart, hc, Bool.true_or]
  have hstop := stops_of_goesOn (isUnquoted_cons hpart r) h
  refine le_of_isIdentifierPart hpart hstop.1 ?_
  rw [List.cons_append, floatLength_of_isIdentifierStart hc]
  exact Nat.zero_le _

theorem le_of_number {v t : Text} (hne : v ≠ [])
    (hv : intLength v = v.length ∨ floatLength v = v.length)
    (h : ∀ d ∈ t.head?, goesOn v d = false) : ∀ rule ∈ rules, rule.2 (v ++ t) ≤ v.length := by
  rcases v with _ | ⟨c, r⟩
  · exact absurd rfl hne
  by_cases hdigit : c.isDigit
  · have hpart := isIdentifierPart_of_isDigit hdigit
    have hstop := stops_of_goesOn (isUnquoted_cons hpart r) h
    exact le_of_isIdentifierPart hpart hstop.1 (floatLength_append hne hstop.1 hstop.2 hv)
  · -- only a floating-point literal can start with something else: with its point
    have hzero : digitsLength (c :: r) = 0 := by simp [digitsLength, hdigit]
    have hfloat : floatLength (c :: r) = (c :: r).length := by
      rcases hv with hv | hv
      · exact absurd hzero (drop_digitsLength hne hv).1
      · exact hv
    have hpoint := hfloat
    rw [floatLength_eq, if_pos hzero] at hpoint
    by_cases hc : c = '.'
    · subst hc
      cases r with
      | nil => exact absurd hpoint (by decide)
      | cons d r =>
        have hd : d.isDigit := by
          by_contra hd
          simp [pointLength, afterPoint, digitsLength, hd] at hpoint
        have hstop := stops_of_goesOn (v := '.' :: d :: r) hd h
        exact le_of_point hd (floatLength_append hne hstop.1 hstop.2 hv)
    · rw [pointLength_cons hc] at hpoint
      cases hpoint

theorem head_keyword : ∀ k ∈ TokenKind.keywords, ∀ w ∈ k.text?, w.head?.any isIdentifierStart := by
  decide

/-- **A word stays the longest match** in front of what it does not go on into. -/
theorem longest_word {k : TokenKind} {v t : Text} (hv : longest v = some (.token k, v.length))
    (hk : k ∉ TokenKind.symbols) (h : ∀ c ∈ t.head?, goesOn v c = false) :
    longest (v ++ t) = some (.token k, v.length) := by
  have hne : v ≠ [] := by
    rintro rfl
    exact longest_ne_zero hv
  rw [longest_append ?_, hv]
  obtain ⟨len, hm, hlen⟩ := mem_rules_of_longest hv
  rcases token_rule_cases hm with
    ⟨w, hmem, hw, rfl⟩ | ⟨-, rfl⟩ | ⟨-, rfl⟩ | ⟨-, rfl⟩ | ⟨-, rfl⟩ | ⟨-, rfl⟩
  · have hkeyword : k ∈ TokenKind.keywords := (List.mem_append.1 hmem).resolve_right hk
    have htake := take_wordLength (w := w) (t := v) (by
      rw [hlen]
      exact fun h => hne (List.eq_nil_of_length_eq_zero h))
    rw [hlen, List.take_length] at htake
    have hname := head_keyword k hkeyword w hw
    rw [← htake] at hname
    cases v with
    | nil => exact absurd rfl hne
    | cons c r => exact le_of_name hname h
  · exact le_of_number hne (.inl hlen) h
  · exact le_of_number hne (.inr hlen) h
  · exact le_of_stringLength hne hlen t
  · exact le_of_charLength hne hlen t
  · cases v with
    | nil => exact absurd rfl hne
    | cons c r =>
      refine le_of_name ?_ h
      by_contra hc
      simp [identifierLength, hc] at hlen

/-! ### Symbols -/

/-- Where a rule matches, there is a longest match. -/
theorem exists_longest {l : Lexeme} {len : Text → Nat} (hm : (l, len) ∈ rules) {t : Text}
    (hpos : len t ≠ 0) : ∃ l' len', (l', len') ∈ rules ∧ longest t = some (l', len' t) ∧
      len' t ≠ 0 := by
  cases hl : longest t with
  | none => exact absurd (longest_eq_none_iff.1 hl _ hm) hpos
  | some r =>
    obtain ⟨l', n⟩ := r
    obtain ⟨len', hm', rfl⟩ := mem_rules_of_longest hl
    exact ⟨l', len', hm', rfl, fun h => longest_ne_zero (h ▸ hl)⟩

/-- The characters of symbols, but for points and at signs. -/
def symbolChars : List Char := "(){}[];,:?=!~<>&|+-*/^%".toList

theorem token_of_symbolChars : ∀ c ∈ '.' :: '@' :: symbolChars,
    isBlankChar c = false ∧ isIdentifierPart c = false ∧ c ≠ '"' ∧ c ≠ '\'' ∧
      ∃ k ∈ TokenKind.symbols, k.text? = some [c] := by
  have hall : ('.' :: '@' :: symbolChars).all fun c =>
      !isBlankChar c && !isIdentifierPart c && c != '"' && c != '\'' &&
        TokenKind.symbols.any fun k => k.text? == some [c] := by
    decide
  intro c hc
  simpa [and_assoc] using List.all_eq_true.1 hall c hc

theorem mem_rules_of_text {k : TokenKind} (hk : k ∈ TokenKind.symbols) {w : Text}
    (hw : k.text? = some w) : (token k, wordLength w) ∈ rules := by
  refine List.mem_append_left _ (List.mem_append_right _ ?_)
  refine List.mem_filterMap.2 ⟨k, List.mem_append_right _ hk, ?_⟩
  rw [wordRule, hw]
  rfl

/-- No token but a symbol matches at a symbol, unless it is the point of a number. -/
theorem symbol_of_token_rule {c : Char} (hc : c ∈ '.' :: '@' :: symbolChars) {t : Text}
    (hpoint : c = '.' → ∀ d ∈ t.head?, d.isDigit = false) {k : TokenKind} {len : Text → Nat}
    (hm : (token k, len) ∈ rules) (hpos : len (c :: t) ≠ 0) :
    k ∈ TokenKind.symbols ∧ ∃ w, k.text? = some (c :: w) ∧ w <+: t ∧ len = wordLength (c :: w) := by
  obtain ⟨-, hpart, hquote, happ, -⟩ := token_of_symbolChars c hc
  obtain ⟨hstart, hdigit⟩ : isIdentifierStart c = false ∧ c.isDigit = false := by
    rwa [isIdentifierPart, Bool.or_eq_false_iff] at hpart
  have hzero : digitsLength (c :: t) = 0 := by simp [digitsLength, hdigit]
  rcases token_rule_cases hm with
    ⟨w, hk, hw, rfl⟩ | ⟨-, rfl⟩ | ⟨-, rfl⟩ | ⟨-, rfl⟩ | ⟨-, rfl⟩ | ⟨-, rfl⟩
  · have hprefix : w <+: c :: t := by
      by_contra hno
      rw [wordLength, if_neg (mt List.isPrefixOf_iff_prefix.1 hno)] at hpos
      exact hpos rfl
    cases w with
    | nil => exact absurd (keyword_or_symbol k hk _ hw) (by decide)
    | cons d w =>
      obtain ⟨rfl, hrest⟩ := List.cons_prefix_cons.1 hprefix
      rcases List.mem_append.1 hk with hkeyword | hsymbol
      · have hname := head_keyword k hkeyword _ hw
        rw [List.head?_cons, Option.any_some, hstart] at hname
        cases hname
      · exact ⟨hsymbol, w, hw, hrest, rfl⟩
  · have hne : c ≠ '0' := by rintro rfl; exact absurd hdigit (by decide)
    simp [intLength, hzero, hne] at hpos
  · rw [floatLength_eq, if_pos hzero] at hpos
    by_cases hdot : c = '.'
    · subst hdot
      have hnone : digitsLength t = 0 := by
        cases t with
        | nil => rfl
        | cons d t => simp [digitsLength, hpoint rfl d rfl]
      simp [pointLength, afterPoint, hnone] at hpos
    · exact absurd (pointLength_cons hdot t) hpos
  · simp [stringLength, hquote] at hpos
  · simp [charLength, happ] at hpos
  · simp [identifierLength, hstart] at hpos

/-- Only tokens match at a symbol, unless it opens a comment. -/
theorem token_at_symbol {c : Char} (hc : c ∈ '.' :: '@' :: symbolChars) {t : Text}
    (hslash : c = '/' → ∀ d ∈ t.head?, d ≠ '/' ∧ d ≠ '*') {l : Lexeme} {len : Text → Nat}
    (hm : (l, len) ∈ rules) (hpos : len (c :: t) ≠ 0) : ∃ k, l = .token k := by
  obtain ⟨hblank, -⟩ := token_of_symbolChars c hc
  cases l with
  | token k => exact ⟨k, rfl⟩
  | blanks =>
    obtain rfl : len = _ := rule_of_mem hm
    simp [runLength, hblank] at hpos
  | lineComment =>
    obtain rfl : len = _ := rule_of_mem hm
    unfold lineCommentLength at hpos
    split at hpos
    · next heq =>
      obtain ⟨rfl, rfl⟩ := List.cons.inj heq
      exact absurd rfl (hslash rfl _ rfl).1
    · exact absurd rfl hpos
  | blockComment =>
    obtain rfl : len = _ := rule_of_mem hm
    unfold blockCommentLength at hpos
    split at hpos
    · next heq =>
      obtain ⟨rfl, rfl⟩ := List.cons.inj heq
      exact absurd rfl (hslash rfl _ rfl).2
    · exact absurd rfl hpos
  | unclosedComment =>
    obtain rfl : len = _ := rule_of_mem hm
    unfold unclosedCommentLength at hpos
    split at hpos
    · next heq =>
      obtain ⟨rfl, rfl⟩ := List.cons.inj heq
      exact absurd rfl (hslash rfl _ rfl).2
    · exact absurd rfl hpos

/-- No word starts with a character of symbols. -/
theorem head_word {k : TokenKind} {c : Char} {r : Text}
    (hv : longest (c :: r) = some (.token k, (c :: r).length)) (hk : k ∉ TokenKind.symbols) :
    c ∉ symbolChars := by
  intro hc
  have hdot : c ≠ '.' := by rintro rfl; exact absurd hc (by decide)
  obtain ⟨len, hm, hlen⟩ := mem_rules_of_longest hv
  have hpos : len (c :: r) ≠ 0 := hlen ▸ Nat.succ_ne_zero r.length
  exact hk (symbol_of_token_rule (List.mem_cons_of_mem _ (List.mem_cons_of_mem _ hc))
    (fun h => absurd h hdot) hm hpos).1

/-- The longest match at a symbol, unless it opens a comment or is the point of a number. -/
theorem longest_at_symbol {c : Char} (hc : c ∈ '.' :: '@' :: symbolChars) {t : Text}
    (hslash : c = '/' → ∀ d ∈ t.head?, d ≠ '/' ∧ d ≠ '*')
    (hpoint : c = '.' → ∀ d ∈ t.head?, d.isDigit = false) :
    ∃ k ∈ TokenKind.symbols, ∃ w, k.text? = some (c :: w) ∧ w <+: t ∧
      longest (c :: t) = some (.token k, w.length + 1) ∧
      ∀ k' ∈ TokenKind.symbols, ∀ w', k'.text? = some (c :: w') → w' <+: t →
        w'.length ≤ w.length := by
  have hlength {w : Text} (hw : w <+: t) : wordLength (c :: w) (c :: t) = w.length + 1 := by
    rw [wordLength, if_pos (List.isPrefixOf_iff_prefix.2 (List.cons_prefix_cons.2 ⟨rfl, hw⟩)),
      List.length_cons]
  obtain ⟨-, -, -, -, k, hk, hone⟩ := token_of_symbolChars c hc
  obtain ⟨l, len, hm, hl, hpos⟩ := exists_longest (mem_rules_of_text hk hone) (t := c :: t)
    (by rw [hlength List.nil_prefix]; exact Nat.one_ne_zero)
  obtain ⟨k, rfl⟩ := token_at_symbol hc hslash hm hpos
  obtain ⟨hk, w, hw, hprefix, rfl⟩ := symbol_of_token_rule hc hpoint hm hpos
  rw [hlength hprefix] at hl
  refine ⟨k, hk, w, hw, hprefix, hl, fun k' hk' w' hw' hprefix' => ?_⟩
  have hle : wordLength (c :: w') (c :: t) ≤ w.length + 1 :=
    le_of_longest hl (mem_rules_of_text hk' hw')
  rw [hlength hprefix'] at hle
  exact Nat.le_of_succ_le_succ hle

end Lexeme

end JavaSource
