import JavaSource.Proofs.Lexed
import Mathlib.Data.List.Basic

/-!
# Cutting a text that goes on in another line

No lexeme but a comment goes past a line feed, and a comment that is closed does not either.  So the
tokens of a text come out of a longer text too, if a line feed follows there (`lexFrom_append`): they are
cut in the same way (`Recut`), but for where they stand and for the gap before the first of them.
-/

namespace JavaSource

namespace Lexeme

/-! ### Rules and line feeds -/

/-- A rule that does not match blanks, and whose match a line feed ends. -/
structure Inline (len : Text → Nat) : Prop where
  le_length : ∀ t, len t ≤ t.length
  blank : ∀ c t, isBlankChar c → len (c :: t) = 0
  lineFeed : ∀ t rest, len (t ++ '\n' :: rest) = len t

theorem runLength_le (p : Char → Bool) (t : Text) : runLength p t ≤ t.length :=
  (List.takeWhile_prefix p).length_le

theorem runLength_lineFeed {p : Char → Bool} (hp : p '\n' = false) (t rest : Text) :
    runLength p (t ++ '\n' :: rest) = runLength p t := by
  induction t with
  | nil => simp [runLength, hp]
  | cons c t ih =>
    unfold runLength at ih ⊢
    rw [List.cons_append, List.takeWhile_cons, List.takeWhile_cons]
    split
    · simp only [List.length_cons, ih]
    · rfl

theorem optionalChar_le (chars : List Char) (t : Text) : optionalChar chars t ≤ t.length := by
  cases t with
  | nil => exact Nat.le_refl 0
  | cons c t =>
    rw [optionalChar, List.length_cons]
    split <;> omega

theorem optionalChar_lineFeed {chars : List Char} (h : chars.contains '\n' = false) (t rest : Text) :
    optionalChar chars (t ++ '\n' :: rest) = optionalChar chars t := by
  cases t with
  | nil => simp only [List.nil_append, optionalChar, h, Bool.false_eq_true, if_false]
  | cons c t => rfl

theorem drop_lineFeed {t : Text} {n : Nat} (h : n ≤ t.length) (rest : Text) :
    (t ++ '\n' :: rest).drop n = t.drop n ++ '\n' :: rest := List.drop_append_of_le_length h

theorem eq_of_isBlankChar {c : Char} (h : isBlankChar c) :
    c = ' ' ∨ c = '\t' ∨ c = '\r' ∨ c = '\n' ∨ c = '\x0c' := by
  simpa [isBlankChar, or_assoc] using h

theorem inline_digitsLength : Inline digitsLength where
  le_length t := by
    cases t with
    | nil => exact Nat.le_refl 0
    | cons c t =>
      have := runLength_le isDigitPart t
      rw [digitsLength, List.length_cons]
      split <;> omega
  blank c t hc := by rcases eq_of_isBlankChar hc with rfl | rfl | rfl | rfl | rfl <;> rfl
  lineFeed t rest := by
    cases t with
    | nil => rfl
    | cons c t => rw [List.cons_append, digitsLength, digitsLength, runLength_lineFeed rfl]

theorem basedLength_le (part : Char → Bool) (t : Text) : basedLength part t ≤ t.length + 2 := by
  have hrun := runLength_le part t
  have hsuffix := optionalChar_le ['l', 'L'] (t.drop (runLength part t))
  rw [List.length_drop] at hsuffix
  rw [basedLength]
  split <;> omega

theorem basedLength_lineFeed {part : Char → Bool} (h : part '\n' = false) (t rest : Text) :
    basedLength part (t ++ '\n' :: rest) = basedLength part t := by
  rw [basedLength, basedLength, runLength_lineFeed h, drop_lineFeed (runLength_le part t),
    optionalChar_lineFeed rfl]

/-- An integer literal with a base. -/
def withBaseLength : Text → Nat
  | '0' :: 'x' :: rest | '0' :: 'X' :: rest => basedLength isHexPart rest
  | '0' :: 'b' :: rest | '0' :: 'B' :: rest => basedLength isBinaryPart rest
  | _ => 0

theorem withBaseLength_cons (c d : Char) (r : Text) :
    withBaseLength (c :: d :: r) =
      if c = '0' then if d = 'x' ∨ d = 'X' then basedLength isHexPart r
        else if d = 'b' ∨ d = 'B' then basedLength isBinaryPart r else 0
      else 0 := by
  unfold withBaseLength
  split <;> simp_all

theorem inline_intLength : Inline intLength where
  le_length t := by
    have hdigits := inline_digitsLength.le_length t
    have hsuffix := optionalChar_le ['l', 'L'] (t.drop (digitsLength t))
    rw [List.length_drop] at hsuffix
    have hbased (part : Char → Bool) (r : Text) := basedLength_le part r
    unfold intLength
    refine Nat.max_le.2 ⟨by split <;> omega, ?_⟩
    split <;> simp only [List.length_cons, Nat.zero_le, hbased]
  blank c t hc := by rcases eq_of_isBlankChar hc with rfl | rfl | rfl | rfl | rfl <;> rfl
  lineFeed t rest := by
    have hsuffix (r : Text) : optionalChar ['l', 'L'] (r ++ '\n' :: rest) = optionalChar ['l', 'L'] r :=
      optionalChar_lineFeed rfl r rest
    simp only [intLength, inline_digitsLength.lineFeed, drop_lineFeed (inline_digitsLength.le_length t),
      hsuffix]
    congr 1
    rcases t with _ | ⟨c, _ | ⟨d, r⟩⟩
    · rfl
    · by_cases hc : c = '0'
      · rw [hc]
        rfl
      · simp [hc]
    · refine (withBaseLength_cons c d (r ++ '\n' :: rest)).trans
        (Eq.trans ?_ (withBaseLength_cons c d r).symm)
      rw [basedLength_lineFeed rfl, basedLength_lineFeed rfl]

theorem inline_exponentLength : Inline exponentLength where
  le_length t := by
    cases t with
    | nil => exact Nat.le_refl 0
    | cons c r =>
      have hsign := optionalChar_le ['+', '-'] r
      have hrun := runLength_le Char.isDigit (r.drop (optionalChar ['+', '-'] r))
      rw [List.length_drop] at hrun
      rw [exponentLength, List.length_cons]
      split
      · dsimp only
        split <;> omega
      · omega
  blank c t hc := by rcases eq_of_isBlankChar hc with rfl | rfl | rfl | rfl | rfl <;> rfl
  lineFeed t rest := by
    cases t with
    | nil => rfl
    | cons c r =>
      have hsign : optionalChar ['+', '-'] (r ++ '\n' :: rest) = optionalChar ['+', '-'] r :=
        optionalChar_lineFeed rfl r rest
      have hrun (r : Text) : runLength Char.isDigit (r ++ '\n' :: rest) = runLength Char.isDigit r :=
        runLength_lineFeed rfl r rest
      simp only [List.cons_append, exponentLength, hsign, drop_lineFeed (optionalChar_le _ r), hrun]

theorem inline_floatTailLength : Inline floatTailLength where
  le_length t := by
    have hexponent := inline_exponentLength.le_length t
    have hsuffix := optionalChar_le ['f', 'F', 'd', 'D'] (t.drop (exponentLength t))
    rw [List.length_drop] at hsuffix
    rw [floatTailLength]
    omega
  blank c t hc := by rcases eq_of_isBlankChar hc with rfl | rfl | rfl | rfl | rfl <;> rfl
  lineFeed t rest := by
    rw [floatTailLength, floatTailLength, inline_exponentLength.lineFeed,
      drop_lineFeed (inline_exponentLength.le_length t), optionalChar_lineFeed rfl]

theorem inline_floatLength : Inline floatLength where
  le_length t := by
    have hdigits := inline_digitsLength.le_length
    have htail (r : Text) (m : Nat) : floatTailLength (r.drop m) ≤ r.length - m :=
      List.length_drop ▸ inline_floatTailLength.le_length (r.drop m)
    have hn := hdigits t
    have hdrop : (t.drop (digitsLength t)).length = t.length - digitsLength t := List.length_drop
    simp only [floatLength]
    generalize digitsLength t = n at hn hdrop
    generalize t.drop n = r at hdrop
    split
    · next fraction =>
      have hfraction := hdigits fraction
      have hbehind := htail fraction (digitsLength fraction)
      rw [List.length_cons] at hdrop
      split <;> omega
    · exact Nat.zero_le _
    · next fraction _ =>
      have hfraction := runLength_le isDigitPart fraction
      have hbehind := htail fraction (runLength isDigitPart fraction)
      rw [List.length_cons] at hdrop
      omega
    · have hbehind := htail r 0
      rw [List.drop_zero] at hbehind
      split <;> omega
  blank c t hc := by rcases eq_of_isBlankChar hc with rfl | rfl | rfl | rfl | rfl <;> rfl
  lineFeed t rest := by
    have hdigits := inline_digitsLength.le_length
    have hrun (r : Text) : runLength isDigitPart (r ++ '\n' :: rest) = runLength isDigitPart r :=
      runLength_lineFeed rfl r rest
    simp only [floatLength, inline_digitsLength.lineFeed, drop_lineFeed (hdigits t)]
    generalize digitsLength t = n
    cases t.drop n with
    | nil => cases n <;> rfl
    | cons c r =>
      rw [List.cons_append]
      by_cases hc : c = '.'
      · subst hc
        cases n with
        | zero =>
          simp only [inline_digitsLength.lineFeed, drop_lineFeed (hdigits r),
            inline_floatTailLength.lineFeed]
        | succ n =>
          simp only [hrun, drop_lineFeed (runLength_le _ r), inline_floatTailLength.lineFeed]
      · cases n with
        | zero => simp [hc]
        | succ n =>
          have htail := inline_floatTailLength.lineFeed (c :: r) rest
          rw [List.cons_append] at htail
          simp [hc, htail]

theorem quotedLength_le {quote : Char} {t : Text} {k n : Nat}
    (h : quotedLength quote t = some (k, n)) : n ≤ t.length := by
  fun_induction quotedLength quote t generalizing k n with
  | case1 => cases h
  | case2 => cases h
  | case3 c rest _ ih =>
    obtain ⟨⟨k', n'⟩, hrest, heq⟩ := Option.map_eq_some_iff.1 h
    cases heq
    exact Nat.add_le_add_right (ih hrest) 2
  | case4 => cases h; exact Nat.succ_le_succ (Nat.zero_le _)
  | case5 => cases h
  | case6 c rest _ _ _ ih =>
    obtain ⟨⟨k', n'⟩, hrest, heq⟩ := Option.map_eq_some_iff.1 h
    cases heq
    exact Nat.succ_le_succ (ih hrest)

theorem quotedLength_lineFeed (quote : Char) (hquote : quote ≠ '\n') (hslash : quote ≠ '\\')
    (t rest : Text) : quotedLength quote (t ++ '\n' :: rest) = quotedLength quote t := by
  fun_induction quotedLength quote t with
  | case1 =>
    rw [List.nil_append, quotedLength]
    · rw [if_neg hquote.symm]
      rfl
    · nofun
  | case2 => rw [List.cons_append, List.cons_append, quotedLength, if_pos rfl]
  | case3 c r hc ih => rw [List.cons_append, List.cons_append, quotedLength, if_neg hc, ih]
  | case4 r _ =>
    rw [List.cons_append, quotedLength]
    · rw [if_pos rfl]
    · exact fun _ _ h => absurd h hslash
  | case5 c r hr hc hstop =>
    by_cases hslash' : c = '\\'
    · -- a backslash is in front of the line feed
      cases r with
      | nil => rw [hslash', List.cons_append, List.nil_append, quotedLength, if_pos rfl]
      | cons d r => exact (hr d r hslash' rfl).elim
    · rw [List.cons_append, quotedLength]
      · rw [if_neg hc, if_pos hstop]
      · exact fun _ _ h => absurd h hslash'
  | case6 c r _ hc hstop ih =>
    rw [List.cons_append, quotedLength]
    · rw [if_neg hc, if_neg hstop, ih]
    · exact fun _ _ h => absurd (.inl h) hstop

theorem inline_stringLength : Inline stringLength where
  le_length t := by
    unfold stringLength
    split
    · split
      · next h => exact Nat.succ_le_succ (quotedLength_le h)
      · exact Nat.zero_le _
    · exact Nat.zero_le _
  blank c t hc := by rcases eq_of_isBlankChar hc with rfl | rfl | rfl | rfl | rfl <;> rfl
  lineFeed t rest := by
    cases t with
    | nil => rfl
    | cons c t =>
      by_cases hc : c = '"'
      · rw [hc, List.cons_append, stringLength, stringLength,
          quotedLength_lineFeed '"' (by decide) (by decide)]
      · simp [stringLength, hc]

theorem inline_charLength : Inline charLength where
  le_length t := by
    unfold charLength
    split
    · split
      · next h =>
        have := quotedLength_le h
        rw [List.length_cons]
        split <;> omega
      · exact Nat.zero_le _
    · exact Nat.zero_le _
  blank c t hc := by rcases eq_of_isBlankChar hc with rfl | rfl | rfl | rfl | rfl <;> rfl
  lineFeed t rest := by
    cases t with
    | nil => rfl
    | cons c t =>
      by_cases hc : c = '\''
      · rw [hc, List.cons_append, charLength, charLength,
          quotedLength_lineFeed '\'' (by decide) (by decide)]
      · simp [charLength, hc]

theorem inline_identifierLength : Inline identifierLength where
  le_length t := by
    cases t with
    | nil => exact Nat.le_refl 0
    | cons c t =>
      have := runLength_le isIdentifierPart t
      rw [identifierLength, List.length_cons]
      split <;> omega
  blank c t hc := by rcases eq_of_isBlankChar hc with rfl | rfl | rfl | rfl | rfl <;> rfl
  lineFeed t rest := by
    cases t with
    | nil => rfl
    | cons c t => rw [List.cons_append, identifierLength, identifierLength, runLength_lineFeed rfl]

theorem inline_lineCommentLength : Inline lineCommentLength where
  le_length t := by
    unfold lineCommentLength
    split
    · next r =>
      have := runLength_le isInLine r
      rw [List.length_cons, List.length_cons]
      omega
    · exact Nat.zero_le _
  blank c t hc := by rcases eq_of_isBlankChar hc with rfl | rfl | rfl | rfl | rfl <;> rfl
  lineFeed t rest := by
    rcases t with _ | ⟨c, _ | ⟨d, t⟩⟩
    · rfl
    · simp [lineCommentLength]
    · have hnone (h : ¬(c = '/' ∧ d = '/')) (t : Text) : lineCommentLength (c :: d :: t) = 0 := by
        unfold lineCommentLength
        split
        · next heq =>
          cases heq
          exact absurd ⟨rfl, rfl⟩ h
        · rfl
      by_cases h : c = '/' ∧ d = '/'
      · rw [h.1, h.2, List.cons_append, List.cons_append, lineCommentLength, lineCommentLength,
          runLength_lineFeed rfl]
      · rw [List.cons_append, List.cons_append, hnone h, hnone h]

theorem inline_wordLength {w : Text} (hne : w ≠ []) (hw : ∀ c ∈ w, isBlankChar c = false) :
    Inline (wordLength w) where
  le_length t := by
    rw [wordLength]
    split
    · next h => exact (List.isPrefixOf_iff_prefix.1 h).length_le
    · exact Nat.zero_le _
  blank c t hc := by
    cases w with
    | nil => exact absurd rfl hne
    | cons d w =>
      have hcd : (d == c) = false := by
        refine beq_false_of_ne ?_
        rintro rfl
        exact Bool.false_ne_true ((hw d (.head _)).symm.trans hc)
      rw [wordLength, List.isPrefixOf_cons_cons, hcd]
      rfl
  lineFeed t rest := by
    have hiff : w <+: t ++ '\n' :: rest ↔ w <+: t := by
      refine ⟨fun h => ?_, fun h => h.trans (List.prefix_append t _)⟩
      rcases List.prefix_or_prefix_of_prefix h (List.prefix_append t _) with h' | ⟨v, rfl⟩
      · exact h'
      · cases v with
        | nil => simp
        | cons c v =>
          obtain rfl := (List.cons_prefix_cons.1 ((List.prefix_append_right_inj t).1 h)).1
          exact absurd (hw '\n' (by simp)) nofun
    simp only [wordLength, List.isPrefixOf_iff_prefix, hiff]

theorem inline_of_wordRule {k : TokenKind} {rule : Lexeme × (Text → Nat)}
    (hk : k ∈ TokenKind.keywords ++ TokenKind.symbols) (h : wordRule k = some rule) :
    Inline rule.2 := by
  have hwords : (TokenKind.keywords ++ TokenKind.symbols).all (fun k =>
      k.text?.all fun w => !w.isEmpty && w.all fun c => !isBlankChar c) = true := by decide
  obtain ⟨w, hw, rfl⟩ := Option.map_eq_some_iff.1 h
  have hword : (!w.isEmpty && w.all fun c => !isBlankChar c) = true := by
    have hk := List.all_eq_true.1 hwords k hk
    rwa [hw] at hk
  rw [Bool.and_eq_true, List.all_eq_true] at hword
  exact inline_wordLength (by simpa using hword.1) (by simpa using hword.2)

/-! ### Comments -/

theorem blockCommentLength_le (t : Text) : blockCommentLength t ≤ t.length := by
  unfold blockCommentLength
  split
  · next r =>
    split
    · next body others hclose =>
      rw [Text.splitClose_append hclose]
      simp only [List.length_cons, List.length_append]
      omega
    · exact Nat.zero_le _
  · exact Nat.zero_le _

theorem unclosedCommentLength_le (t : Text) : unclosedCommentLength t ≤ t.length := by
  unfold unclosedCommentLength
  split
  · rw [List.length_cons, List.length_cons]
    split <;> omega
  · exact Nat.zero_le _

/-- A comment that is closed stays so. -/
theorem commentLength_lineFeed {t : Text} (h : unclosedCommentLength t = 0) (rest : Text) :
    blockCommentLength (t ++ '\n' :: rest) = blockCommentLength t ∧
      unclosedCommentLength (t ++ '\n' :: rest) = 0 := by
  rcases t with _ | ⟨c, _ | ⟨d, t⟩⟩
  · exact ⟨rfl, rfl⟩
  · simp [blockCommentLength, unclosedCommentLength]
  · by_cases hopen : c = '/' ∧ d = '*'
    · obtain ⟨rfl, rfl⟩ := hopen
      rw [unclosedCommentLength] at h
      cases hclose : Text.splitClose t with
      | mk body others =>
        cases others with
        | none =>
          rw [hclose] at h
          exact absurd h (by simp)
        | some others =>
          have hclose' : Text.splitClose (t ++ '\n' :: rest) = (body, some (others ++ '\n' :: rest)) := by
            have := Text.splitClose_eq hclose (others ++ '\n' :: rest)
            rw [Text.splitClose_append hclose]
            simpa using this
          simp [blockCommentLength, unclosedCommentLength, hclose, hclose']
    · have hnone (t : Text) : blockCommentLength (c :: d :: t) = 0 ∧
          unclosedCommentLength (c :: d :: t) = 0 := by
        constructor
        · unfold blockCommentLength
          split
          · next heq => cases heq; exact absurd ⟨rfl, rfl⟩ hopen
          · rfl
        · unfold unclosedCommentLength
          split
          · next heq => cases heq; exact absurd ⟨rfl, rfl⟩ hopen
          · rfl
      rw [List.cons_append, List.cons_append, (hnone t).1, (hnone _).1, (hnone _).2]
      exact ⟨rfl, rfl⟩

/-! ### The longest match -/

theorem rule_cases {rule : Lexeme × (Text → Nat)} (h : rule ∈ rules) :
    rule = (.blanks, runLength isBlankChar) ∨ rule = (.blockComment, blockCommentLength) ∨
      rule = (.unclosedComment, unclosedCommentLength) ∨ Inline rule.2 := by
  rcases List.mem_append.1 h with h | h
  · rcases List.mem_append.1 h with h | h
    · simp only [List.mem_cons, List.not_mem_nil, or_false] at h
      rcases h with rfl | rfl | rfl | rfl
      · exact .inl rfl
      · exact .inr (.inr (.inr inline_lineCommentLength))
      · exact .inr (.inl rfl)
      · exact .inr (.inr (.inl rfl))
    · obtain ⟨k, hk, hrule⟩ := List.mem_filterMap.1 h
      exact .inr (.inr (.inr (inline_of_wordRule hk hrule)))
  · refine .inr (.inr (.inr ?_))
    simp only [List.mem_cons, List.not_mem_nil, or_false] at h
    rcases h with rfl | rfl | rfl | rfl | rfl
    · exact inline_intLength
    · exact inline_floatLength
    · exact inline_stringLength
    · exact inline_charLength
    · exact inline_identifierLength

/-- No match is longer than the text. -/
theorem le_length_of_mem {rule : Lexeme × (Text → Nat)} (h : rule ∈ rules) (t : Text) :
    rule.2 t ≤ t.length := by
  rcases rule_cases h with rfl | rfl | rfl | h
  · exact runLength_le _ t
  · exact blockCommentLength_le t
  · exact unclosedCommentLength_le t
  · exact h.le_length t

/-- The first match stays the best one if no other is longer. -/
theorem foldl_better {t : Text} {l : Lexeme} {n : Nat} {rs : List (Lexeme × (Text → Nat))}
    (h : ∀ rule ∈ rs, rule.2 t ≤ n) : rs.foldl (better t) (some (l, n)) = some (l, n) := by
  induction rs with
  | nil => rfl
  | cons rule rs ih =>
    have hkeep : better t (some (l, n)) rule = some (l, n) := by
      simp only [better, if_neg (Nat.not_lt.2 (h rule (.head _)))]
    rw [List.foldl_cons, hkeep]
    exact ih fun r hr => h r (.tail _ hr)

/-- Blanks are matched by one rule only. -/
theorem longest_blanks {c : Char} (hc : isBlankChar c) (t : Text) :
    longest (c :: t) = some (.blanks, runLength isBlankChar t + 1) := by
  have hrun : runLength isBlankChar (c :: t) = runLength isBlankChar t + 1 := by
    rw [runLength, List.takeWhile_cons, if_pos hc]
    rfl
  have hfirst : better (c :: t) none (.blanks, runLength isBlankChar) =
      some (.blanks, runLength isBlankChar t + 1) := by
    simp only [better, hrun, Nat.add_one_ne_zero, if_false]
  have hrules : rules = (.blanks, runLength isBlankChar) :: rules.drop 1 := rfl
  rw [longest, hrules, List.foldl_cons, hfirst]
  refine foldl_better fun rule hrule => ?_
  rcases rule_cases (List.mem_of_mem_drop hrule) with rfl | rfl | rfl | h
  · exact Nat.le_of_eq hrun
  · rcases eq_of_isBlankChar hc with rfl | rfl | rfl | rfl | rfl <;> exact Nat.zero_le _
  · rcases eq_of_isBlankChar hc with rfl | rfl | rfl | rfl | rfl <;> exact Nat.zero_le _
  · rw [h.blank c t hc]
    exact Nat.zero_le _

/-- A comment that is not closed is the longest match. -/
theorem longest_unclosedComment {t : Text} (h : unclosedCommentLength t ≠ 0) :
    longest t = some (.unclosedComment, t.length) := by
  unfold unclosedCommentLength at h
  split at h
  · next r =>
    split at h
    · next hnone =>
      have hblock : blockCommentLength ('/' :: '*' :: r) = 0 := by
        rw [blockCommentLength]
        split
        · next heq => rw [heq] at hnone; cases hnone
        · rfl
      have hlength : unclosedCommentLength ('/' :: '*' :: r) = ('/' :: '*' :: r).length := by
        rw [unclosedCommentLength, if_pos hnone, List.length_cons, List.length_cons]
        omega
      have hrules : rules = (.blanks, runLength isBlankChar) :: (.lineComment, lineCommentLength) ::
        (.blockComment, blockCommentLength) :: (.unclosedComment, unclosedCommentLength) ::
          rules.drop 4 := rfl
      have hfirst : better ('/' :: '*' :: r) none (.unclosedComment, unclosedCommentLength) =
          some (.unclosedComment, ('/' :: '*' :: r).length) := by
        simp only [better, hlength, List.length_cons, Nat.add_one_ne_zero, if_false]
      have hskip {rule : Lexeme × (Text → Nat)} (h : rule.2 ('/' :: '*' :: r) = 0) :
          better ('/' :: '*' :: r) none rule = none := by
        simp only [better, h, if_true]
      rw [longest, hrules, List.foldl_cons, List.foldl_cons, List.foldl_cons, List.foldl_cons,
        hskip rfl, hskip rfl, hskip hblock, hfirst]
      exact foldl_better fun rule hrule => le_length_of_mem (List.mem_of_mem_drop hrule) _
    · exact absurd rfl h
  · exact absurd rfl h

/-- A line feed ends the longest match, but for blanks. -/
theorem longest_lineFeed {c : Char} {t : Text} {l : Lexeme} {n : Nat}
    (h : longest (c :: t) = some (l, n)) (hblanks : l ≠ .blanks) (hclosed : l ≠ .unclosedComment)
    (rest : Text) : longest (c :: t ++ '\n' :: rest) = some (l, n) := by
  have hcomment : unclosedCommentLength (c :: t) = 0 := by
    by_contra hne
    rw [longest_unclosedComment hne] at h
    cases h
    exact hclosed rfl
  have hblank : runLength isBlankChar (c :: t ++ '\n' :: rest) = runLength isBlankChar (c :: t) := by
    have hc : isBlankChar c = false := by
      by_contra hc
      rw [longest_blanks (Bool.not_eq_false _ ▸ hc)] at h
      cases h
      exact hblanks rfl
    rw [runLength, runLength, List.cons_append, List.takeWhile_cons, List.takeWhile_cons, hc]
    rfl
  rw [← h]
  refine List.foldl_ext _ _ _ fun best rule hrule => ?_
  have hlength : rule.2 (c :: t ++ '\n' :: rest) = rule.2 (c :: t) := by
    rcases rule_cases hrule with rfl | rfl | rfl | hinline
    · exact hblank
    · exact (commentLength_lineFeed hcomment rest).1
    · exact (commentLength_lineFeed hcomment rest).2.trans hcomment.symm
    · exact hinline.lineFeed (c :: t) rest
  simp only [better, hlength]

/-- What is matched, and what is left then. -/
theorem take_lineFeed {c : Char} {t : Text} {l : Lexeme} {n : Nat}
    (h : longest (c :: t) = some (l, n + 1)) (rest : Text) :
    (c :: t ++ '\n' :: rest).take (n + 1) = (c :: t).take (n + 1) ∧
      (t ++ '\n' :: rest).drop n = t.drop n ++ '\n' :: rest := by
  obtain ⟨len, hm, hlen⟩ := mem_rules_of_longest h
  have hle : n + 1 ≤ (c :: t).length := hlen ▸ le_length_of_mem hm (c :: t)
  exact ⟨List.take_append_of_le_length hle, drop_lineFeed (Nat.le_of_succ_le_succ hle) rest⟩

theorem take_runLength (p : Char → Bool) (t : Text) : t.take (runLength p t) = t.takeWhile p :=
  (List.prefix_iff_eq_take.1 (List.takeWhile_prefix p)).symm

theorem drop_runLength (p : Char → Bool) (t : Text) : t.drop (runLength p t) = t.dropWhile p := by
  conv => lhs; arg 2; rw [← List.takeWhile_append_dropWhile (p := p) (l := t)]
  exact List.drop_left

end Lexeme

/-! ### Cuts -/

/-- The same tokens but for the end of the input, in a text that goes on. Where they stand does not
matter, nor does the gap before the first of them. -/
inductive Recut : List Token → List Token → Prop
  | nil {e : Token} (he : e.kind = .eof) : Recut [e] []
  | cons {t t' : Token} {ts ts' : List Token} (hkind : t'.kind = t.kind) (htext : t'.text = t.text)
    (hk : t.kind ≠ .eof) (hgap : ∀ u ∈ ts'.head?, ∀ v ∈ ts.head?, u.gap = v.gap) (h : Recut ts ts') :
    Recut (t :: ts) (t' :: ts')

section Blanks

open Lexeme

theorem lexFrom_trivia {c : Char} {t : Text} {l : Lexeme} {n : Nat}
    (h : longest (c :: t) = some (l, n + 1)) (hl : l = .blanks ∨ l = .lineComment ∨ l = .blockComment)
    (offset : Nat) (gap : Text) :
    lexFrom offset gap (c :: t) = lexFrom (offset + Text.byteLength ((c :: t).take (n + 1)))
      (gap ++ (c :: t).take (n + 1)) (t.drop n) := by
  rw [lexFrom.eq_def]
  dsimp only
  rw [h]
  rcases hl with rfl | rfl | rfl <;> rfl

theorem lexFrom_token {c : Char} {t : Text} {k : TokenKind} {n : Nat}
    (h : longest (c :: t) = some (.token k, n + 1)) (offset : Nat) (gap : Text) :
    lexFrom offset gap (c :: t) =
      (lexFrom (offset + Text.byteLength ((c :: t).take (n + 1))) [] (t.drop n)).map fun ts =>
        ⟨k, gap, (c :: t).take (n + 1), offset⟩ :: ts := by
  rw [lexFrom.eq_def]
  dsimp only
  rw [h]
  rfl

theorem lexFrom_eq (offset : Nat) (gap t : Text) :
    lexFrom offset gap t = lexFrom (offset + Text.byteLength (t.takeWhile isBlankChar))
      (gap ++ t.takeWhile isBlankChar) (t.dropWhile isBlankChar) := by
  cases t with
  | nil => rw [List.takeWhile_nil, List.dropWhile_nil, List.append_nil]; rfl
  | cons c t =>
    rw [List.takeWhile_cons, List.dropWhile_cons]
    split
    · next hc =>
      rw [lexFrom_trivia (longest_blanks hc t) (.inl rfl), List.take_succ_cons, take_runLength,
        drop_runLength]
    · rw [List.append_nil]
      rfl

/-- Blanks can be passed before the lexer starts. -/
theorem lexFrom_blanks {bs : Text} (hbs : ∀ c ∈ bs, isBlankChar c) (offset : Nat) (gap t : Text) :
    lexFrom offset gap (bs ++ t) = lexFrom (offset + Text.byteLength bs) (gap ++ bs) t := by
  rw [lexFrom_eq, lexFrom_eq _ _ t, List.takeWhile_append_of_pos hbs, List.dropWhile_append_of_pos hbs,
    Text.byteLength_append, Nat.add_assoc, List.append_assoc]

end Blanks

/-- However the text goes on behind a line feed, and wherever it stands, its tokens but for the end of the
input come first there. Behind the same gap they have the same gaps. -/
def Recuts (gap t : Text) (ts : List Token) : Prop :=
  ∀ offset' gap' rest, ∃ ts' offset'' gap'', Recut ts ts' ∧
    (gap' = gap → ∀ u ∈ ts'.head?, ∀ v ∈ ts.head?, u.gap = v.gap) ∧
    lexFrom offset' gap' (t ++ '\n' :: rest) = (lexFrom offset'' gap'' rest).map (ts' ++ ·)

namespace Recuts

variable {gap : Text} {c : Char} {t : Text} {n : Nat} {ts : List Token}

theorem nil {e : Token} (he : e.kind = .eof) : Recuts gap [] [e] := by
  intro offset' gap' rest
  have hfeed : lexFrom offset' gap' ('\n' :: rest) =
      lexFrom (offset' + Text.byteLength ['\n']) (gap' ++ ['\n']) rest :=
    lexFrom_blanks (List.forall_mem_singleton.2 rfl) offset' gap' rest
  refine ⟨[], offset' + Text.byteLength ['\n'], gap' ++ ['\n'], .nil he, fun _ => nofun, ?_⟩
  rw [List.nil_append, hfeed]
  cases lexFrom (offset' + Text.byteLength ['\n']) (gap' ++ ['\n']) rest <;> rfl

theorem blanks {bs : Text} (hbs : ∀ c ∈ bs, Lexeme.isBlankChar c) (h : Recuts (gap ++ bs) t ts) :
    Recuts gap (bs ++ t) ts := by
  intro offset' gap' rest
  obtain ⟨ts', offset'', gap'', hts, hgap, hrest⟩ :=
    h (offset' + Text.byteLength bs) (gap' ++ bs) rest
  refine ⟨ts', offset'', gap'', hts, fun heq => hgap (heq ▸ rfl), ?_⟩
  rw [List.append_assoc, lexFrom_blanks hbs, hrest]

theorem comment {l : Lexeme} (hn : Lexeme.longest (c :: t) = some (l, n + 1))
    (hl : l = .lineComment ∨ l = .blockComment)
    (h : Recuts (gap ++ (c :: t).take (n + 1)) (t.drop n) ts) : Recuts gap (c :: t) ts := by
  intro offset' gap' rest
  have hn' := Lexeme.longest_lineFeed hn (by rcases hl with rfl | rfl <;> nofun)
    (by rcases hl with rfl | rfl <;> nofun) rest
  obtain ⟨htake, hdrop⟩ := Lexeme.take_lineFeed hn rest
  obtain ⟨ts', offset'', gap'', hts, hgap, hrest⟩ :=
    h (offset' + Text.byteLength ((c :: t).take (n + 1))) (gap' ++ (c :: t).take (n + 1)) rest
  refine ⟨ts', offset'', gap'', hts, fun heq => hgap (heq ▸ rfl), ?_⟩
  rw [List.cons_append] at hn' htake ⊢
  rw [lexFrom_trivia hn' (.inr hl), htake, hdrop, hrest]

theorem token {k : TokenKind} {offset : Nat}
    (hn : Lexeme.longest (c :: t) = some (.token k, n + 1)) (h : Recuts [] (t.drop n) ts) :
    Recuts gap (c :: t) (⟨k, gap, (c :: t).take (n + 1), offset⟩ :: ts) := by
  intro offset' gap' rest
  have hn' := Lexeme.longest_lineFeed hn nofun nofun rest
  obtain ⟨htake, hdrop⟩ := Lexeme.take_lineFeed hn rest
  obtain ⟨ts', offset'', gap'', hts, hgap, hrest⟩ :=
    h (offset' + Text.byteLength ((c :: t).take (n + 1))) [] rest
  refine ⟨⟨k, gap', (c :: t).take (n + 1), offset'⟩ :: ts', offset'', gap'',
    .cons rfl rfl (Lexed.ne_eof hn) (hgap rfl) hts, ?_, ?_⟩
  · rintro rfl u hu v hv
    cases hu
    cases hv
    rfl
  · rw [List.cons_append] at hn' htake ⊢
    rw [lexFrom_token hn', htake, hdrop, hrest]
    cases lexFrom offset'' gap'' rest <;> rfl

end Recuts

theorem recuts_of_lexFrom {offset : Nat} {gap t : Text} {ts : List Token}
    (h : lexFrom offset gap t = .ok ts) : Recuts gap t ts := by
  fun_induction lexFrom offset gap t generalizing ts with
  | case1 offset gap =>
    cases h
    exact .nil rfl
  | case2 => cases h
  | case3 => cases h
  | case4 offset gap c cs n text next hn =>
    rename_i ih
    have htext : c :: cs = text ++ cs.drop n := (List.take_append_drop (n + 1) (c :: cs)).symm
    have hblanks : text = (c :: cs).takeWhile Lexeme.isBlankChar := by
      obtain ⟨len, hm, hlen⟩ := Lexeme.mem_rules_of_longest hn
      obtain rfl : len = Lexeme.runLength Lexeme.isBlankChar := Lexeme.rule_of_mem hm
      rw [← Lexeme.take_runLength, hlen]
    rw [htext]
    refine .blanks (fun d hd => ?_) (ih h)
    rw [hblanks] at hd
    exact List.mem_takeWhile_imp hd
  | case5 offset gap c cs n text next hn =>
    rename_i ih
    exact .comment hn (.inl rfl) (ih h)
  | case6 offset gap c cs n text next hn =>
    rename_i ih
    exact .comment hn (.inr rfl) (ih h)
  | case7 => cases h
  | case8 offset gap c cs n text next kind hn =>
    rename_i ih
    cases hrest : lexFrom next [] (cs.drop n) with
    | error e => rw [hrest] at h; cases h
    | ok tokens =>
      rw [hrest] at h
      cases h
      exact .token hn (ih hrest)

/-- **Lexing line by line.** The tokens of texts in lines, but for the ends of the input, are those of all
of them in a row. -/
theorem lexFrom_lines {ss : List Text} {tss : List (List Token)}
    (h : List.Forall₂ (fun s ts => lex s = .ok ts) ss tss) (offset : Nat) (gap last : Text) :
    ∃ tss' offset' gap', List.Forall₂ Recut tss tss' ∧
      lexFrom offset gap (ss.flatMap (· ++ ['\n']) ++ last) =
        (lexFrom offset' gap' last).map (tss'.flatten ++ ·) := by
  induction h generalizing offset gap with
  | nil =>
    refine ⟨[], offset, gap, .nil, ?_⟩
    rw [List.flatMap_nil, List.nil_append]
    cases lexFrom offset gap last <;> rfl
  | @cons s ts ss tss hs h ih =>
    obtain ⟨ts', offset', gap', hts, -, hlex⟩ :=
      recuts_of_lexFrom hs offset gap (ss.flatMap (· ++ ['\n']) ++ last)
    obtain ⟨tss', offset'', gap'', htss, hrest⟩ := ih offset' gap'
    refine ⟨ts' :: tss', offset'', gap'', .cons hts htss, ?_⟩
    rw [List.flatMap_cons, List.append_assoc, List.append_assoc, List.singleton_append, hlex, hrest]
    cases lexFrom offset'' gap'' last with
    | error e => rfl
    | ok ts => exact congrArg Except.ok (List.append_assoc ..).symm

end JavaSource
