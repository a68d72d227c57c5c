import JavaSource.Proofs.LexedLines

/-!
# Matches in a text that ends behind them

What a rule matches does not hang on what stands behind the match: in the text that ends there, or
anywhere later, it matches the same (`Stable`).  So the longest match at a place stays the longest
when the text is cut off behind it (`longest_of_append`).  The one rule that looks at the whole text
is that for comments without a close, which is the longest match wherever it matches.
-/

namespace JavaSource

namespace Lexeme

/-- A rule whose match stays when the text is cut off behind it. -/
def Stable (len : Text → Nat) : Prop :=
  ∀ u v : Text, len (u ++ v) ≤ u.length → len u = len (u ++ v)

/-- A rule that matches as far as the text goes when the text is cut off within its match. -/
def Greedy (len : Text → Nat) : Prop :=
  ∀ u v : Text, len u = min (len (u ++ v)) u.length

section Combinations

variable {f g : Text → Nat}

theorem Greedy.stable (hf : Greedy f) : Stable f := fun u v h => (hf u v).trans (Nat.min_eq_left h)

/-- A character of a class, then a match. -/
theorem Greedy.cons {p : Char → Bool} (hg : Greedy g) (hnil : f [] = 0)
    (hcons : ∀ c t, f (c :: t) = if p c then 1 + g t else 0) : Greedy f := by
  intro u v
  cases u with
  | nil => rw [hnil, List.length_nil, Nat.min_zero]
  | cons c u =>
    rw [List.cons_append, hcons, hcons, List.length_cons]
    split
    · rw [hg u v]
      omega
    · rw [Nat.zero_min]

/-- One match, then another where it ends. -/
theorem Stable.append (hf : Stable f) (hg : Stable g) : Stable fun t => f t + g (t.drop (f t)) := by
  intro u v (h : f (u ++ v) + g ((u ++ v).drop (f (u ++ v))) ≤ u.length)
  have hle : f (u ++ v) ≤ u.length := Nat.le_trans (Nat.le_add_right _ _) h
  rw [List.drop_append_of_le_length hle] at h
  have hrest := hg (u.drop (f (u ++ v))) v (by rw [List.length_drop]; omega)
  simp only [hf u v hle, List.drop_append_of_le_length hle, hrest]

/-- One match, then another, if there is the first. -/
theorem Stable.guarded (hf : Stable f) (hg : Stable g) :
    Stable fun t => if f t = 0 then 0 else f t + g (t.drop (f t)) := by
  intro u v h
  by_cases hzero : f (u ++ v) = 0
  · have hu : f u = 0 := (hf u v (hzero ▸ Nat.zero_le _)).trans hzero
    simp only [hu, hzero, if_true]
  · simp only [if_neg hzero] at h ⊢
    have hu : f u ≠ 0 := hf u v (Nat.le_trans (Nat.le_add_right _ _) h) ▸ hzero
    rw [if_neg hu]
    exact hf.append hg u v h

/-- One match, then another, if there is the second. -/
theorem Stable.guarding (hf : Greedy f) (hg : Stable g) (hnil : g [] = 0) :
    Stable fun t => if g (t.drop (f t)) = 0 then 0 else f t + g (t.drop (f t)) := by
  intro u v h
  by_cases hle : f (u ++ v) ≤ u.length
  · have hu := hf.stable u v hle
    simp only [hu, List.drop_append_of_le_length hle] at h ⊢
    by_cases hzero : g (u.drop (f (u ++ v)) ++ v) = 0
    · have hrest : g (u.drop (f (u ++ v))) = 0 := (hg _ v (hzero ▸ Nat.zero_le _)).trans hzero
      rw [if_pos hzero, if_pos hrest]
    · rw [if_neg hzero] at h ⊢
      rw [hg _ v (by rw [List.length_drop]; omega), if_neg hzero]
  · -- the first match goes on behind the cut, so there is no second on either side of it
    have hu : f u = u.length := by rw [hf u v]; omega
    have hzero : g ((u ++ v).drop (f (u ++ v))) = 0 := by
      by_contra hne
      simp only [if_neg hne] at h
      omega
    simp only [hu, List.drop_length, hnil, hzero, if_true]

theorem Stable.max (hf : Stable f) (hg : Stable g) : Stable fun t => Nat.max (f t) (g t) := by
  intro u v h
  have hle := Nat.max_le.1 h
  exact congrArg₂ Nat.max (hf u v hle.1) (hg u v hle.2)

/-- A choice by whether the rule `f` matches. -/
theorem Stable.ite {k : Text → Nat} (hf : Greedy f) (hg : Stable g) (hk : Stable k)
    (hnil : g [] = 0) : Stable fun t => if f t = 0 then g t else k t := by
  intro u v h
  cases u with
  | nil =>
    have hf : f [] = 0 := (hf [] v).trans (Nat.min_zero _)
    simp only [hf, hnil, if_true]
    exact (Nat.le_zero.1 h).symm
  | cons c u =>
    have hu : f (c :: u) = 0 ↔ f (c :: u ++ v) = 0 := by
      rw [hf (c :: u) v, List.length_cons]
      omega
    simp only [hu] at h ⊢
    split at h
    · next hzero => rw [if_pos hzero, if_pos hzero, hg _ v h]
    · next hzero => rw [if_neg hzero, if_neg hzero, hk _ v h]

/-- A rule that matches two characters at least, where it matches. -/
theorem Stable.of_two (htwo : ∀ t, f t = 0 ∨ 2 ≤ f t) (hnil : f [] = 0) (hone : ∀ c, f [c] = 0)
    (h : ∀ c d u v, f (c :: d :: (u ++ v)) ≤ u.length + 2 →
      f (c :: d :: u) = f (c :: d :: (u ++ v))) : Stable f := by
  intro u v hle
  rcases u with _ | ⟨c, _ | ⟨d, u⟩⟩
  · exact hnil.trans (Nat.le_zero.1 hle).symm
  · rcases htwo ([c] ++ v) with hzero | htwo
    · rw [hone, hzero]
    · exact absurd (Nat.le_trans htwo hle) (by simp)
  · exact h c d u v hle

end Combinations

theorem greedy_runLength (p : Char → Bool) : Greedy (runLength p) := by
  intro u v
  induction u with
  | nil => rw [List.length_nil, Nat.min_zero]; rfl
  | cons c u ih =>
    unfold runLength at ih ⊢
    rw [List.cons_append, List.takeWhile_cons, List.takeWhile_cons]
    split
    · rw [List.length_cons, List.length_cons, List.length_cons, ih, Nat.add_min_add_right]
    · rw [List.length_nil, Nat.zero_min]

theorem greedy_optionalChar (chars : List Char) : Greedy (optionalChar chars) := by
  intro u v
  cases u with
  | nil => rw [List.length_nil, Nat.min_zero]; rfl
  | cons c u =>
    rw [List.cons_append, optionalChar, optionalChar, List.length_cons]
    split <;> omega

theorem greedy_digitsLength : Greedy digitsLength :=
  (greedy_runLength isDigitPart).cons (p := Char.isDigit) rfl fun _ _ => rfl

theorem greedy_identifierLength : Greedy identifierLength :=
  (greedy_runLength isIdentifierPart).cons (p := isIdentifierStart) rfl fun _ _ => rfl

theorem stable_wordLength (w : Text) : Stable (wordLength w) := by
  intro u v h
  have hiff : w <+: u ↔ w <+: u ++ v := by
    refine ⟨fun hw => hw.trans (List.prefix_append u v), fun hw => ?_⟩
    rw [wordLength, if_pos (List.isPrefixOf_iff_prefix.2 hw)] at h
    exact List.prefix_of_prefix_length_le hw (List.prefix_append u v) h
  simp only [wordLength, List.isPrefixOf_iff_prefix, hiff]

/-- A match behind `k` characters that stands only with them. -/
theorem Stable.behind {g : Text → Nat} (hg : Stable g) {k : Nat} {u v : Text}
    (h : (if g (u ++ v) = 0 then 0 else k + g (u ++ v)) ≤ u.length + k) :
    (if g u = 0 then 0 else k + g u) = if g (u ++ v) = 0 then 0 else k + g (u ++ v) := by
  have hu : g u = g (u ++ v) := by
    refine hg u v ?_
    split at h <;> omega
  rw [hu]

/-! ### Numbers -/

/-- The digits after a base and the suffix of a long literal, without the base. -/
def afterBase (part : Char → Bool) (t : Text) : Nat :=
  if runLength part t = 0 then 0
  else runLength part t + optionalChar ['l', 'L'] (t.drop (runLength part t))

theorem stable_afterBase (part : Char → Bool) : Stable (afterBase part) :=
  (greedy_runLength part).stable.guarded (greedy_optionalChar ['l', 'L']).stable

theorem basedLength_eq (part : Char → Bool) (t : Text) :
    basedLength part t = if afterBase part t = 0 then 0 else 2 + afterBase part t := by
  simp only [basedLength, afterBase]
  split
  · rfl
  · rw [if_neg (by omega), Nat.add_assoc]

theorem stable_withBaseLength : Stable withBaseLength := by
  have htwo {part : Char → Bool} (r : Text) : basedLength part r = 0 ∨ 2 ≤ basedLength part r := by
    rw [basedLength_eq]
    split <;> omega
  refine .of_two (fun t => ?_) rfl (fun c => by simp [withBaseLength]) fun c d u v => ?_
  · unfold withBaseLength
    split
    · exact htwo _
    · exact htwo _
    · exact htwo _
    · exact htwo _
    · exact .inl rfl
  · have hbehind {part : Char → Bool} (h : basedLength part (u ++ v) ≤ u.length + 2) :
        basedLength part u = basedLength part (u ++ v) := by
      rw [basedLength_eq, basedLength_eq] at *
      exact (stable_afterBase part).behind h
    unfold withBaseLength
    split <;> intro h <;> simp_all

theorem stable_intLength : Stable intLength :=
  (greedy_digitsLength.stable.guarded (greedy_optionalChar ['l', 'L']).stable).max
    stable_withBaseLength

/-- A sign, if there is one, and digits. -/
def afterExponent (t : Text) : Nat :=
  if runLength Char.isDigit (t.drop (optionalChar ['+', '-'] t)) = 0 then 0
  else optionalChar ['+', '-'] t + runLength Char.isDigit (t.drop (optionalChar ['+', '-'] t))

theorem stable_afterExponent : Stable afterExponent :=
  .guarding (greedy_optionalChar ['+', '-']) (greedy_runLength Char.isDigit).stable rfl

theorem stable_exponentLength : Stable exponentLength := by
  have heq (c : Char) (r : Text) : exponentLength (c :: r) =
      if c = 'e' ∨ c = 'E' then if afterExponent r = 0 then 0 else 1 + afterExponent r else 0 := by
    simp only [exponentLength, afterExponent]
    split
    · split
      · rfl
      · rw [if_neg (by omega), Nat.add_assoc]
    · rfl
  intro u v h
  cases u with
  | nil => exact (Nat.le_zero.1 h).symm
  | cons c r =>
    rw [List.cons_append, heq, List.length_cons] at h
    rw [List.cons_append, heq, heq]
    split at h
    · next hc => rw [if_pos hc, if_pos hc, stable_afterExponent.behind h]
    · next hc => rw [if_neg hc, if_neg hc]

theorem stable_floatTailLength : Stable floatTailLength :=
  stable_exponentLength.append (greedy_optionalChar ['f', 'F', 'd', 'D']).stable

/-- A fraction in front of which there are no digits. -/
def afterPoint (t : Text) : Nat :=
  if digitsLength t = 0 then 0 else digitsLength t + floatTailLength (t.drop (digitsLength t))

theorem stable_afterPoint : Stable afterPoint :=
  greedy_digitsLength.stable.guarded stable_floatTailLength

/-- A point and a fraction. -/
def pointLength : Text → Nat
  | '.' :: fraction => if afterPoint fraction = 0 then 0 else 1 + afterPoint fraction
  | _ => 0

/-- What makes the digits before it a floating-point literal. -/
def afterDigits : Text → Nat
  | '.' :: fraction =>
    1 + (runLength isDigitPart fraction +
      floatTailLength (fraction.drop (runLength isDigitPart fraction)))
  | t => floatTailLength t

theorem pointLength_cons {c : Char} (hc : c ≠ '.') (t : Text) : pointLength (c :: t) = 0 := by
  rw [pointLength]
  exact fun fraction h => hc (List.cons.inj h).1

theorem afterDigits_cons {c : Char} (hc : c ≠ '.') (t : Text) :
    afterDigits (c :: t) = floatTailLength (c :: t) := by
  rw [afterDigits]
  exact fun fraction h => hc (List.cons.inj h).1

theorem stable_pointLength : Stable pointLength := by
  intro u v h
  cases u with
  | nil => exact (Nat.le_zero.1 h).symm
  | cons c u =>
    by_cases hc : c = '.'
    · subst hc
      exact stable_afterPoint.behind h
    · rw [List.cons_append, pointLength_cons hc, pointLength_cons hc]

theorem stable_afterDigits : Stable afterDigits := by
  intro u v h
  cases u with
  | nil => exact (Nat.le_zero.1 h).symm
  | cons c u =>
    by_cases hc : c = '.'
    · subst hc
      have hrest := (greedy_runLength isDigitPart).stable.append stable_floatTailLength u v
      rw [List.cons_append, afterDigits, List.length_cons] at h
      exact congrArg (1 + ·) (hrest (by dsimp only; omega))
    · rw [List.cons_append, afterDigits_cons hc] at h ⊢
      rw [afterDigits_cons hc]
      exact stable_floatTailLength (c :: u) v h

theorem floatLength_eq (t : Text) :
    floatLength t = if digitsLength t = 0 then pointLength t else
      if afterDigits (t.drop (digitsLength t)) = 0 then 0
      else digitsLength t + afterDigits (t.drop (digitsLength t)) := by
  simp only [floatLength]
  generalize hn : digitsLength t = n
  generalize hr : t.drop n = r
  cases n with
  | zero =>
    obtain rfl : t = r := hr
    rcases t with _ | ⟨c, t⟩
    · rfl
    · by_cases hc : c = '.'
      · subst hc
        simp only [if_true, pointLength, afterPoint]
        split
        · rfl
        · rw [if_neg (by omega), Nat.add_assoc]
      · simp [pointLength_cons hc, hc]
  | succ n =>
    rw [if_neg (Nat.succ_ne_zero n)]
    rcases r with _ | ⟨c, r⟩
    · rfl
    · by_cases hc : c = '.'
      · subst hc
        rw [afterDigits, if_neg (by omega)]
        change n + 1 + 1 + runLength isDigitPart r + _ = _
        omega
      · simp [afterDigits_cons hc, hc]

theorem stable_floatLength : Stable floatLength := by
  have h := Stable.ite greedy_digitsLength stable_pointLength
    (.guarding greedy_digitsLength stable_afterDigits rfl) rfl
  simpa only [Stable, floatLength_eq] using h

/-! ### Literals in quotes and comments -/

/-- The closing quote is counted, and without characters before it there is nothing else. -/
theorem quotedLength_pos {quote : Char} {t : Text} {k n : Nat}
    (h : quotedLength quote t = some (k, n)) : 0 < n ∧ (k = 0 → n = 1) := by
  unfold quotedLength at h
  split at h
  · cases h
  · split at h
    · cases h
    · obtain ⟨r, -, heq⟩ := Option.map_eq_some_iff.1 h
      cases heq
      exact ⟨Nat.succ_pos _, nofun⟩
  · split at h
    · cases h
      exact ⟨Nat.one_pos, fun _ => rfl⟩
    · split at h
      · cases h
      · obtain ⟨r, -, heq⟩ := Option.map_eq_some_iff.1 h
        cases heq
        exact ⟨Nat.succ_pos _, nofun⟩

/-- The closing quote is the first one, however the text goes on. -/
theorem quotedLength_append {quote : Char} (hslash : quote ≠ '\\') {u : Text} {r : Nat × Nat}
    (h : quotedLength quote u = some r) (v : Text) : quotedLength quote (u ++ v) = some r := by
  fun_induction quotedLength quote u generalizing r with
  | case1 => cases h
  | case2 => cases h
  | case3 c rest hc ih =>
    obtain ⟨r', hrest, rfl⟩ := Option.map_eq_some_iff.1 h
    rw [List.cons_append, List.cons_append, quotedLength, if_neg hc, ih hrest]
    rfl
  | case4 rest _ =>
    rw [List.cons_append, quotedLength, if_pos rfl]
    · exact h
    · exact fun _ _ hq => absurd hq hslash
  | case5 => cases h
  | case6 c rest _ hc hstop ih =>
    obtain ⟨r', hrest, rfl⟩ := Option.map_eq_some_iff.1 h
    rw [List.cons_append, quotedLength, if_neg hc, if_neg hstop, ih hrest]
    · rfl
    · exact fun _ _ hq => absurd (.inl hq) hstop

/-- A literal that is closed within a text is so without what follows. -/
theorem quotedLength_of_append {quote : Char} (hslash : quote ≠ '\\') {u v : Text} {k n : Nat}
    (h : quotedLength quote (u ++ v) = some (k, n)) (hn : n ≤ u.length) :
    quotedLength quote u = some (k, n) := by
  fun_induction quotedLength quote u generalizing k n with
  | case1 => exact absurd (quotedLength_pos h).1 (Nat.not_lt.2 hn)
  | case2 => rw [List.cons_append, List.cons_append, quotedLength, if_pos rfl] at h; cases h
  | case3 c rest hc ih =>
    rw [List.cons_append, List.cons_append, quotedLength, if_neg hc] at h
    obtain ⟨⟨k', n'⟩, hrest, heq⟩ := Option.map_eq_some_iff.1 h
    cases heq
    rw [ih hrest (by simpa using hn)]
    rfl
  | case4 rest _ =>
    rw [List.cons_append, quotedLength, if_pos rfl] at h
    · exact h
    · exact fun _ _ hq => absurd hq hslash
  | case5 c rest hr hc hstop =>
    by_cases hslash' : c = '\\'
    · -- an escape that the cut parts is longer than what is before the cut
      subst hslash'
      cases rest with
      | cons d rest => exact (hr d rest rfl rfl).elim
      | nil =>
        cases v with
        | nil =>
          rw [List.append_nil, quotedLength, if_neg hc, if_pos hstop] at h
          · cases h
          · exact hr
        | cons d v =>
          rw [List.cons_append, List.nil_append, quotedLength] at h
          split at h
          · cases h
          · obtain ⟨r, -, heq⟩ := Option.map_eq_some_iff.1 h
            cases heq
            simp at hn
    · rw [List.cons_append, quotedLength, if_neg hc, if_pos hstop] at h
      · cases h
      · exact fun _ _ hq => absurd hq hslash'
  | case6 c rest _ hc hstop ih =>
    rw [List.cons_append, quotedLength, if_neg hc, if_neg hstop] at h
    · obtain ⟨⟨k', n'⟩, hrest, heq⟩ := Option.map_eq_some_iff.1 h
      cases heq
      rw [ih hrest (by simpa using hn)]
      rfl
    · exact fun _ _ hq => absurd (.inl hq) hstop

theorem quotedLength_eq {quote : Char} (hslash : quote ≠ '\\') {u v : Text}
    (h : ∀ k n, quotedLength quote (u ++ v) = some (k, n) → n ≤ u.length) :
    quotedLength quote u = quotedLength quote (u ++ v) := by
  cases huv : quotedLength quote (u ++ v) with
  | some r => exact quotedLength_of_append hslash huv (h _ _ huv)
  | none =>
    cases hu : quotedLength quote u with
    | none => rfl
    | some r => rw [quotedLength_append hslash hu v] at huv; cases huv

theorem stable_stringLength : Stable stringLength := by
  intro u v h
  cases u with
  | nil => exact (Nat.le_zero.1 h).symm
  | cons c u =>
    by_cases hc : c = '"'
    · subst hc
      rw [List.cons_append, stringLength] at h ⊢
      rw [stringLength, quotedLength_eq (u := u) (v := v) (by decide)]
      intro k n hq
      rw [hq] at h
      exact Nat.le_of_succ_le_succ h
    · simp [stringLength, hc]

theorem stable_charLength : Stable charLength := by
  intro u v h
  rcases u with _ | ⟨c, u⟩
  · exact (Nat.le_zero.1 h).symm
  by_cases hc : c = '\''
  · subst hc
    rw [List.cons_append, charLength] at h
    rw [List.cons_append, charLength, charLength]
    cases u with
    | nil =>
      -- the opening quote alone is no literal, and a literal has three characters at least
      rw [List.nil_append] at h ⊢
      revert h
      split
      · next k n hq =>
        have hpos := quotedLength_pos hq
        rw [List.length_singleton]
        split
        · exact fun _ => rfl
        · omega
      · exact fun _ => rfl
    | cons d u =>
      rw [quotedLength_eq (u := d :: u) (v := v) (by decide)]
      intro k n hq
      have hpos := quotedLength_pos hq
      rw [hq] at h
      dsimp only at h
      rw [List.length_cons] at h ⊢
      split at h
      · next hk => rw [hpos.2 hk]; exact Nat.succ_pos _
      · exact Nat.le_of_succ_le_succ h
  · simp [charLength, hc]

theorem lineCommentLength_eq_zero {c d : Char} (h : ¬(c = '/' ∧ d = '/')) (t : Text) :
    lineCommentLength (c :: d :: t) = 0 := by
  unfold lineCommentLength
  split
  · next heq => cases heq; exact absurd ⟨rfl, rfl⟩ h
  · rfl

theorem blockCommentLength_eq_zero {c d : Char} (h : ¬(c = '/' ∧ d = '*')) (t : Text) :
    blockCommentLength (c :: d :: t) = 0 := by
  unfold blockCommentLength
  split
  · next heq => cases heq; exact absurd ⟨rfl, rfl⟩ h
  · rfl

theorem stable_lineCommentLength : Stable lineCommentLength := by
  refine .of_two (fun t => ?_) rfl (fun c => by simp [lineCommentLength]) fun c d u v h => ?_
  · unfold lineCommentLength
    split <;> omega
  · by_cases hopen : c = '/' ∧ d = '/'
    · obtain ⟨rfl, rfl⟩ := hopen
      rw [lineCommentLength] at h
      rw [lineCommentLength, lineCommentLength, (greedy_runLength isInLine).stable u v (by omega)]
    · rw [lineCommentLength_eq_zero hopen, lineCommentLength_eq_zero hopen]

/-- A close within a text is there without what follows. -/
theorem splitClose_of_append {u v body others : Text}
    (h : Text.splitClose (u ++ v) = (body, some others)) (hle : body.length + 2 ≤ u.length) :
    ∃ others', Text.splitClose u = (body, some others') := by
  have htext := Text.splitClose_append h
  have hprefix : body ++ ['*', '/'] <+: u ++ v := ⟨others, by rw [htext]; simp⟩
  have hbody : body ++ ['*', '/'] <+: u :=
    List.prefix_of_prefix_length_le hprefix (List.prefix_append u v) (by simpa using hle)
  obtain ⟨others', rfl⟩ := hbody
  refine ⟨others', ?_⟩
  simpa using Text.splitClose_eq h others'

theorem stable_blockCommentLength : Stable blockCommentLength := by
  refine .of_two (fun t => ?_) rfl (fun c => by simp [blockCommentLength]) fun c d u v h => ?_
  · unfold blockCommentLength
    split
    · split <;> omega
    · omega
  · by_cases hopen : c = '/' ∧ d = '*'
    · obtain ⟨rfl, rfl⟩ := hopen
      rw [blockCommentLength] at h
      rw [blockCommentLength, blockCommentLength]
      cases huv : Text.splitClose (u ++ v) with
      | mk body others =>
        cases others with
        | some others =>
          rw [huv] at h
          dsimp only at h
          obtain ⟨others', hu⟩ := splitClose_of_append huv (by omega)
          rw [hu]
        | none =>
          cases hu : Text.splitClose u with
          | mk body' others' =>
            cases others' with
            | none => rfl
            | some others' =>
              -- a close before the cut would be one of the whole text
              have huv' := Text.splitClose_eq hu (others' ++ v)
              rw [Text.splitClose_append hu, List.append_assoc, List.cons_append, List.cons_append,
                huv'] at huv
              cases huv
    · rw [blockCommentLength_eq_zero hopen, blockCommentLength_eq_zero hopen]

/-- A comment without a close before the cut has none, or one behind the cut. -/
theorem unclosedCommentLength_append {u : Text} (h : unclosedCommentLength u ≠ 0) (v : Text) :
    unclosedCommentLength (u ++ v) ≠ 0 ∨ u.length < blockCommentLength (u ++ v) := by
  unfold unclosedCommentLength at h
  split at h
  · next r =>
    have hnone : (Text.splitClose r).2 = none := by
      by_contra hsome
      rw [if_neg (by simpa using hsome)] at h
      exact h rfl
    rw [List.cons_append, List.cons_append]
    cases hrv : Text.splitClose (r ++ v) with
    | mk body others =>
      cases others with
      | none =>
        refine .inl ?_
        rw [unclosedCommentLength, hrv]
        dsimp only [Option.isNone]
        rw [if_pos rfl]
        omega
      | some others =>
        refine .inr ?_
        rw [blockCommentLength, hrv]
        by_contra hle
        simp only [List.length_cons] at hle
        obtain ⟨others', hr⟩ := splitClose_of_append hrv (by omega)
        rw [hr] at hnone
        cases hnone
  · exact absurd rfl h

/-! ### The longest match -/

/-- A rule is stable, but for the one for comments without a close. -/
theorem stable_of_mem {rule : Lexeme × (Text → Nat)} (h : rule ∈ rules) :
    rule = (.unclosedComment, unclosedCommentLength) ∨ Stable rule.2 := by
  simp only [rules, List.mem_append, List.mem_cons, List.not_mem_nil, or_false,
    List.mem_filterMap] at h
  rcases h with ((rfl | rfl | rfl | rfl) | ⟨k, -, hk⟩) | rfl | rfl | rfl | rfl | rfl
  · exact .inr (greedy_runLength _).stable
  · exact .inr stable_lineCommentLength
  · exact .inr stable_blockCommentLength
  · exact .inl rfl
  · obtain ⟨w, -, rfl⟩ := Option.map_eq_some_iff.1 hk
    exact .inr (stable_wordLength w)
  · exact .inr stable_intLength
  · exact .inr stable_floatLength
  · exact .inr stable_stringLength
  · exact .inr stable_charLength
  · exact .inr greedy_identifierLength.stable

/-- The best match is no shorter than that of any rule. -/
theorem le_foldl_better {t : Text} {l : Lexeme} {n : Nat} {rs : List (Lexeme × (Text → Nat))}
    {best : Option (Lexeme × Nat)} (h : rs.foldl (better t) best = some (l, n)) :
    (∀ b ∈ best, b.2 ≤ n) ∧ ∀ rule ∈ rs, rule.2 t ≤ n := by
  induction rs generalizing best with
  | nil =>
    cases h
    exact ⟨by rintro _ ⟨⟩; exact Nat.le_refl n, nofun⟩
  | cons rule rs ih =>
    obtain ⟨hbest, hrules⟩ := ih h
    have hstep : (∀ b ∈ best, b.2 ≤ n) ∧ rule.2 t ≤ n := by
      unfold better at hbest
      cases best with
      | none =>
        refine ⟨nofun, ?_⟩
        by_cases hzero : rule.2 t = 0
        · exact hzero ▸ Nat.zero_le n
        · simpa [hzero] using hbest
      | some b =>
        by_cases hlt : b.2 < rule.2 t
        · have hle : rule.2 t ≤ n := by simpa [hlt] using hbest
          refine ⟨?_, hle⟩
          rintro _ ⟨⟩
          omega
        · have hle : b.2 ≤ n := by simpa [hlt] using hbest
          refine ⟨?_, by omega⟩
          rintro _ ⟨⟩
          exact hle
    exact ⟨hstep.1, List.forall_mem_cons.2 ⟨hstep.2, hrules⟩⟩

/-- There is no best match if no rule matches. -/
theorem foldl_better_eq_none {t : Text} {rs : List (Lexeme × (Text → Nat))}
    {best : Option (Lexeme × Nat)} :
    rs.foldl (better t) best = none ↔ best = none ∧ ∀ rule ∈ rs, rule.2 t = 0 := by
  induction rs generalizing best with
  | nil => simp
  | cons rule rs ih =>
    rw [List.foldl_cons, ih, List.forall_mem_cons, ← and_assoc]
    refine and_congr_left fun _ => ?_
    unfold better
    cases best with
    | none => simp
    | some b =>
      dsimp only
      split <;> simp

theorem le_of_longest {t : Text} {l : Lexeme} {n : Nat} (h : longest t = some (l, n))
    {rule : Lexeme × (Text → Nat)} (hrule : rule ∈ rules) : rule.2 t ≤ n :=
  (le_foldl_better h).2 rule hrule

/-- There is no longest match where no rule matches. -/
theorem longest_eq_none_iff {t : Text} : longest t = none ↔ ∀ rule ∈ rules, rule.2 t = 0 := by
  rw [longest, foldl_better_eq_none]
  exact and_iff_right rfl

/-- The longest match is within the text. -/
theorem longest_le_length {t : Text} {l : Lexeme} {n : Nat} (h : longest t = some (l, n)) :
    n ≤ t.length := by
  obtain ⟨len, hm, rfl⟩ := mem_rules_of_longest h
  exact le_length_of_mem hm t

/-- A rule that matches nothing does not win. -/
theorem longest_ne_zero {t : Text} {l : Lexeme} : longest t ≠ some (l, 0) := by
  intro h
  have hnone : longest t = none :=
    longest_eq_none_iff.2 fun rule hrule => Nat.le_zero.1 (le_of_longest h hrule)
  rw [h] at hnone
  cases hnone

/-- **The longest match is found in what it needs of the text.** -/
theorem longest_of_append {u v : Text} {l : Lexeme} {n : Nat}
    (h : longest (u ++ v) = some (l, n)) (hn : n ≤ u.length) : longest u = some (l, n) := by
  have hle {rule : Lexeme × (Text → Nat)} (hrule : rule ∈ rules) : rule.2 (u ++ v) ≤ u.length :=
    Nat.le_trans (le_of_longest h hrule) hn
  by_cases hclosed : unclosedCommentLength (u ++ v) = 0
  · have hu : unclosedCommentLength u = 0 := by
      by_contra hne
      rcases unclosedCommentLength_append hne v with hv | hv
      · exact hv hclosed
      · have hblock : blockCommentLength (u ++ v) ≤ u.length :=
          @hle (.blockComment, blockCommentLength) (by simp [rules])
        exact absurd hv (Nat.not_lt.2 hblock)
    rw [← h]
    refine (List.foldl_ext _ _ _ fun best rule hrule => ?_).symm
    have hlength : rule.2 (u ++ v) = rule.2 u := by
      rcases stable_of_mem hrule with rfl | hstable
      · exact hclosed.trans hu.symm
      · exact (hstable u v (hle hrule)).symm
    simp only [better, hlength]
  · -- the comment without a close takes all of the text, so that nothing is cut off
    rw [longest_unclosedComment hclosed] at h
    cases h
    rw [List.length_append] at hn
    obtain rfl : v = [] := List.eq_nil_of_length_eq_zero (by omega)
    rw [List.append_nil] at hclosed ⊢
    exact longest_unclosedComment hclosed

end Lexeme

end JavaSource
