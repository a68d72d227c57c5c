import JavaSource.Proofs.Truncated

/-!
# Where the rules for numbers and names stop

Only a letter or a digit can make a number or a name longer, but for the points and signs of
floating-point literals.  `Halts len t` says of a rule that no match goes on into `t` from in front
of it, and `HaltsAt len t` says so of the matches that go up to `t`: an exponent that is not whole
yet may take its sign from `t`.
-/

namespace JavaSource

namespace Lexeme

/-! ### Rules made of rules -/

/-- From no place in front of `t` does a match go on into `t`. -/
def Halts (len : Text → Nat) (t : Text) : Prop := ∀ u : Text, len (u ++ t) ≤ u.length

/-- A match that goes up to `t` does not go on into `t`. -/
def HaltsAt (len : Text → Nat) (t : Text) : Prop :=
  ∀ u : Text, len u = u.length → len (u ++ t) ≤ u.length

section Halts

variable {f g : Text → Nat} {t : Text}

theorem Halts.append (hf : Halts f t) (hg : Halts g t) :
    Halts (fun s => f s + g (s.drop (f s))) t := by
  intro u
  have hle := hf u
  have hrest := hg (u.drop (f (u ++ t)))
  rw [List.length_drop] at hrest
  dsimp only
  rw [List.drop_append_of_le_length hle]
  omega

theorem Halts.max (hf : Halts f t) (hg : Halts g t) : Halts (fun s => Nat.max (f s) (g s)) t :=
  fun u => Nat.max_le.2 ⟨hf u, hg u⟩

theorem Halts.mono (hg : Halts g t) (h : ∀ s, f s ≤ g s) : Halts f t :=
  fun u => Nat.le_trans (h _) (hg u)

/-- One match, then another where it ends. -/
theorem Halts.append_at (hf : Halts f t) (hstable : Stable f) (hg : HaltsAt g t) :
    HaltsAt (fun s => f s + g (s.drop (f s))) t := by
  intro u h
  have hle := hf u
  have hu : f u = f (u ++ t) := hstable u t hle
  dsimp only at h ⊢
  rw [hu] at h
  rw [List.drop_append_of_le_length hle]
  have hrest := hg (u.drop (f (u ++ t))) (by rw [List.length_drop]; omega)
  rw [List.length_drop] at hrest
  omega

theorem halts_runLength {p : Char → Bool} (h : ∀ c ∈ t.head?, p c = false) :
    Halts (runLength p) t := by
  intro u
  induction u with
  | nil =>
    cases t with
    | nil => exact Nat.le_refl 0
    | cons c t => rw [List.nil_append, runLength, List.takeWhile_cons_of_neg (by simp [h c rfl])]
  | cons c u ih =>
    unfold runLength at ih ⊢
    rw [List.cons_append, List.takeWhile_cons]
    split
    · exact Nat.succ_le_succ ih
    · exact Nat.zero_le _

theorem halts_optionalChar {chars : List Char} (h : ∀ c ∈ t.head?, chars.contains c = false) :
    Halts (optionalChar chars) t := by
  intro u
  cases u with
  | nil =>
    cases t with
    | nil => exact Nat.le_refl 0
    | cons c t =>
      rw [List.nil_append, optionalChar, h c rfl]
      exact Nat.le_refl 0
  | cons c u =>
    rw [List.cons_append, optionalChar, List.length_cons]
    split <;> omega

end Halts

/-! ### Characters of names and numbers -/

theorem isIdentifierPart_of_isDigit {c : Char} (h : c.isDigit) : isIdentifierPart c := by
  rw [isIdentifierPart, h, Bool.or_true]

theorem isIdentifierPart_of_isDigitPart {c : Char} (h : isDigitPart c) : isIdentifierPart c := by
  rcases Bool.or_eq_true_iff.1 h with h | h
  · exact isIdentifierPart_of_isDigit h
  · rw [beq_iff_eq.1 h]
    decide

theorem isAlpha_iff {c : Char} : c.isAlpha ↔ ('A' ≤ c ∧ c ≤ 'Z') ∨ ('a' ≤ c ∧ c ≤ 'z') := by
  have hupper : c.isUpper ↔ 'A' ≤ c ∧ c ≤ 'Z' := decide_eq_true_iff
  have hlower : c.isLower ↔ 'a' ≤ c ∧ c ≤ 'z' :=
    Bool.and_eq_true_iff.trans (and_congr decide_eq_true_iff decide_eq_true_iff)
  exact Bool.or_eq_true_iff.trans (or_congr hupper hlower)

theorem isIdentifierPart_of_isHexPart {c : Char} (h : isHexPart c) : isIdentifierPart c := by
  simp only [isHexPart, Bool.or_eq_true, Bool.and_eq_true, decide_eq_true_eq, beq_iff_eq] at h
  simp only [isIdentifierPart, isIdentifierStart, Bool.or_eq_true, isAlpha_iff, beq_iff_eq]
  rcases h with ((h | ⟨ha, hf⟩) | ⟨ha, hf⟩) | h
  · exact .inr h
  · exact .inl (.inl (.inl (.inr ⟨ha, Char.le_trans hf (by decide)⟩)))
  · exact .inl (.inl (.inl (.inl ⟨ha, Char.le_trans hf (by decide)⟩)))
  · exact .inl (.inl (.inr h))

theorem isIdentifierPart_of_isBinaryPart {c : Char} (h : isBinaryPart c) : isIdentifierPart c := by
  simp only [isBinaryPart, Bool.or_eq_true, beq_iff_eq] at h
  rcases h with (rfl | rfl) | rfl <;> decide

theorem isIdentifierPart_of_contains {chars : List Char} (hchars : chars.all isIdentifierPart)
    {c : Char} (h : chars.contains c) : isIdentifierPart c :=
  List.all_eq_true.1 hchars c (List.contains_iff_mem.1 h)

/-! ### Numbers and names in front of something else -/

section Stopped

variable {t : Text} (ht : ∀ c ∈ t.head?, isIdentifierPart c = false)

include ht

theorem stopped {p : Char → Bool} (hp : ∀ c, p c → isIdentifierPart c) :
    ∀ c ∈ t.head?, p c = false := by
  intro c hc
  rw [← Bool.not_eq_true]
  intro h
  have hpart := hp c h
  rw [ht c hc] at hpart
  cases hpart

theorem halts_identifierLength : Halts identifierLength t := by
  refine (halts_runLength ht).mono fun s => ?_
  cases s with
  | nil => exact Nat.le_refl 0
  | cons c s =>
    rw [identifierLength]
    split
    · next hc =>
      have hpart : isIdentifierPart c := by rw [isIdentifierPart, hc, Bool.true_or]
      rw [runLength, runLength, List.takeWhile_cons_of_pos hpart, List.length_cons, Nat.add_comm]
    · exact Nat.zero_le _

theorem halts_digitsLength : Halts digitsLength t := by
  refine (halts_runLength (stopped ht fun _ => isIdentifierPart_of_isDigitPart)).mono fun s => ?_
  cases s with
  | nil => exact Nat.le_refl 0
  | cons c s =>
    rw [digitsLength]
    split
    · next hc =>
      have hpart : isDigitPart c := by rw [isDigitPart, hc, Bool.true_or]
      rw [runLength, runLength, List.takeWhile_cons_of_pos hpart, List.length_cons, Nat.add_comm]
    · exact Nat.zero_le _

theorem halts_suffix (chars : List Char) (hchars : chars.all isIdentifierPart) :
    Halts (optionalChar chars) t :=
  halts_optionalChar (stopped ht fun _ => isIdentifierPart_of_contains hchars)

theorem halts_afterBase {part : Char → Bool} (hpart : ∀ c, part c → isIdentifierPart c) :
    Halts (afterBase part) t := by
  refine ((halts_runLength (stopped ht hpart)).append
    (halts_suffix ht ['l', 'L'] (by decide))).mono fun s => ?_
  unfold afterBase
  split
  · exact Nat.zero_le _
  · exact Nat.le_refl _

theorem halts_withBaseLength : Halts withBaseLength t := by
  have hbased {part : Char → Bool} (hpart : ∀ c, part c → isIdentifierPart c) (u : Text) :
      basedLength part (u ++ t) ≤ u.length + 2 := by
    have h := halts_afterBase ht hpart u
    rw [basedLength_eq]
    split <;> omega
  intro u
  rcases u with _ | ⟨c, _ | ⟨d, u⟩⟩
  · rw [List.nil_append]
    unfold withBaseLength
    split <;> first | exact absurd (ht _ rfl) (by decide) | exact Nat.le_refl 0
  · rw [List.cons_append, List.nil_append]
    unfold withBaseLength
    split
    all_goals first
      | exact Nat.zero_le _
      | next heq =>
        obtain ⟨-, rfl⟩ := List.cons.inj heq
        exact absurd (ht _ rfl) (by decide)
  · rw [List.cons_append, List.cons_append]
    unfold withBaseLength
    split
    all_goals first
      | exact Nat.zero_le _
      | next heq =>
        obtain ⟨-, heq⟩ := List.cons.inj heq
        obtain ⟨-, rfl⟩ := List.cons.inj heq
        first
        | exact hbased (fun _ => isIdentifierPart_of_isHexPart) u
        | exact hbased (fun _ => isIdentifierPart_of_isBinaryPart) u

theorem halts_intLength : Halts intLength t := by
  refine Halts.max (Halts.mono ((halts_digitsLength ht).append
    (halts_suffix ht ['l', 'L'] (by decide))) fun s => ?_) (halts_withBaseLength ht)
  split
  · exact Nat.zero_le _
  · exact Nat.le_refl _

/-- The sign of an exponent may be what is behind an `e`. -/
theorem exponentLength_append (u : Text) :
    exponentLength (u ++ t) ≤ u.length ∨ u = ['e'] ∨ u = ['E'] := by
  rcases u with _ | ⟨c, _ | ⟨d, r⟩⟩
  · left
    cases t with
    | nil => exact Nat.le_refl 0
    | cons c t =>
      rw [List.nil_append, exponentLength, if_neg]
      · exact Nat.le_refl 0
      · rintro (rfl | rfl) <;> exact absurd (ht _ rfl) (by decide)
  · by_cases hc : c = 'e' ∨ c = 'E'
    · rcases hc with rfl | rfl <;> simp
    · left
      rw [List.cons_append, exponentLength, if_neg hc]
      exact Nat.zero_le _
  · left
    have hsign : optionalChar ['+', '-'] (d :: r ++ t) ≤ (d :: r).length := by
      rw [List.cons_append, optionalChar, List.length_cons]
      split <;> omega
    have hdigits := halts_runLength (p := Char.isDigit)
      (stopped ht fun _ => isIdentifierPart_of_isDigit)
      ((d :: r).drop (optionalChar ['+', '-'] (d :: r ++ t)))
    rw [List.length_drop] at hdigits
    rw [List.cons_append, exponentLength, List.length_cons]
    dsimp only
    rw [List.drop_append_of_le_length hsign]
    split
    · split <;> omega
    · exact Nat.zero_le _

theorem haltsAt_floatTailLength : HaltsAt floatTailLength t := by
  intro u hu
  rcases exponentLength_append ht u with hle | rfl | rfl
  · have hsuffix := halts_suffix ht ['f', 'F', 'd', 'D'] (by decide)
      (u.drop (exponentLength (u ++ t)))
    rw [List.length_drop] at hsuffix
    simp only [floatTailLength, List.drop_append_of_le_length hle]
    omega
  · exact absurd hu (by decide)
  · exact absurd hu (by decide)

theorem haltsAt_afterPoint : HaltsAt afterPoint t := by
  intro u hu
  have hdigits := halts_digitsLength ht u
  have heq : digitsLength u = digitsLength (u ++ t) := greedy_digitsLength.stable u t hdigits
  unfold afterPoint at hu ⊢
  split
  · exact Nat.zero_le _
  · next hne =>
    rw [if_neg (heq ▸ hne)] at hu
    exact ((halts_digitsLength ht).append_at greedy_digitsLength.stable
      (haltsAt_floatTailLength ht)) u hu

theorem haltsAt_afterDigits {u : Text} (hne : u ≠ []) (hu : afterDigits u = u.length) :
    afterDigits (u ++ t) ≤ u.length := by
  cases u with
  | nil => exact absurd rfl hne
  | cons c u =>
    by_cases hc : c = '.'
    · subst hc
      have hrun := halts_runLength (p := isDigitPart)
        (stopped ht fun _ => isIdentifierPart_of_isDigitPart)
      have h := hrun.append_at (greedy_runLength isDigitPart).stable (haltsAt_floatTailLength ht) u
      rw [afterDigits, List.length_cons] at hu
      rw [List.cons_append, afterDigits, List.length_cons]
      have := h (by dsimp only; omega)
      dsimp only at this
      omega
    · rw [afterDigits_cons hc] at hu
      rw [List.cons_append, afterDigits_cons hc]
      exact haltsAt_floatTailLength ht (c :: u) hu

theorem haltsAt_floatLength {u : Text} (hne : u ≠ []) (hu : floatLength u = u.length) :
    floatLength (u ++ t) ≤ u.length := by
  have hpos : u.length ≠ 0 := fun h => hne (List.eq_nil_of_length_eq_zero h)
  have hdigits := halts_digitsLength ht u
  have heq : digitsLength u = digitsLength (u ++ t) := greedy_digitsLength.stable u t hdigits
  rw [floatLength_eq] at hu ⊢
  rw [← heq]
  split
  · next hzero =>
    rw [if_pos hzero] at hu
    cases u with
    | nil => exact absurd rfl hne
    | cons c u =>
      by_cases hc : c = '.'
      · subst hc
        rw [pointLength] at hu
        rw [List.cons_append, pointLength, List.length_cons]
        split at hu
        · exact absurd hu.symm hpos
        · rw [List.length_cons] at hu
          have := haltsAt_afterPoint ht u (by omega)
          split <;> omega
      · rw [pointLength_cons hc] at hu
        exact absurd hu.symm hpos
  · next hn =>
    rw [if_neg hn] at hu
    split at hu
    · exact absurd hu.symm hpos
    · next hafter =>
      have hlen : (u.drop (digitsLength u)).length = u.length - digitsLength u := List.length_drop
      have hrest : u.drop (digitsLength u) ≠ [] := by
        intro hnil
        rw [hnil] at hafter
        exact hafter rfl
      have hle := haltsAt_afterDigits ht hrest (by omega)
      rw [List.drop_append_of_le_length (heq ▸ hdigits)]
      split <;> omega

end Stopped

end Lexeme

end JavaSource
