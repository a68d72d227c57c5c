import JavaSource.Proofs.Run
import JavaSource.Proofs.Atom
import JavaSource.Proofs.Header
import JavaSource.Proofs.Lexed

/-!
# Reading without loss

A parser *reads* what it gives when the atoms of the input before it are those of its answer and
then those of the input after it (`Parser.Reads`).  Every lemma starts from a `Sound` input: the
tokens are spelled as their kinds say, and no interface carries an `implements` clause.  The lemmas
of this module are about single steps, loops and lists; the productions follow in their own modules.
-/

namespace JavaSource

/-- Tokens that a lexer can give, with no `implements` clause on an interface. -/
structure SoundTokens (ts : List Token) : Prop where
  lexed : ∃ s, Lexed s ts
  plain : ∀ rest, rest <:+ ts → ¬ CarriesImplements rest

theorem SoundTokens.tail {t : Token} {rest : List Token} (h : SoundTokens (t :: rest))
    (hk : t.kind ≠ .eof) : SoundTokens rest where
  lexed := by
    obtain ⟨s, hs⟩ := h.lexed
    cases hs with
    | eof => exact absurd rfl hk
    | token hg hn hs => exact ⟨_, hs⟩
  plain others ho := h.plain others (ho.trans (List.suffix_cons t rest))

namespace Input

/-- The tokens that are left are sound. -/
def Sound (i : Input) : Prop := SoundTokens i.tokens

/-- Nothing is left of the gap before the first token. -/
def GapFree (i : Input) : Prop := i.gapTaken ∨ (i.tokens.head?.map Token.gap).getD [] = []

variable (i : Input) (n : NodeId)

@[simp] theorem sound_nextId : Sound { i with nextId := n } ↔ i.Sound := Iff.rfl

@[simp] theorem atoms_nextId : atoms { i with nextId := n } = i.atoms := rfl

/-- Without its gap, the first token is a word. -/
theorem atoms_taken {t : Token} {rest : List Token} :
    atoms ⟨t :: rest, true, n⟩ = wordAtoms t.text ++ rest.flatMap Token.atoms := rfl

/-- With its gap not taken, every token has its own atoms. -/
theorem atoms_fresh (ts : List Token) : atoms ⟨ts, false, n⟩ = ts.flatMap Token.atoms := by
  cases ts with
  | nil => rfl
  | cons t rest => simp [atoms, Token.atoms]

/-- At the end of the input only the gap before it is left. -/
theorem atoms_of_eof {i : Input} (hi : i.Sound) (hk : kindOf i.tokens = .eof) :
    i.atoms = if i.gapTaken then [] else
      spaceAtoms (Space.ofText ((i.tokens.head?.map Token.gap).getD [])) := by
  obtain ⟨ts, taken, n⟩ := i
  cases ts with
  | nil => cases taken <;> simp [atoms, Space.ofText_nil]
  | cons t rest =>
    obtain ⟨s, hs⟩ := hi.lexed
    obtain ⟨htext, rfl⟩ := hs.ends List.suffix_rfl hk
    cases taken <;> simp [atoms, htext]

end Input

namespace Parser

variable {α β : Type}

/-- From any sound input, the parser gives an answer whose atoms it has read. -/
def Reads (p : Parser α) (v : α → List Atom) : Prop :=
  ∀ i, i.Sound → p.Ensures i fun a j => j.Sound ∧ i.atoms = v a ++ j.atoms

/-! ### Single steps -/

theorem takeSpace_reads {i : Input} (hi : i.Sound) :
    takeSpace.Ensures i fun s j =>
      j.Sound ∧ j.gapTaken ∧ j.tokens = i.tokens ∧ i.atoms = spaceAtoms s ++ j.atoms := by
  obtain ⟨ts, taken, n⟩ := i
  simp only [takeSpace, ensures_bind, ensures_get, ensures_ite, ensures_pure, ensures_set]
  refine ⟨fun h => ⟨hi, h, trivial, rfl⟩, fun h => ⟨hi, trivial, trivial, ?_⟩⟩
  rw [Bool.not_eq_true] at h
  subst h
  cases ts with
  | nil => simp [Input.atoms, Space.ofText_nil]
  | cons t rest => simp [Input.atoms]

/-- A step past a token gives what is left of the gap before it. -/
theorem bump_reads_text {i : Input} (hi : i.Sound) (hk : kindOf i.tokens ≠ .eof) :
    bump.Ensures i fun s j =>
      j.Sound ∧ j.tokens = i.tokens.tail ∧ (i.GapFree → s = .empty) ∧
        i.atoms = spaceAtoms s ++
          (wordAtoms ((i.tokens.head?.map Token.text).getD []) ++ j.atoms) := by
  obtain ⟨ts, taken, n⟩ := i
  cases ts with
  | nil => exact absurd rfl hk
  | cons t rest =>
    have hrest : SoundTokens rest := SoundTokens.tail hi hk
    simp only [bump, takeSpace, ensures_bind, ensures_get, ensures_ite, ensures_pure, ensures_set]
    refine ⟨fun h => ?_, fun h => ?_⟩
    all_goals
      refine ⟨fun _ => ⟨hrest, rfl, ?_, ?_⟩, fun hk' => absurd hk' (not_not.2 hk)⟩
    · exact fun _ => trivial
    · subst h; simp [Input.atoms_fresh, Input.atoms_taken]
    · rintro (h' | hgap)
      · exact absurd h' h
      · simp [show t.gap = [] from hgap, Space.ofText_nil]
    · rw [Bool.not_eq_true] at h
      subst h
      simp [Input.atoms_fresh, Token.atoms]

/-- The text of a keyword or symbol is the one of its kind. -/
theorem text_of_kind {i : Input} (hi : i.Sound) {k : TokenKind} {w : Text}
    (hk : kindOf i.tokens = k) (hw : k.text? = some w) :
    ((i.tokens.head?.map Token.text).getD []) = w ∧ kindOf i.tokens ≠ .eof := by
  subst hk
  obtain ⟨ts, taken, n⟩ := i
  cases ts with
  | nil => cases hw
  | cons t rest =>
    obtain ⟨s, hs⟩ := hi.lexed
    refine ⟨hs.spelled (.head _) hw, fun he => ?_⟩
    rw [he] at hw
    cases hw

theorem bump_reads_tail {i : Input} (hi : i.Sound) {k : TokenKind} {w : Text}
    (hk : kindOf i.tokens = k) (hw : k.text? = some w) :
    bump.Ensures i fun s j =>
      j.Sound ∧ j.tokens = i.tokens.tail ∧
        i.atoms = spaceAtoms s ++ (wordAtoms w ++ j.atoms) := by
  obtain ⟨rfl, he⟩ := text_of_kind hi hk hw
  exact (bump_reads_text hi he).mono fun s j h => ⟨h.1, h.2.1, h.2.2.2⟩

theorem bump_reads {i : Input} (hi : i.Sound) {k : TokenKind} {w : Text}
    (hk : kindOf i.tokens = k) (hw : k.text? = some w) :
    bump.Ensures i fun s j =>
      j.Sound ∧ i.atoms = spaceAtoms s ++ (wordAtoms w ++ j.atoms) :=
  (bump_reads_tail hi hk hw).mono fun _ _ h => ⟨h.1, h.2.2⟩

/-- With no gap left there is no space that a step past the token could give. -/
theorem bump_reads_free {i : Input} (hi : i.Sound) (hf : i.GapFree) {k : TokenKind} {w : Text}
    (hk : kindOf i.tokens = k) (hw : k.text? = some w) :
    bump.Ensures i fun _ j =>
      j.Sound ∧ j.tokens = i.tokens.tail ∧ i.atoms = wordAtoms w ++ j.atoms := by
  obtain ⟨rfl, he⟩ := text_of_kind hi hk hw
  refine (bump_reads_text hi he).mono ?_
  rintro s j ⟨hj, hts, hs, e⟩
  rw [hs hf] at e
  exact ⟨hj, hts, e⟩

theorem bump_reads_taken {i : Input} (hi : i.Sound) (ht : i.gapTaken) {k : TokenKind} {w : Text}
    (hk : kindOf i.tokens = k) (hw : k.text? = some w) :
    bump.Ensures i fun _ j => j.Sound ∧ i.atoms = wordAtoms w ++ j.atoms :=
  (bump_reads_free hi (.inl ht) hk hw).mono fun _ _ h => ⟨h.1, h.2.2⟩

theorem expect_reads {k : TokenKind} {w : Text} (hw : k.text? = some w) {i : Input}
    (hi : i.Sound) :
    (expect k).Ensures i fun s j =>
      j.Sound ∧ i.atoms = spaceAtoms s ++ (wordAtoms w ++ j.atoms) := by
  simp only [expect, ensures_bind, ensures_at?, ensures_ite, beq_iff_eq, ensures_fail,
    implies_true, and_true]
  exact fun hk => bump_reads hi hk hw

theorem expect_reads_taken {k : TokenKind} {w : Text} (hw : k.text? = some w) {i : Input}
    (hi : i.Sound) (ht : i.gapTaken) :
    (expect k).Ensures i fun _ j => j.Sound ∧ i.atoms = wordAtoms w ++ j.atoms := by
  simp only [expect, ensures_bind, ensures_at?, ensures_ite, beq_iff_eq, ensures_fail,
    implies_true, and_true]
  exact fun hk => bump_reads_taken hi ht hk hw

theorem anyName_reads {i : Input} (hi : i.Sound) (hk : kindOf i.tokens ≠ .eof) :
    anyName.Ensures i fun t j => j.Sound ∧ i.atoms = t.atoms ++ j.atoms := by
  simp only [anyName, ensures_bind, ensures_text, ensures_node]
  refine (takeSpace_reads hi).mono ?_
  rintro s j ⟨hj, ht, hts, e⟩
  refine (bump_reads_text hj (hts ▸ hk)).mono ?_
  rintro s' k ⟨hk', -, hs', e'⟩
  refine ⟨hk', ?_⟩
  rw [e, e', hs' (.inl ht)]
  simp [Shape.pieces]

theorem identifier_reads : identifier.Reads Tree.atoms := by
  intro i hi
  simp only [identifier, ensures_bind, ensures_at?, ensures_ite, beq_iff_eq, ensures_fail,
    implies_true, and_true]
  intro hk
  have he : kindOf i.tokens ≠ .eof := by rw [hk]; decide
  simpa only [anyName, ensures_bind] using anyName_reads hi he

theorem followed_reads {p : Parser Tree} (hp : p.Reads Tree.atoms) {i : Input} (hi : i.Sound) :
    (followed p).Ensures i fun x j => (j.Sound ∧ j.gapTaken) ∧ i.atoms = x.atoms ++ j.atoms := by
  simp only [followed, ensures_bind, ensures_pure]
  refine (hp i hi).mono ?_
  rintro t j ⟨hj, e⟩
  refine (takeSpace_reads hj).mono ?_
  rintro s k ⟨hk, ht, -, e'⟩
  exact ⟨⟨hk, ht⟩, by simp [e, e', Followed.atoms]⟩

theorem placeholder_reads {i : Input} (hi : i.Sound) :
    placeholder.Ensures i fun x j =>
      (j.Sound ∧ j.gapTaken) ∧ i.atoms = x.atoms ++ j.atoms := by
  simp only [placeholder, ensures_bind, ensures_node, ensures_pure]
  refine (takeSpace_reads hi).mono ?_
  rintro s k ⟨hk, ht, -, e⟩
  exact ⟨⟨hk, ht⟩, by simp [e, Shape.pieces]⟩

/-! ### Loops -/

/-- What holds before a loop and is kept by each round holds behind it, with what the last round
says. -/
theorem repeating_ensures {P Q : α → Input → Prop} {step : α → Parser (Option α)}
    (h : ∀ a i, P a i → (step a).Ensures i fun o j => o.elim (Q a j) fun b => P b j) {a : α}
    {i : Input} (hi : P a i) : (repeating a step).Ensures i Q := by
  have within : ∀ n a i, P a i → (repeatWithin step n a).Ensures i Q := by
    intro n
    induction n with
    | zero => intro a i _; exact ensures_throw
    | succ n ih =>
      intro a i hi
      simp only [repeatWithin, ensures_bind]
      refine (h a i hi).mono ?_
      rintro (_ | b) j hj
      · exact ensures_pure.2 hj
      · exact ih b j hj
  simp only [repeating, ensures_bind, ensures_tokens]
  exact within _ _ _ hi

/-- A loop that reads on behind what it has. -/
theorem repeating_reads {v : α → List Atom} {step : α → Parser (Option α)}
    (h : ∀ a i, i.Sound →
      (step a).Ensures i fun o j => j.Sound ∧ v a ++ i.atoms = v (o.getD a) ++ j.atoms)
    (a : α) {i : Input} (hi : i.Sound) :
    (repeating a step).Ensures i fun b j => j.Sound ∧ v a ++ i.atoms = v b ++ j.atoms := by
  refine repeating_ensures (P := fun b j => j.Sound ∧ v a ++ i.atoms = v b ++ j.atoms)
    ?_ ⟨hi, rfl⟩
  rintro b j ⟨hj, e⟩
  refine (h b j hj).mono ?_
  rintro (_ | c) k ⟨hk, e'⟩ <;> exact ⟨hk, e.trans e'⟩

/-- Items that keep an invariant and read what they give. -/
theorem collecting_reads {I : Input → Prop} {v : α → List Atom} {p : Parser (Option α)}
    (h : ∀ i, I i → p.Ensures i fun o j => I j ∧ i.atoms = o.elim [] v ++ j.atoms) {i : Input}
    (hi : I i) : (collecting p).Ensures i fun xs j => I j ∧ i.atoms = xs.flatMap v ++ j.atoms := by
  have within : ∀ n i, I i →
      (collectWithin p n).Ensures i fun xs j => I j ∧ i.atoms = xs.flatMap v ++ j.atoms := by
    intro n
    induction n with
    | zero => intro i _; exact ensures_throw
    | succ n ih =>
      intro i hi
      simp only [collectWithin, ensures_bind]
      refine (h i hi).mono ?_
      rintro (_ | a) j ⟨hj, e⟩
      · exact ensures_pure.2 ⟨hj, e⟩
      · simp only [ensures_bind, ensures_pure]
        refine (ih j hj).mono ?_
        rintro xs k ⟨hk, e'⟩
        exact ⟨hk, by simp [e, e']⟩
  simp only [collecting, ensures_bind, ensures_tokens]
  exact within _ _ hi

/-- What holds wherever there is no further p holds behind the ps. -/
theorem collecting_ends {E : Input → Prop} {p : Parser (Option α)}
    (h : ∀ i, p.Ensures i fun o j => o = none → E j) {i : Input} :
    (collecting p).Ensures i fun _ j => E j := by
  have within : ∀ n i, (collectWithin p n).Ensures i fun _ j => E j := by
    intro n
    induction n with
    | zero => intro i; exact ensures_throw
    | succ n ih =>
      intro i
      simp only [collectWithin, ensures_bind]
      refine (h i).mono ?_
      rintro (_ | a) j hj
      · exact ensures_pure.2 (hj rfl)
      · simp only [ensures_bind, ensures_pure]
        exact ih j
  simp only [collecting, ensures_bind, ensures_tokens]
  exact within _ _

theorem whileAt_reads {I : Input → Prop} {v : α → List Atom} {k : TokenKind} {item : Parser α}
    (h : ∀ i, I i → kindOf i.tokens = k →
      item.Ensures i fun a j => I j ∧ i.atoms = v a ++ j.atoms) {i : Input} (hi : I i) :
    (whileAt k item).Ensures i fun xs j => I j ∧ i.atoms = xs.flatMap v ++ j.atoms := by
  refine collecting_reads (fun i hi => ?_) hi
  simp only [ensures_bind, ensures_at?, ensures_ite, beq_iff_eq, ensures_pure]
  refine ⟨fun hk => (h i hi hk).mono ?_, fun _ => ⟨hi, rfl⟩⟩
  intro a j ha
  exact ha

theorem ifAt_reads {v : α → List Atom} {k : TokenKind} {item : Parser α} {i : Input}
    (hi : i.Sound)
    (h : kindOf i.tokens = k → item.Ensures i fun a j => j.Sound ∧ i.atoms = v a ++ j.atoms) :
    (ifAt k item).Ensures i fun o j => j.Sound ∧ i.atoms = o.elim [] v ++ j.atoms := by
  simp only [ifAt, ensures_bind, ensures_at?, ensures_ite, beq_iff_eq, ensures_pure]
  refine ⟨fun hk => (h hk).mono ?_, fun _ => ⟨hi, rfl⟩⟩
  intro a j ha
  exact ha

/-! ### Lists -/

/-- A comma and the element behind it. -/
theorem comma_reads {p : Parser (Followed Tree)}
    (hp : ∀ i, i.Sound → p.Ensures i fun x j =>
      (j.Sound ∧ j.gapTaken) ∧ i.atoms = x.atoms ++ j.atoms) {i : Input}
    (hi : i.Sound ∧ i.gapTaken) :
    (whileAt .comma do let _ ← bump; p).Ensures i fun xs j =>
      (j.Sound ∧ j.gapTaken) ∧
        i.atoms = (xs.flatMap fun x => wordAtoms [','] ++ x.atoms) ++ j.atoms := by
  refine whileAt_reads (I := fun i => i.Sound ∧ i.gapTaken) ?_ hi
  rintro i ⟨hi, ht⟩ hk
  simp only [ensures_bind]
  refine (bump_reads_taken hi ht hk rfl).mono ?_
  rintro _ j ⟨hj, e⟩
  refine (hp j hj).mono ?_
  rintro x l ⟨hl, e'⟩
  exact ⟨hl, by simp [e, e']⟩

theorem elementsUntil_reads {closing : TokenKind} {p : Parser Tree} (hp : p.Reads Tree.atoms)
    {i : Input} (hi : i.Sound) :
    (elementsUntil closing p).Ensures i fun xs j =>
      (j.Sound ∧ j.gapTaken) ∧ i.atoms = joinedAtoms [','] xs ++ j.atoms := by
  simp only [elementsUntil, ensures_bind, ensures_at?, ensures_ite, beq_iff_eq, ensures_pure]
  refine ⟨fun _ => (placeholder_reads hi).mono ?_, fun _ => (followed_reads hp hi).mono ?_⟩
  · rintro x j ⟨hj, e⟩
    exact ⟨hj, by simp [e, joinedAtoms]⟩
  · rintro x j ⟨hj, e⟩
    refine (comma_reads (fun i hi => ?_) hj).mono ?_
    · simp only [ensures_bind, ensures_at?, ensures_ite]
      exact ⟨fun _ => placeholder_reads hi, fun _ => followed_reads hp hi⟩
    · rintro xs l ⟨hl, e'⟩
      exact ⟨hl, by simp [e, e', joinedAtoms]⟩

theorem delimited_reads {opening closing : TokenKind} {o c : Text} (ho : opening.text? = some o)
    (hc : closing.text? = some c) {p : Parser Tree} (hp : p.Reads Tree.atoms) :
    (delimited opening closing p).Reads (Series.atoms o [','] c) := by
  intro i hi
  simp only [delimited, ensures_bind, ensures_pure]
  refine (expect_reads ho hi).mono ?_
  rintro before j ⟨hj, e₁⟩
  refine (elementsUntil_reads hp hj).mono ?_
  rintro xs l ⟨⟨hl, ht⟩, e₂⟩
  refine (expect_reads_taken hc hl ht).mono ?_
  rintro _ m ⟨hm, e₃⟩
  exact ⟨hm, by simp [e₁, e₂, e₃, Series.atoms]⟩

theorem separatedBy_reads {separator : TokenKind} {w : Text} (hw : separator.text? = some w)
    {p : Parser Tree} (hp : p.Reads Tree.atoms) :
    (separatedBy separator p).Reads (joinedAtoms w) := by
  intro i hi
  -- the elements read so far, each with its separator, and the current one
  let v : Tree × List (Followed Tree) → List Atom := fun a =>
    (a.2.reverse.flatMap fun x => x.atoms ++ wordAtoms w) ++ a.1.atoms
  have joined : ∀ a, v a = joinedAtoms w (Followed.bare a.1 :: a.2).reverse := by
    rintro ⟨last, earlier⟩
    have shift : ∀ (xs : List (Followed Tree)) (y : Followed Tree),
        (xs.flatMap fun x => x.atoms ++ wordAtoms w) ++ y.atoms = joinedAtoms w (xs ++ [y]) := by
      intro xs y
      induction xs with
      | nil => simp [joinedAtoms]
      | cons x xs ih =>
        cases xs with
        | nil => simp [joinedAtoms]
        | cons z zs => simp_all [joinedAtoms]
    simpa [v] using shift earlier.reverse (.bare last)
  simp only [separatedBy, ensures_bind, ensures_pure]
  refine (hp i hi).mono ?_
  rintro first j ⟨hj, e⟩
  refine (repeating_reads (v := v) ?_ (first, []) hj).mono ?_
  · rintro ⟨current, earlier⟩ k hk
    simp only [ensures_bind, ensures_at?, ensures_ite, beq_iff_eq, ensures_pure]
    refine ⟨fun hs => (bump_reads hk hs hw).mono ?_, fun _ => ⟨hk, rfl⟩⟩
    rintro after l ⟨hl, e₁⟩
    refine (hp l hl).mono ?_
    rintro next m ⟨hm, e₂⟩
    exact ⟨hm, by simp [v, e₁, e₂, Followed.atoms]⟩
  · rintro ⟨last, earlier⟩ k ⟨hk, e'⟩
    refine ⟨hk, ?_⟩
    rw [← joined, ← e', e]
    simp [v]

end Parser

end JavaSource
