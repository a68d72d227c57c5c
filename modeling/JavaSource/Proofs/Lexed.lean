import JavaSource.Proofs.Trivia
import Mathlib.Data.List.TakeWhile

/-!
# What a lexer has cut

`Lexed t ts` is the cut of a text without the offsets: trivia, then the longest match, and so on to
the end (`lexed_of_lex`).  That the tokens and their gaps are the whole text
(`Lexed.flatMap_text`) and that keywords and symbols are spelled as their kinds say
(`Lexed.spelled`) follow by induction on it.
-/

namespace JavaSource

namespace Lexeme

/-! ### The longest match -/

/-- The longest match is that of one of the rules. -/
theorem mem_rules_of_longest {t : Text} {l : Lexeme} {n : Nat} (h : longest t = some (l, n)) :
    ∃ len, (l, len) ∈ rules ∧ len t = n := by
  have fold : ∀ (rs : List (Lexeme × (Text → Nat))) (best : Option (Lexeme × Nat)),
      rs.foldl (better t) best = some (l, n) →
        best = some (l, n) ∨ ∃ len, (l, len) ∈ rs ∧ len t = n := by
    intro rs
    induction rs with
    | nil => intro best hb; exact .inl hb
    | cons r rs ih =>
      intro best hb
      rcases ih _ hb with h₁ | ⟨len, hm, hlen⟩
      · simp only [better] at h₁
        split at h₁
        · split at h₁ <;> cases h₁
          exact .inr ⟨r.2, .head _, rfl⟩
        · split at h₁ <;> cases h₁
          · exact .inr ⟨r.2, .head _, rfl⟩
          · exact .inl rfl
      · exact .inr ⟨len, .tail _ hm, hlen⟩
  rcases fold _ _ h with h | h
  · cases h
  · exact h

/-- The rule of each lexeme: a keyword or symbol has the one for its text. -/
theorem rule_of_mem {l : Lexeme} {len : Text → Nat} (h : (l, len) ∈ rules) :
    match l with
    | .blanks => len = runLength isBlankChar
    | .lineComment => len = lineCommentLength
    | .blockComment => len = blockCommentLength
    | .unclosedComment => len = unclosedCommentLength
    | .token k => k ≠ .eof ∧ ∀ w, k.text? = some w → len = wordLength w := by
  simp only [rules, List.mem_append, List.mem_cons, List.not_mem_nil, or_false,
    List.mem_filterMap, Prod.mk.injEq] at h
  rcases h with ((⟨rfl, rfl⟩ | ⟨rfl, rfl⟩ | ⟨rfl, rfl⟩ | ⟨rfl, rfl⟩) | ⟨k, -, hk⟩) |
    ⟨rfl, rfl⟩ | ⟨rfl, rfl⟩ | ⟨rfl, rfl⟩ | ⟨rfl, rfl⟩ | ⟨rfl, rfl⟩
  case inl.inr =>
    simp only [wordRule, Option.map_eq_some_iff, Prod.mk.injEq] at hk
    obtain ⟨w, hw, rfl, rfl⟩ := hk
    refine ⟨?_, fun w' hw' => ?_⟩
    · rintro rfl
      cases hw
    · rw [hw] at hw'
      cases hw'
      rfl
  all_goals first | rfl | exact ⟨by decide, nofun⟩

theorem take_wordLength {w t : Text} (h : wordLength w t ≠ 0) : t.take (wordLength w t) = w := by
  unfold wordLength at h ⊢
  split at h
  · next hp =>
    rw [if_pos hp]
    exact (List.prefix_iff_eq_take.1 (List.isPrefixOf_iff_prefix.1 hp)).symm
  · exact absurd rfl h

end Lexeme

/-- The tokens of a text, without regard to their offsets: in front of each there is its gap, and
each is the longest match where it stands. -/
inductive Lexed : Text → List Token → Prop
  | eof {gap : Text} {offset : Nat} (hg : Trivia gap []) : Lexed gap [⟨.eof, gap, [], offset⟩]
  | token {gap source : Text} {kind : TokenKind} {n offset : Nat} {ts : List Token}
    (hg : Trivia gap source) (hn : Lexeme.longest source = some (.token kind, n + 1))
    (h : Lexed (source.drop (n + 1)) ts) :
    Lexed (gap ++ source) (⟨kind, gap, source.take (n + 1), offset⟩ :: ts)

namespace Lexed

theorem flatMap_text {t : Text} {ts : List Token} (h : Lexed t ts) :
    ts.flatMap (fun k => k.gap ++ k.text) = t := by
  induction h with
  | eof => simp
  | token hg hn h ih => simp [ih]

/-- Every gap is trivia. -/
theorem trivia {t : Text} {ts : List Token} (h : Lexed t ts) {k : Token} (hk : k ∈ ts) :
    ∃ rest, Trivia k.gap rest := by
  induction h with
  | eof hg =>
    obtain rfl := List.mem_singleton.1 hk
    exact ⟨_, hg⟩
  | token hg hn h ih =>
    rcases List.mem_cons.1 hk with rfl | hk
    · exact ⟨_, hg⟩
    · exact ih hk

/-- Keywords and symbols are spelled as their kinds say. -/
theorem spelled {t : Text} {ts : List Token} (h : Lexed t ts) {k : Token} (hk : k ∈ ts)
    {w : Text} (hw : k.kind.text? = some w) : k.text = w := by
  induction h with
  | eof =>
    obtain rfl := List.mem_singleton.1 hk
    cases hw
  | token hg hn h ih =>
    rcases List.mem_cons.1 hk with rfl | hk
    · obtain ⟨len, hm, hlen⟩ := Lexeme.mem_rules_of_longest hn
      have hrule : len = Lexeme.wordLength w := (Lexeme.rule_of_mem hm).2 w hw
      subst hrule
      have htake := Lexeme.take_wordLength (w := w) (by rw [hlen]; exact Nat.succ_ne_zero _)
      rwa [hlen] at htake
    · exact ih hk

/-- A match that is a token is not the end of the input. -/
theorem ne_eof {source : Text} {kind : TokenKind} {n : Nat}
    (hn : Lexeme.longest source = some (.token kind, n)) : kind ≠ .eof := by
  obtain ⟨len, hm, -⟩ := Lexeme.mem_rules_of_longest hn
  exact (Lexeme.rule_of_mem hm).1

/-- The end of the input has no text, and nothing follows it. -/
theorem ends {t : Text} {ts : List Token} (h : Lexed t ts) {k : Token} {rest : List Token}
    (hs : k :: rest <:+ ts) (hk : k.kind = .eof) : k.text = [] ∧ rest = [] := by
  induction h with
  | eof =>
    rcases List.suffix_cons_iff.1 hs with h | h
    · cases h; exact ⟨rfl, rfl⟩
    · cases List.suffix_nil.1 h
  | token hg hn h ih =>
    rcases List.suffix_cons_iff.1 hs with h | h
    · cases h
      exact absurd hk (ne_eof hn)
    · exact ih h

/-- The gap before the first token can be any trivia in front of that token. -/
theorem gap_cons {t : Text} {k : Token} {rest : List Token} (h : Lexed t (k :: rest)) :
    ∃ source, t = k.gap ++ source ∧ Trivia k.gap source ∧
      ∀ g, Trivia g source → Lexed (g ++ source) ({ k with gap := g } :: rest) := by
  cases h with
  | eof hg => exact ⟨[], by simp, hg, fun g hg' => by simpa using .eof hg'⟩
  | token hg hn h => exact ⟨_, rfl, hg, fun g hg' => .token hg' hn h⟩

end Lexed

theorem head?_dropWhile_eq_false {p : Char → Bool} (t : Text) :
    ∀ c ∈ (t.dropWhile p).head?, p c = false := by
  intro c hc
  have h := List.head?_dropWhile_not p t
  rw [hc] at h
  simpa using h

open Lexeme in
/-- A lexeme that is no token, in front of trivia. -/
theorem trivia_of_longest {t : Text} {l : Lexeme} {n : Nat} (h : longest t = some (l, n + 1))
    (hl : l = .blanks ∨ l = .lineComment ∨ l = .blockComment) {g source : Text}
    (hd : t.drop (n + 1) = g ++ source) (hg : Trivia g source) :
    Trivia (t.take (n + 1) ++ g) source := by
  obtain ⟨len, hm, hlen⟩ := mem_rules_of_longest h
  have hrule := rule_of_mem hm
  rcases hl with rfl | rfl | rfl
  · obtain rfl : len = runLength isBlankChar := hrule
    have htake : t.take (n + 1) = t.takeWhile isBlankChar := by
      rw [← hlen, runLength, ← List.prefix_iff_eq_take.1 (List.takeWhile_prefix _)]
    rw [htake]
    exact hg.blanks fun c hc => List.mem_takeWhile_imp hc
  · obtain rfl : len = lineCommentLength := hrule
    unfold lineCommentLength at hlen
    split at hlen
    · next r =>
      have hn : n + 1 = (r.takeWhile isInLine).length + 2 := by
        rw [← hlen, runLength, Nat.add_comm]
      have htake : r.take (r.takeWhile isInLine).length = r.takeWhile isInLine :=
        (List.prefix_iff_eq_take.1 (List.takeWhile_prefix _)).symm
      have hdrop : r.drop (r.takeWhile isInLine).length = r.dropWhile isInLine := by
        conv => lhs; arg 2; rw [← List.takeWhile_append_dropWhile (p := isInLine) (l := r)]
        rw [List.drop_left]
      rw [hn] at hd ⊢
      simp only [List.drop_succ_cons, List.take_succ_cons, htake, hdrop] at hd ⊢
      refine .line (fun c hc => List.mem_takeWhile_imp hc) ?_ hg
      rw [← hd]
      exact head?_dropWhile_eq_false r
    · cases hlen
  · obtain rfl : len = blockCommentLength := hrule
    unfold blockCommentLength at hlen
    split at hlen
    · next r =>
      split at hlen
      · next body others hs =>
        have hr := Text.splitClose_append hs
        have hn : n + 1 = (body ++ ['*', '/']).length + 2 := by
          simp only [List.length_append, List.length_cons, List.length_nil]; omega
        have hr' : r = (body ++ ['*', '/']) ++ others := by rw [hr]; simp
        rw [hn] at hd ⊢
        simp only [List.drop_succ_cons, List.take_succ_cons] at hd ⊢
        rw [hr', List.drop_left] at hd
        rw [hr', List.take_left]
        subst hd
        have hclose : Text.splitClose (body ++ ['*', '/'] ++ g) = (body, some g) := by
          simpa using Text.splitClose_eq hs g
        exact .block hclose hg
      · cases hlen
    · cases hlen

theorem lexed_of_lexFrom {offset : Nat} {gap t : Text} {ts : List Token}
    (h : lexFrom offset gap t = .ok ts) :
    ∃ g k rest, ts = k :: rest ∧ k.gap = gap ++ g ∧ Lexed t ({ k with gap := g } :: rest) := by
  have skip : ∀ {l : Lexeme} {n : Nat} {gap t : Text} {k : Token} {g : Text} {rest : List Token},
      Lexeme.longest t = some (l, n + 1) → l = .blanks ∨ l = .lineComment ∨ l = .blockComment →
      k.gap = gap ++ t.take (n + 1) ++ g → Lexed (t.drop (n + 1)) ({ k with gap := g } :: rest) →
      ∃ g' k' rest', k :: rest = k' :: rest' ∧ k'.gap = gap ++ g' ∧
        Lexed t ({ k' with gap := g' } :: rest') := by
    intro l n gap t k g rest hn hl hk h
    obtain ⟨source, hd, hg, hlexed⟩ := h.gap_cons
    refine ⟨t.take (n + 1) ++ g, k, rest, rfl, by rw [hk, List.append_assoc], ?_⟩
    have h' := hlexed _ (trivia_of_longest hn hl hd hg)
    rwa [List.append_assoc, ← hd, List.take_append_drop] at h'
  fun_induction lexFrom offset gap t generalizing ts with
  | case1 offset gap =>
    cases h
    exact ⟨[], _, [], rfl, by simp, .eof .nil⟩
  | case2 => cases h
  | case3 => cases h
  | case4 offset gap c cs n text next hn =>
    rename_i ih
    obtain ⟨g, k, rest, rfl, hk, hlexed⟩ := ih h
    exact skip hn (.inl rfl) hk hlexed
  | case5 offset gap c cs n text next hn =>
    rename_i ih
    obtain ⟨g, k, rest, rfl, hk, hlexed⟩ := ih h
    exact skip hn (.inr (.inl rfl)) hk hlexed
  | case6 offset gap c cs n text next hn =>
    rename_i ih
    obtain ⟨g, k, rest, rfl, hk, hlexed⟩ := ih h
    exact skip hn (.inr (.inr rfl)) hk hlexed
  | case7 => cases h
  | case8 offset gap c cs n text next kind hn =>
    rename_i ih
    cases hrest : lexFrom next [] (cs.drop n) with
    | error e => rw [hrest] at h; cases h
    | ok tokens =>
      rw [hrest] at h
      cases h
      obtain ⟨g, k, rest, rfl, hk, hlexed⟩ := ih hrest
      refine ⟨[], _, _, rfl, by simp, ?_⟩
      have hk' : ({ k with gap := g } : Token) = k := by rw [← List.nil_append g, ← hk]
      exact .token .nil hn (hk' ▸ hlexed)

/-- **Lexing.** The tokens of a text are cut from it. -/
theorem lexed_of_lex {t : Text} {ts : List Token} (h : lex t = .ok ts) : Lexed t ts := by
  obtain ⟨g, k, rest, rfl, hk, hlexed⟩ := lexed_of_lexFrom h
  have hk' : ({ k with gap := g } : Token) = k := by rw [← List.nil_append g, ← hk]
  rwa [hk'] at hlexed

end JavaSource
