import JavaSource.Proofs.Ahead
import JavaSource.Proofs.Reading

/-!
# Looking ahead to the end of a type

The lookahead for a type knows less than the production: between angle brackets it only counts
them.  Still it stops where the production does (`type?_eq_of_run`).  Inside of brackets that is
`Within`: from before a type and from behind it the count comes to the same, at any depth, so a
production can be run through without a word about where its brackets close.
-/

namespace JavaSource

namespace Lookahead

/-- Between angle brackets a token of this kind is passed without being counted. -/
def passes : TokenKind → Bool
  | .identifier | .dot | .comma | .question | .extendsWord | .superWord | .ampersand | .openBracket
  | .closeBracket => true
  | kind => kind.primitive?.isSome

theorem typeArguments?_drop {ts : List Token} (h : passes (kindOf ts)) (depth : Nat) :
    typeArguments? depth ts = typeArguments? depth (ts.drop 1) := by
  cases ts with
  | nil => cases h
  | cons t ts =>
    rw [typeArguments?.eq_def]
    change passes t.kind at h
    cases hk : t.kind <;> simp_all [passes, TokenKind.primitive?]

theorem typeArguments?_less {ts : List Token} (h : kindOf ts = .less) (depth : Nat) :
    typeArguments? depth ts = typeArguments? (depth + 1) (ts.drop 1) := by
  cases ts with
  | nil => cases h
  | cons t ts => rw [typeArguments?.eq_def]; simp [show t.kind = .less from h]

theorem typeArguments?_greater {ts : List Token} (h : kindOf ts = .greater) (depth : Nat) :
    typeArguments? (depth + 1) ts =
      if depth = 0 then some (ts.drop 1) else typeArguments? depth (ts.drop 1) := by
  cases ts with
  | nil => cases h
  | cons t ts =>
    rw [typeArguments?.eq_def]
    cases depth <;> simp [show t.kind = .greater from h]

/-- The tokens after the further segments of a class type whose first one is read. -/
def segments? (ts : List Token) : Option (List Token) :=
  if kindOf ts = .dot ∧ kindOf (ts.drop 1) = .identifier then classType? (ts.drop 2) else some ts

/-- The tokens after a type without its dimensions. -/
def element? (ts : List Token) : Option (List Token) :=
  if (kindOf ts).primitive?.isSome then some (ts.drop 1)
  else if kindOf ts = .identifier then classType? (ts.drop 1)
  else none

theorem type?_eq_map (ts : List Token) : type? ts = (element? ts).map dimensions := by
  unfold type? element?
  split
  · rfl
  · split <;> rfl

/-- Inside of type arguments, counting brackets from here on comes to the same as from there on. -/
def Within (ts us : List Token) : Prop :=
  ∀ depth, typeArguments? (depth + 1) ts = typeArguments? (depth + 1) us

variable {ts us vs : List Token}

theorem Within.refl : Within ts ts := fun _ => rfl

theorem Within.trans (h : Within ts us) (h' : Within us vs) : Within ts vs :=
  fun depth => (h depth).trans (h' depth)

theorem Within.drop (h : passes (kindOf ts)) : Within ts (ts.drop 1) :=
  fun depth => typeArguments?_drop h (depth + 1)

/-- There are type arguments or nothing between these tokens. -/
structure Arguments (ts us : List Token) : Prop where
  within : Within ts us
  ends : classType? ts = segments? us

theorem Arguments.of_not_less (h : kindOf ts ≠ .less) : Arguments ts ts where
  within := .refl
  ends := by rw [classType?_eq, if_neg h]; rfl

/-- Behind the elements the closing bracket takes the count back to where it was. -/
theorem Arguments.of_brackets (hless : kindOf ts = .less) (h : Within (ts.drop 1) us)
    (hgreater : kindOf us = .greater) : Arguments ts (us.drop 1) where
  within depth := by
    rw [typeArguments?_less hless, h, typeArguments?_greater hgreater, if_neg depth.succ_ne_zero]
  ends := by
    have hcount : typeArguments? 0 ts = some (us.drop 1) := by
      rw [typeArguments?_less hless, h, typeArguments?_greater hgreater, if_pos rfl]
    rw [classType?_eq, if_pos hless, hcount]
    rfl

/-- A type up to these tokens, its dimensions apart: it is within brackets if it stands there, and
the lookahead finds its end unless it is a wildcard. -/
structure Element (ts us : List Token) : Prop where
  within : Within ts us
  ends : kindOf ts ≠ .question → element? ts = some us

/-- A class type up to these tokens, which may have more segments. -/
structure Segments (ts us : List Token) : Prop where
  within : Within ts us
  ends : element? ts = segments? us

theorem Element.primitive {p : Primitive} (hk : (kindOf ts).primitive? = some p) :
    Element ts (ts.drop 1) where
  within := by
    refine .drop ?_
    unfold passes
    split <;> simp_all
  ends _ := by rw [element?, hk]; rfl

theorem Segments.element (h : Segments ts us)
    (hk : ¬ (kindOf us = .dot ∧ kindOf (us.drop 1) = .identifier)) : Element ts us where
  within := h.within
  ends _ := by rw [h.ends, segments?, if_neg hk]

theorem Segments.first (hk : kindOf ts = .identifier) (h : Arguments (ts.drop 1) us) :
    Segments ts us where
  within := (Within.drop (hk ▸ rfl)).trans h.within
  ends := by rw [element?, hk, if_neg (by decide), if_pos rfl, h.ends]

theorem Segments.next (h : Segments ts us) (hdot : kindOf us = .dot)
    (hname : kindOf (us.drop 1) = .identifier) (hargs : Arguments (us.drop 2) vs) :
    Segments ts vs where
  within := by
    have hpast : Within us (us.drop 2) := by
      have h₁ : Within us (us.drop 1) := .drop (hdot ▸ rfl)
      have h₂ : Within (us.drop 1) ((us.drop 1).drop 1) := .drop (hname ▸ rfl)
      rw [List.drop_drop] at h₂
      exact h₁.trans h₂
    exact h.within.trans (hpast.trans hargs.within)
  ends := by rw [h.ends, segments?, if_pos ⟨hdot, hname⟩, hargs.ends]

/-- A type up to these tokens, which may have more dimensions. -/
structure Dimensions (ts us : List Token) : Prop where
  within : Within ts us
  ends : kindOf ts ≠ .question → type? ts = some (dimensions us)

theorem Element.dimensions (h : Element ts us) : Dimensions ts us where
  within := h.within
  ends hk := by rw [type?_eq_map, h.ends hk]; rfl

theorem Dimensions.next (h : Dimensions ts us) (hopen : kindOf us = .openBracket)
    (hclose : kindOf (us.drop 1) = .closeBracket) : Dimensions ts (us.drop 2) where
  within := by
    have h₁ : Within us (us.drop 1) := .drop (hopen ▸ rfl)
    have h₂ : Within (us.drop 1) ((us.drop 1).drop 1) := .drop (hclose ▸ rfl)
    rw [List.drop_drop] at h₂
    exact h.within.trans (h₁.trans h₂)
  ends hk := by rw [h.ends hk, dimensions_eq, if_pos ⟨hopen, hclose⟩]

end Lookahead

namespace Parser

theorem bump_drops {i : Input} {k : TokenKind} (hk : kindOf i.tokens = k) (he : k ≠ .eof) :
    bump.Ensures i fun _ j => j.tokens = i.tokens.drop 1 := by
  refine ensures_bump (fun t ts s ht _ => by rw [ht]; rfl) fun heof => ?_
  exact absurd (hk.symm.trans heof) he

theorem expect_drops {i : Input} {k : TokenKind} (he : k ≠ .eof) :
    (expect k).Ensures i fun _ j => kindOf i.tokens = k ∧ j.tokens = i.tokens.drop 1 := by
  simp only [expect, ensures_bind, ensures_at?, ensures_ite, beq_iff_eq, ensures_fail, implies_true,
    and_true]
  exact fun hk => (bump_drops hk he).mono fun _ _ h => ⟨hk, h⟩

theorem identifier_drops {i : Input} :
    identifier.Ensures i fun _ j => kindOf i.tokens = .identifier ∧ j.tokens = i.tokens.drop 1 := by
  simp only [identifier, ensures_bind, ensures_at?, ensures_ite, beq_iff_eq, ensures_fail,
    implies_true, and_true, ensures_text, ensures_node]
  refine fun hk => ensures_takeSpace fun _ j hj _ => ?_
  refine (bump_drops (hj ▸ hk) (by decide)).mono fun _ l hl => ⟨hk, ?_⟩
  rw [← hj]
  exact hl

/-- What each item keeps holds behind all of them. -/
theorem whileAt_keeps {α : Type} {P : Input → Prop} {k : TokenKind} {item : Parser α}
    (h : ∀ i, P i → kindOf i.tokens = k → item.Ensures i fun _ j => P j) {i : Input} (hi : P i) :
    (whileAt k item).Ensures i fun _ j => P j := by
  have within : ∀ n i, P i → (collectWithin (do
      if ← at? k then return some (← item) else return none) n).Ensures i fun _ j => P j := by
    intro n
    induction n with
    | zero => exact fun i _ => ensures_throw
    | succ n ih =>
      intro i hi
      simp only [collectWithin, ensures_bind, ensures_at?, ensures_ite, beq_iff_eq, ensures_pure]
      exact ⟨fun hk => (h i hi hk).mono fun _ j hj => ih j hj, fun _ => hi⟩
  simp only [whileAt, collecting, ensures_bind, ensures_tokens]
  exact within _ i hi

end Parser

namespace Grammar

open Lookahead JavaSource.Parser

/-- A type that stands between angle brackets is passed by the count. -/
def CountsTypes (g : Productions) : Prop :=
  ∀ i, g.type.Ensures i fun _ j => Within i.tokens j.tokens

variable {g : Productions} {i : Input}

theorem CountsTypes.followed (hg : CountsTypes g) :
    (followed g.type).Ensures i fun _ j => Within i.tokens j.tokens := by
  simp only [Parser.followed, ensures_bind, ensures_pure]
  refine (hg i).mono fun _ j hj => ensures_takeSpace fun _ l hl _ => ?_
  rw [hl]
  exact hj

theorem CountsTypes.typeArguments (hg : CountsTypes g) :
    (typeArguments g).Ensures i fun _ j => Arguments i.tokens j.tokens := by
  rw [Grammar.typeArguments, ensures_bind]
  refine (expect_drops (by decide)).mono fun _ j ⟨hless, hj⟩ => ?_
  have closing {k : Input} (hk : Within j.tokens k.tokens) :
      (expect .greater).Ensures k fun _ l => Arguments i.tokens l.tokens := by
    refine (expect_drops (by decide)).mono fun _ l ⟨hgreater, hl⟩ => ?_
    rw [hl]
    exact .of_brackets hless (hj ▸ hk) hgreater
  simp only [ensures_bind, ensures_at?, ensures_ite, ensures_pure, placeholder, ensures_node]
  refine ⟨fun _ => ensures_takeSpace fun _ k hk _ => closing (by rw [hk]; exact .refl), fun _ => ?_⟩
  refine hg.followed.mono fun _ k hk => ?_
  refine Ensures.mono (whileAt_keeps (P := fun l => Within j.tokens l.tokens)
    (fun l hl hcomma => ?_) hk) fun _ _ hl => closing hl
  rw [ensures_bind]
  refine (bump_drops hcomma (by decide)).mono fun _ m hm => hg.followed.mono fun _ n hn => ?_
  rw [hm] at hn
  exact hl.trans ((Within.drop (hcomma ▸ rfl)).trans hn)

theorem CountsTypes.withTypeArguments (hg : CountsTypes g) {name : Tree} :
    (withTypeArguments g name).Ensures i fun _ j => Arguments i.tokens j.tokens := by
  simp only [Grammar.withTypeArguments, ensures_bind, ensures_at?, ensures_ite, beq_iff_eq,
    ensures_pure, ensures_node]
  exact ⟨fun _ => hg.typeArguments, .of_not_less⟩

theorem CountsTypes.wildcard (hg : CountsTypes g) :
    (wildcard g).Ensures i fun _ j => kindOf i.tokens = .question ∧ Within i.tokens j.tokens := by
  simp only [Grammar.wildcard, ensures_bind, ensures_peek]
  refine (expect_drops (by decide)).mono fun _ j h => ?_
  obtain ⟨hk, hj⟩ := h
  have hquestion : Within i.tokens j.tokens := hj ▸ .drop (hk ▸ rfl)
  have bound {k : TokenKind} {f : Space → Tree → Shape Tree} {s : Space} (hj : kindOf j.tokens = k)
      (hpasses : passes k) :
      (do node s (f (← bump) (← g.type)) : Parser Tree).Ensures j fun _ l =>
        kindOf i.tokens = .question ∧ Within i.tokens l.tokens := by
    simp only [ensures_bind, ensures_node]
    refine (bump_drops hj (by rintro rfl; cases hpasses)).mono fun _ l hl =>
      (hg l).mono fun _ m hm => ?_
    rw [hl] at hm
    exact ⟨hk, hquestion.trans ((Within.drop (hj ▸ hpasses)).trans hm)⟩
  split
  · exact bound (k := .extendsWord) ‹_› rfl
  · exact bound (k := .superWord) ‹_› rfl
  · exact ensures_node.2 ⟨hk, hquestion⟩

theorem CountsTypes.typeWithoutDimensions (hg : CountsTypes g) :
    (typeWithoutDimensions g).Ensures i fun _ j => Element i.tokens j.tokens := by
  rw [Grammar.typeWithoutDimensions]
  simp only [ensures_bind, ensures_peek]
  split
  · next p hp =>
    simp only [ensures_bind, ensures_node]
    have heof : kindOf i.tokens ≠ .eof := fun h => by rw [h] at hp; cases hp
    refine (bump_drops rfl heof).mono fun _ j hj => ?_
    rw [hj]
    exact .primitive hp
  · simp only [ensures_ite, ensures_bind]
    refine ⟨fun _ => hg.wildcard.mono fun _ j hj => ⟨hj.2, fun h => absurd hj.1 h⟩, fun _ => ?_⟩
    refine identifier_drops.mono fun _ j h => hg.withTypeArguments.mono fun _ k hk => ?_
    obtain ⟨hname, hj⟩ := h
    rw [hj] at hk
    refine repeating_ensures (P := fun _ l => Segments i.tokens l.tokens) (fun target l hl => ?_)
      (Segments.first hname hk)
    simp only [ensures_bind, ensures_at?, ensures_peekNext, ensures_ite, ensures_node, ensures_pure,
      Bool.and_eq_true, beq_iff_eq]
    refine ⟨fun h => ?_, hl.element⟩
    obtain ⟨hdot, hnext⟩ := h
    refine (bump_drops hdot (by decide)).mono fun _ m hm => identifier_drops.mono fun _ n hn =>
      hg.withTypeArguments.mono fun _ o ho => ?_
    rw [hn.2, hm, List.drop_drop] at ho
    exact hl.next hdot hnext ho

theorem CountsTypes.type (hg : CountsTypes g) : (type g).Ensures i fun _ j =>
    Within i.tokens j.tokens ∧ (kindOf i.tokens ≠ .question → type? i.tokens = some j.tokens) := by
  rw [Grammar.type, ensures_bind]
  refine hg.typeWithoutDimensions.mono fun _ j hj => ?_
  refine repeating_ensures (P := fun _ k => Dimensions i.tokens k.tokens) (fun element k hk => ?_)
    hj.dimensions
  simp only [ensures_bind, ensures_at?, ensures_peekNext, ensures_ite, ensures_node, ensures_pure,
    Bool.and_eq_true, beq_iff_eq]
  refine ⟨fun h => ?_, fun hnot => ⟨hk.within, fun hq => ?_⟩⟩
  · obtain ⟨hopen, hclose⟩ := h
    refine (bump_drops hopen (by decide)).mono fun _ l hl => ?_
    refine (bump_drops (hl ▸ hclose) (by decide)).mono fun _ m hm => ?_
    rw [hl, List.drop_drop] at hm
    change Dimensions i.tokens m.tokens
    rw [hm]
    exact hk.next hopen hclose
  · rw [hk.ends hq, dimensions_eq, if_neg hnot]

theorem countsTypes_grammar (n : Nat) : CountsTypes (grammar n) := by
  induction n with
  | zero => exact fun i => ensures_throw
  | succ n ih => exact fun i => ih.type.mono fun _ _ h => h.1

end Grammar

/-- The lookahead for a type stops where the production for types does, and sees a declaration of
local variables wherever a name follows the type. -/
theorem type?_eq_of_run {n : Nat} {i j : Input} {t : Tree} (hk : kindOf i.tokens ≠ .question)
    (h : (Grammar.type (grammar n)).run i = .ok (t, j)) :
    Lookahead.type? i.tokens = some j.tokens ∧
      (kindOf j.tokens = .identifier → Lookahead.isLocalVariable i.tokens) := by
  have hends : Lookahead.type? i.tokens = some j.tokens :=
    ((Grammar.countsTypes_grammar n).type t j h).2 hk
  refine ⟨hends, fun hname => ?_⟩
  simp [Lookahead.isLocalVariable, hends, hname]

/-- In `A<B>[] c`. -/
theorem type?_eq_of_run_array :
    ∃ ts t j, kindOf ts ≠ .question ∧
      (Grammar.type (grammar 2)).run ⟨ts, false, 0⟩ = .ok (t, j) ∧
      kindOf j.tokens = .identifier ∧ Lookahead.type? ts = some j.tokens ∧
      Lookahead.isLocalVariable ts := by
  let ts : List Token := [⟨.identifier, [], ['A'], 0⟩, ⟨.less, [], ['<'], 1⟩,
    ⟨.identifier, [], ['B'], 2⟩, ⟨.greater, [], ['>'], 3⟩, ⟨.openBracket, [], ['['], 4⟩,
    ⟨.closeBracket, [], [']'], 5⟩, ⟨.identifier, [' '], ['c'], 7⟩, ⟨.eof, [], [], 8⟩]
  have hrun : ∃ t j, (Grammar.type (grammar 2)).run ⟨ts, false, 0⟩ = .ok (t, j) ∧
      kindOf j.tokens = .identifier := ⟨_, _, rfl, rfl⟩
  obtain ⟨t, j, hrun, hname⟩ := hrun
  obtain ⟨hends, hlocal⟩ := type?_eq_of_run (i := ⟨ts, false, 0⟩) (by decide) hrun
  exact ⟨ts, t, j, by decide, hrun, hname, hends, hlocal hname⟩

end JavaSource
