import JavaSource.Grammar.Statement
import Mathlib.Algebra.Ring.Int.Defs
import Mathlib.Data.Option.Basic

/-!
# Tokens ahead of a statement's end

A `Sequel` is what follows a statement in a longer text.  `Sequel.Ahead` relates the tokens that are left
of a text that ends with the statement to those that are left of the longer text, before the statement
is over.  A statement ends with a semicolon or a brace, and no lookahead goes past them without having
decided; so every lookahead decides alike on both sides.  Two go on behind a closing brace: that for the arrow of a
lambda expression, as long as its parentheses are not closed (`Sequel.Ahead.isLambda`), and that for the
colon of a loop, as long as there is no semicolon (`Sequel.Ahead.isForEach`).
-/

namespace JavaSource

/-- A statement can end with a token of this kind. -/
def TokenKind.closes : TokenKind → Bool
  | .semicolon | .closeBrace => true
  | _ => false

theorem TokenKind.eq_of_closes {k : TokenKind} (h : k.closes) : k = .semicolon ∨ k = .closeBrace := by
  cases k <;> simp_all [closes]

/-- What follows a statement in a longer text. -/
structure Sequel where
  tokens : List Token
  /-- How many identities more are given out before the statement. -/
  shift : Nat
  nonempty : tokens ≠ []
  /-- What follows does not continue the statement. -/
  apart : kindOf tokens ≠ .elseWord ∧ kindOf tokens ≠ .catchWord ∧ kindOf tokens ≠ .finallyWord

/-- The gap before the first of these tokens. -/
def gapOf (ts : List Token) : Text := (ts.head?.map Token.gap).getD []

/-- The tokens that are left of a statement, in a text that ends with it and in one that goes on.  Where
they stand does not matter, nor does the gap before the first of them. -/
inductive Sequel.Ahead (q : Sequel) : List Token → List Token → Prop
  | last {t t' e : Token} (hkind : t'.kind = t.kind) (htext : t'.text = t.text)
    (hcloses : t.kind.closes) (he : e.kind = .eof) : Ahead q [t, e] (t' :: q.tokens)
  | next {t t' : Token} {ts ts' : List Token} (hkind : t'.kind = t.kind) (htext : t'.text = t.text)
    (hk : t.kind ≠ .eof) (hgap : gapOf ts' = gapOf ts) (h : Ahead q ts ts') :
    Ahead q (t :: ts) (t' :: ts')

theorem rel_cases {α β : Type} {R : α → β → Prop} {o : Option α} {o' : Option β}
    (h : Option.Rel R o o') : (o = none ∧ o' = none) ∨ ∃ a b, o = some a ∧ o' = some b ∧ R a b := by
  cases h with
  | none => exact .inl ⟨rfl, rfl⟩
  | some h => exact .inr ⟨_, _, rfl, rfl, h⟩

/-! ### Segments and brackets -/

namespace Lookahead

theorem classType?_eq (ts : List Token) :
    classType? ts = (if kindOf ts = .less then typeArguments? 0 ts else some ts).bind fun rest =>
      if kindOf rest = .dot ∧ kindOf (rest.drop 1) = .identifier then classType? (rest.drop 2)
      else some rest := by
  rw [classType?.eq_def]
  split
  · next h => simp only [h, Option.bind_none]
  · next rest h =>
    simp only [h, Option.bind_some]
    split
    · rfl
    · next hrest =>
      rw [if_neg]
      rintro ⟨hdot, hname⟩
      obtain - | ⟨dot, - | ⟨name, others⟩⟩ := rest
      · cases hdot
      · cases hname
      · exact hrest dot name others h rfl .rfl

theorem dimensions_eq (ts : List Token) :
    dimensions ts =
      if kindOf ts = .openBracket ∧ kindOf (ts.drop 1) = .closeBracket then dimensions (ts.drop 2)
      else ts := by
  match ts with
  | [] => rfl
  | [t] => simp [dimensions, kindOf]
  | a :: b :: rest => rfl

end Lookahead

/-! ### Parentheses -/

/-- What a token adds to the parentheses that are closed. -/
def balance : TokenKind → Int
  | .openParen => -1
  | .closeParen => 1
  | _ => 0

/-- No tokens from the first of these on close that many parentheses. -/
def Unclosed (depth : Int) (ts : List Token) : Prop :=
  ∀ us, us <+: ts → (us.map fun t => balance t.kind).sum < depth

theorem unclosed_cons {t : Token} {ts : List Token} {depth : Int} (hpos : 0 < depth)
    (h : Unclosed (depth - balance t.kind) ts) : Unclosed depth (t :: ts) := by
  intro us hus
  rcases List.prefix_cons_iff.1 hus with rfl | ⟨vs, rfl, hvs⟩
  · exact hpos
  · have := h vs hvs
    rw [List.map_cons, List.sum_cons]
    omega

theorem balance_eq_zero {k : TokenKind} (ho : k ≠ .openParen) (hc : k ≠ .closeParen) :
    balance k = 0 := by
  unfold balance
  split <;> first | rfl | contradiction

/-- An opening parenthesis that is not closed before the statement ends. -/
def LeftOpen (ts : List Token) : Prop := kindOf ts = .openParen ∧ Unclosed 1 (ts.drop 1)

namespace Sequel.Ahead

variable {q : Sequel} {ts ts' : List Token}

theorem kindOf_eq (h : q.Ahead ts ts') : kindOf ts' = kindOf ts := by
  cases h with
  | last hkind => exact hkind
  | next hkind => exact hkind

theorem kindOf_ne_eof (h : q.Ahead ts ts') : kindOf ts ≠ .eof := by
  cases h with
  | @last t _ _ _ _ hcloses =>
    rintro hk
    rw [show t.kind = .eof from hk] at hcloses
    cases hcloses
  | next _ _ hk => exact hk

theorem length_le (h : q.Ahead ts ts') : ts.length ≤ ts'.length := by
  induction h with
  | last =>
    have := List.length_pos_iff.2 q.nonempty
    simp only [List.length_cons, List.length_nil]
    omega
  | next _ _ _ _ _ ih => exact Nat.succ_le_succ ih

theorem text_eq (h : q.Ahead ts ts') :
    (ts'.head?.map Token.text).getD [] = (ts.head?.map Token.text).getD [] := by
  cases h with
  | last _ htext => exact htext
  | next _ htext => exact htext

/-- Behind a token that no statement ends with there is another one. -/
theorem tail (h : q.Ahead ts ts') (hk : (kindOf ts).closes = false) :
    q.Ahead (ts.drop 1) (ts'.drop 1) := by
  cases h with
  | @last t _ _ _ _ hcloses => exact absurd (hcloses.symm.trans hk) nofun
  | next _ _ _ _ h => exact h

theorem gapOf_tail (h : q.Ahead ts ts') (hk : (kindOf ts).closes = false) :
    gapOf (ts'.drop 1) = gapOf (ts.drop 1) := by
  cases h with
  | @last t _ _ _ _ hcloses => exact absurd (hcloses.symm.trans hk) nofun
  | next _ _ _ hgap => exact hgap

theorem ne_nil (h : q.Ahead ts ts') : ts ≠ [] ∧ ts' ≠ [] := by
  cases h with
  | last => exact ⟨nofun, nofun⟩
  | next => exact ⟨nofun, nofun⟩

theorem kindOf_tail (h : q.Ahead ts ts') (hk : (kindOf ts).closes = false) :
    kindOf (ts'.drop 1) = kindOf (ts.drop 1) :=
  (h.tail hk).kindOf_eq

/-! ### Types -/

open Lookahead

theorem typeArguments? (h : q.Ahead ts ts') (depth : Nat) :
    Option.Rel q.Ahead (typeArguments? depth ts) (Lookahead.typeArguments? depth ts') := by
  induction h generalizing depth with
  | @last t t' e hkind htext hcloses he =>
    have hclosing := TokenKind.eq_of_closes hcloses
    rcases hclosing with hk | hk <;>
      simp only [Lookahead.typeArguments?, hkind, hk, TokenKind.primitive?] <;> exact .none
  | @next t t' ts ts' hkind htext hk hgap h ih =>
    unfold Lookahead.typeArguments?
    simp only [hkind]
    split
    · exact ih _
    · split
      · exact .none
      · exact .some h
      · exact ih _
    all_goals try exact ih _
    split
    · exact ih _
    · exact .none

/-- Two tokens of these kinds in front, of which a statement can end with neither, and what is behind
them. -/
theorem pair (h : q.Ahead ts ts') {k l : TokenKind} (hk : k.closes = false)
    (hl : l.closes = false) :
    (kindOf ts' = k ∧ kindOf (ts'.drop 1) = l ↔ kindOf ts = k ∧ kindOf (ts.drop 1) = l) ∧
      (kindOf ts = k ∧ kindOf (ts.drop 1) = l → q.Ahead (ts.drop 2) (ts'.drop 2)) := by
  by_cases hkind : kindOf ts = k
  · have htail := h.tail (hkind ▸ hk)
    refine ⟨by rw [h.kindOf_eq, htail.kindOf_eq], fun hboth => ?_⟩
    rw [← List.drop_drop (i := 1) (j := 1), ← List.drop_drop (i := 1) (j := 1)]
    exact htail.tail (hboth.2 ▸ hl)
  · rw [h.kindOf_eq]
    exact ⟨by simp [hkind], fun hboth => absurd hboth.1 hkind⟩

theorem dimensions (h : q.Ahead ts ts') :
    q.Ahead (dimensions ts) (Lookahead.dimensions ts') := by
  induction hn : ts.length using Nat.strongRecOn generalizing ts ts' with
  | _ n ih =>
    obtain ⟨hkinds, hbehind⟩ := h.pair (k := .openBracket) (l := .closeBracket) rfl rfl
    rw [dimensions_eq ts, dimensions_eq ts', if_congr hkinds rfl rfl]
    split
    · next hboth =>
      have hpos : 0 < ts.length := List.length_pos_iff.2 fun hnil => by simp [hnil, kindOf] at hboth
      refine ih _ ?_ (hbehind hboth) rfl
      rw [List.length_drop]
      omega
    · exact h

theorem classType? (h : q.Ahead ts ts') :
    Option.Rel q.Ahead (classType? ts) (Lookahead.classType? ts') := by
  induction hn : ts.length using Nat.strongRecOn generalizing ts ts' with
  | _ n ih =>
    have harguments : Option.Rel q.Ahead
        (if kindOf ts = .less then Lookahead.typeArguments? 0 ts else some ts)
        (if kindOf ts' = .less then Lookahead.typeArguments? 0 ts' else some ts') := by
      rw [h.kindOf_eq]
      split
      · exact h.typeArguments? 0
      · exact .some h
    have hshort {rest : List Token}
        (hrest : (if kindOf ts = .less then Lookahead.typeArguments? 0 ts else some ts) = some rest) :
        rest.length ≤ ts.length := by
      split at hrest
      · exact Nat.le_of_lt (length_of_typeArguments? hrest)
      · cases hrest
        exact Nat.le_refl _
    rw [classType?_eq ts, classType?_eq ts']
    rcases rel_cases harguments with ⟨h₁, h₂⟩ | ⟨rest, rest', h₁, h₂, hrest⟩
    · rw [h₁, h₂]
      exact .none
    · obtain ⟨hkinds, hbehind⟩ := hrest.pair (k := .dot) (l := .identifier) rfl rfl
      simp only [h₁, h₂, Option.bind_some, if_congr hkinds rfl rfl]
      split
      · next hboth =>
        have hpos : 0 < rest.length := by
          refine List.length_pos_iff.2 fun hnil => ?_
          simp [hnil, kindOf] at hboth
        refine ih _ ?_ (hbehind hboth) rfl
        have := hshort h₁
        rw [List.length_drop]
        omega
      · exact .some hrest

theorem type? (h : q.Ahead ts ts') : Option.Rel q.Ahead (type? ts) (Lookahead.type? ts') := by
  rw [Lookahead.type?, Lookahead.type?, h.kindOf_eq]
  split
  · next hk =>
    refine .some (h.tail ?_).dimensions
    revert hk
    cases kindOf ts <;> simp [TokenKind.primitive?, TokenKind.closes]
  · split
    · next hk =>
      rcases rel_cases (h.tail (hk ▸ rfl)).classType? with ⟨h₁, h₂⟩ | ⟨rest, rest', h₁, h₂, hrest⟩
      · rw [h₁, h₂]
        exact .none
      · rw [h₁, h₂]
        exact .some hrest.dimensions
    · exact .none

theorem isLocalVariable (h : q.Ahead ts ts') :
    isLocalVariable ts' = Lookahead.isLocalVariable ts := by
  rw [Lookahead.isLocalVariable, Lookahead.isLocalVariable]
  rcases rel_cases h.type? with ⟨h₁, h₂⟩ | ⟨rest, rest', h₁, h₂, hrest⟩
  · rw [h₁, h₂]
  · rw [h₁, h₂]
    exact congrArg (· == _) hrest.kindOf_eq

theorem isCast (h : q.Ahead ts ts') : isCast ts' = Lookahead.isCast ts := by
  rw [Lookahead.isCast, Lookahead.isCast, h.kindOf_eq]
  by_cases hopen : kindOf ts = .openParen
  · have htail := h.tail (hopen ▸ rfl)
    rcases rel_cases htail.type? with ⟨h₁, h₂⟩ | ⟨rest, rest', h₁, h₂, hrest⟩
    · rw [h₁, h₂]
    · simp only [h₁, h₂, hrest.kindOf_eq, htail.kindOf_eq]
      by_cases hclose : kindOf rest = .closeParen
      · rw [hrest.kindOf_tail (hclose ▸ rfl)]
      · rw [beq_false_of_ne hclose, Bool.false_and, Bool.false_and]
  · rw [beq_false_of_ne hopen, Bool.false_and, Bool.false_and]

/-! ### Operators -/

theorem isJoined_one (h : q.Ahead ts ts') (hk : (kindOf ts).closes = false) (k : TokenKind) :
    isJoined ts' 1 k = isJoined ts 1 k := by
  have heq {ts : List Token} (hne : ts.drop 1 ≠ []) :
      isJoined ts 1 k = (kindOf (ts.drop 1) == k && (gapOf (ts.drop 1)).isEmpty) := by
    match ts with
    | [] => exact absurd rfl hne
    | [_] => exact absurd rfl hne
    | _ :: _ :: _ => rfl
  have htail := h.tail hk
  rw [heq htail.ne_nil.1, heq htail.ne_nil.2, htail.kindOf_eq, h.gapOf_tail hk]

theorem isJoined_succ (ts : List Token) (n : Nat) (k : TokenKind) :
    isJoined ts (n + 1) k = isJoined (ts.drop 1) n k := by
  rw [isJoined, isJoined, List.getElem?_drop, Nat.add_comm]

theorem kindOf_of_isJoined {n : Nat} {k : TokenKind} (h : isJoined ts n k) :
    kindOf (ts.drop n) = k := by
  rw [isJoined] at h
  split at h
  · next t ht =>
    obtain ⟨hlt, rfl⟩ := List.getElem?_eq_some_iff.1 ht
    rw [List.drop_eq_getElem_cons hlt]
    exact beq_iff_eq.1 (Bool.and_eq_true_iff.1 h).1
  · cases h

theorem isJoined_two (h : q.Ahead ts ts') (hk : (kindOf ts).closes = false)
    (hjoined : isJoined ts 1 .greater) (k : TokenKind) : isJoined ts' 2 k = isJoined ts 2 k := by
  rw [isJoined_succ ts', isJoined_succ ts]
  exact (h.tail hk).isJoined_one (kindOf_of_isJoined hjoined ▸ rfl) k

theorem isJoined_three (h : q.Ahead ts ts') (hk : (kindOf ts).closes = false)
    (hjoined : isJoined ts 1 .greater) (hjoined' : isJoined ts 2 .greater) (k : TokenKind) :
    isJoined ts' 3 k = isJoined ts 3 k := by
  rw [isJoined_succ ts', isJoined_succ ts]
  rw [isJoined_succ] at hjoined'
  exact (h.tail hk).isJoined_two (kindOf_of_isJoined hjoined ▸ rfl) hjoined' k

open Grammar

theorem binaryAhead (h : q.Ahead ts ts') : binaryAhead ts' = Grammar.binaryAhead ts := by
  have hgreater (hk : kindOf ts = .greater) : greaterAhead ts' = greaterAhead ts := by
    have hk' : (kindOf ts).closes = false := hk ▸ rfl
    simp only [greaterAhead, h.isJoined_one hk']
    by_cases hone : isJoined ts 1 .greater
    · rw [if_pos hone, if_pos hone, h.isJoined_two hk' hone, h.isJoined_two hk' hone]
      by_cases htwo : isJoined ts 2 .greater
      · rw [if_pos htwo, if_pos htwo, h.isJoined_three hk' hone htwo]
      · rw [if_neg htwo, if_neg htwo]
    · rw [if_neg hone, if_neg hone]
  unfold Grammar.binaryAhead
  rw [h.kindOf_eq]
  split <;> first | rfl | exact hgreater ‹_›

theorem assignmentAhead (h : q.Ahead ts ts') :
    assignmentAhead ts' = Grammar.assignmentAhead ts := by
  unfold Grammar.assignmentAhead
  rw [h.kindOf_eq]
  split
  case h_11 hk =>
    have hk' : (kindOf ts).closes = false := hk ▸ rfl
    rw [h.isJoined_one hk']
    by_cases hone : isJoined ts 1 .greater
    · rw [h.isJoined_two hk' hone, h.isJoined_two hk' hone]
      by_cases htwo : isJoined ts 2 .greater
      · rw [h.isJoined_three hk' hone htwo]
      · simp only [htwo, Bool.false_and]
    · simp only [hone, Bool.not_false, if_true]
  all_goals rfl

/-! ### Headers -/

/-- The arrow is told by what is in front of the end of the statement, if the parentheses are closed
there. -/
theorem arrowAfterParentheses (h : q.Ahead ts ts') {depth : Nat} (hpos : 0 < depth) :
    arrowAfterParentheses depth ts' = Lookahead.arrowAfterParentheses depth ts ∨
      Lookahead.arrowAfterParentheses depth ts = false ∧ Unclosed depth ts := by
  have hpos' : (0 : Int) < depth := by omega
  induction h generalizing depth with
  | @last t t' e hkind htext hcloses he =>
    have hend : Lookahead.arrowAfterParentheses depth [e] = false := by
      rw [Lookahead.arrowAfterParentheses]
      simp only [he]
    have hclosing := TokenKind.eq_of_closes hcloses
    have hunclosed : Unclosed depth [t, e] := by
      refine unclosed_cons hpos' ?_
      rw [balance_eq_zero (by rcases hclosing with h | h <;> rw [h] <;> nofun)
        (by rcases hclosing with h | h <;> rw [h] <;> nofun), Int.sub_zero]
      refine unclosed_cons hpos' fun us hus => ?_
      rw [List.prefix_nil.1 hus, he]
      exact hpos'
    refine .inr ⟨?_, hunclosed⟩
    rcases hclosing with hk | hk <;> simp [Lookahead.arrowAfterParentheses, hk, he]
  | @next t t' ts ts' hkind htext hk hgap h ih =>
    unfold Lookahead.arrowAfterParentheses
    simp only [hkind]
    split
    · next ho =>
      refine (ih (Nat.succ_pos _) (by omega)).imp_right fun ⟨hfalse, hopen⟩ => ⟨hfalse, ?_⟩
      refine unclosed_cons hpos' ?_
      rw [ho]
      exact_mod_cast hopen
    · next hc =>
      split
      · exact .inl (by rw [h.kindOf_eq])
      · refine (ih (by omega) (by omega)).imp_right fun ⟨hfalse, hopen⟩ => ⟨hfalse, ?_⟩
        refine unclosed_cons hpos' ?_
        rw [hc]
        have hdepth : (depth : Int) - balance .closeParen = ((depth - 1 : Nat) : Int) := by
          change (depth : Int) - 1 = _
          omega
        rwa [hdepth]
    · exact .inl rfl
    · exact .inl rfl
    · exact .inl rfl
    · next ho hc _ _ _ =>
      refine (ih hpos hpos').imp_right fun ⟨hfalse, hopen⟩ => ⟨hfalse, unclosed_cons hpos' ?_⟩
      rwa [balance_eq_zero ho hc, Int.sub_zero]

theorem isLambda (h : q.Ahead ts ts') :
    isLambda ts' = Lookahead.isLambda ts ∨ Lookahead.isLambda ts = false ∧ LeftOpen ts := by
  rw [Lookahead.isLambda, Lookahead.isLambda, h.kindOf_eq]
  split
  · next hk => exact .inl (by rw [h.kindOf_tail (hk ▸ rfl)])
  · next hk =>
    have harrow := (h.tail (hk ▸ rfl)).arrowAfterParentheses (Nat.succ_pos 0)
    have hopen {ts : List Token} (hk : kindOf ts = .openParen) :
        Lookahead.arrowAfterParentheses 0 ts = Lookahead.arrowAfterParentheses 1 (ts.drop 1) := by
      match ts with
      | [] => cases hk
      | t :: ts =>
        rw [Lookahead.arrowAfterParentheses]
        simp only [show t.kind = .openParen from hk]
        rfl
    rw [hopen hk, hopen (h.kindOf_eq.trans hk)]
    exact harrow.imp_right fun ⟨hfalse, hunclosed⟩ => ⟨hfalse, hk, hunclosed⟩
  · exact .inl rfl

/-- Whether a loop has a colon in its header is told by what is in front of the end of the statement, if
there is a semicolon. -/
theorem isForEach (h : q.Ahead ts ts') (depth : Nat) :
    isForEach depth ts' = Lookahead.isForEach depth ts ∨
      Lookahead.isForEach depth ts = false ∧ ∀ t ∈ ts, t.kind ≠ .semicolon := by
  induction h generalizing depth with
  | @last t t' e hkind htext hcloses he =>
    have hclosing := TokenKind.eq_of_closes hcloses
    rcases hclosing with hk | hk
    · exact .inl (by simp [Lookahead.isForEach, hkind, hk])
    · exact .inr (by simp [Lookahead.isForEach, hk, he])
  | @next t t' ts ts' hkind htext hk hgap h ih =>
    have hmore (depth : Nat) (hs : t.kind ≠ .semicolon) :
        Lookahead.isForEach depth ts' = Lookahead.isForEach depth ts ∨
          Lookahead.isForEach depth ts = false ∧ ∀ u ∈ t :: ts, u.kind ≠ .semicolon :=
      (ih depth).imp_right fun ⟨hfalse, hnone⟩ => ⟨hfalse, List.forall_mem_cons.2 ⟨hs, hnone⟩⟩
    unfold Lookahead.isForEach
    simp only [hkind]
    split
    case h_4 | h_5 | h_6 =>
      split
      · exact .inl rfl
      · exact hmore _ (by simp [*])
    case h_7 =>
      split
      · exact .inl rfl
      · exact hmore _ (by simp [*])
    case h_8 | h_9 => exact .inl rfl
    case h_10 => exact hmore _ ‹_›
    all_goals exact hmore _ (by simp [*])

end Sequel.Ahead

/-- Tokens that look alike to a lookahead: the same, or those of a text that goes on. -/
def Sequel.Alike (q : Sequel) (ts ts' : List Token) : Prop := ts' = ts ∨ q.Ahead ts ts'

namespace Sequel.Alike

open Lookahead Grammar

variable {q : Sequel} {ts ts' : List Token}

theorem of_ahead {γ : Type} {look : List Token → γ} (h : q.Alike ts ts')
    (hlook : q.Ahead ts ts' → look ts' = look ts) : look ts' = look ts := by
  rcases h with rfl | h
  · rfl
  · exact hlook h

theorem isLocalVariable (h : q.Alike ts ts') :
    isLocalVariable ts' = Lookahead.isLocalVariable ts := h.of_ahead fun h => h.isLocalVariable

theorem isCast (h : q.Alike ts ts') : isCast ts' = Lookahead.isCast ts :=
  h.of_ahead fun h => h.isCast

theorem binaryAhead (h : q.Alike ts ts') : binaryAhead ts' = Grammar.binaryAhead ts :=
  h.of_ahead fun h => h.binaryAhead

theorem assignmentAhead (h : q.Alike ts ts') :
    assignmentAhead ts' = Grammar.assignmentAhead ts := h.of_ahead fun h => h.assignmentAhead

end Sequel.Alike

end JavaSource
