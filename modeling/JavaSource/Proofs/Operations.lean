import JavaSource.Proofs.LexedLines
import JavaSource.Proofs.Spelled

/-!
# Operations, one blank apart

`Operation s t` says that the tree `t` applies operators to names and decimal numbers, with `s` in
front of it, with one blank between any two of its words and with no other space.  Each of its words
is cut off at the blank behind it, so that the tokens of its text can be told from the tree
(`Operation.cutsInto`): they are `Tokens` of it.  An operator that starts with greater signs is cut
into several of them, which directly follow each other (`Joined`).
-/

namespace JavaSource

open Lexeme

/-! ### Words -/

/-- The text of a name that is no keyword. -/
def Text.isName : Text → Bool
  | [] => false
  | c :: r => isIdentifierStart c && r.all isIdentifierPart &&
      !TokenKind.keywords.any fun k => k.text? == some (c :: r)

/-- The text of a decimal number, without a suffix. -/
def Text.isDecimal : Text → Bool
  | [] => false
  | c :: r => c.isDigit && r.all isDigitPart

/-- The tokens that the operator is cut into. -/
def BinaryOperator.tokens : BinaryOperator → List TokenKind
  | addition => [.plus]
  | subtraction => [.minus]
  | multiplication => [.star]
  | division => [.slash]
  | modulo => [.percent]
  | lessThan => [.less]
  | greaterThan => [.greater]
  | lessThanOrEqual => [.lessEqual]
  | greaterThanOrEqual => [.greater, .assign]
  | equal => [.equalEqual]
  | notEqual => [.notEqual]
  | bitAnd => [.ampersand]
  | bitOr => [.bar]
  | bitXor => [.caret]
  | leftShift => [.shiftLeft]
  | rightShift => [.greater, .greater]
  | unsignedRightShift => [.greater, .greater, .greater]
  | or => [.orOr]
  | and => [.andAnd]

/-- The tokens that the operator is cut into. -/
def AssignmentOperator.tokens : AssignmentOperator → List TokenKind
  | addition => [.plusAssign]
  | subtraction => [.minusAssign]
  | multiplication => [.starAssign]
  | division => [.slashAssign]
  | modulo => [.percentAssign]
  | bitAnd => [.ampersandAssign]
  | bitOr => [.barAssign]
  | bitXor => [.caretAssign]
  | leftShift => [.shiftLeftAssign]
  | rightShift => [.greater, .greater, .assign]
  | unsignedRightShift => [.greater, .greater, .greater, .assign]

/-- The token that the operator is. -/
def UnaryOperator.token : UnaryOperator → TokenKind
  | preIncrement | postIncrement => .plusPlus
  | preDecrement | postDecrement => .minusMinus
  | positive => .plus
  | negative => .minus
  | complement => .tilde
  | not => .bang

/-- Tokens of these kinds: the first one behind `gap`, each other right behind the one before. -/
inductive Joined : Text → List TokenKind → List Token → Prop
  | nil {gap : Text} : Joined gap [] []
  | cons {gap : Text} {k : TokenKind} {ks : List TokenKind} {o : Token} {os : List Token}
    (hk : o.kind = k) (hg : o.gap = gap) (h : Joined [] ks os) : Joined gap (k :: ks) (o :: os)

/-! ### Trees -/

/-- The tree applies operators to names and decimal numbers, with this space in front of it. One
blank is between any two of its words, where the parser puts it, and no other space. -/
inductive Operation : Space → Tree → Prop
  | identifier {i : NodeId} {s : Space} {name : Text} (h : name.isName) :
    Operation s (.node i s (.identifier name none))
  | literal {i : NodeId} {s : Space} {source : Text} (h : source.isDecimal) :
    Operation s (.node i s (.literal source .int))
  | parentheses {i : NodeId} {s : Space} {inner : Tree} (h : Operation .single inner) :
    Operation s (.node i s (.parentheses ⟨inner, .single⟩))
  | binary {i : NodeId} {s : Space} {left right : Tree} {o : BinaryOperator}
    (hleft : Operation .empty left) (hright : Operation .single right) :
    Operation s (.node i s (.binary left .single o right none))
  | before {i : NodeId} {s : Space} {operand : Tree} {o : UnaryOperator} (ho : o.isPostfix = false)
    (h : Operation .single operand) : Operation s (.node i s (.unary .empty o operand))
  | behind {i : NodeId} {s : Space} {operand : Tree} {o : UnaryOperator} (ho : o.isPostfix)
    (h : Operation .empty operand) : Operation s (.node i s (.unary .single o operand))
  | ternary {i : NodeId} {s : Space} {condition whenTrue whenFalse : Tree}
    (hcondition : Operation .empty condition) (htrue : Operation .single whenTrue)
    (hfalse : Operation .single whenFalse) :
    Operation s (.node i s (.ternary condition ⟨.single, whenTrue⟩ ⟨.single, whenFalse⟩))
  | assignment {i : NodeId} {s : Space} {target value : Tree} (htarget : Operation .empty target)
    (hvalue : Operation .single value) :
    Operation s (.node i s (.assignment target ⟨.single, value⟩))
  | assignmentOperation {i : NodeId} {s : Space} {target value : Tree} {o : AssignmentOperator}
    (htarget : Operation .empty target) (hvalue : Operation .single value) :
    Operation s (.node i s (.assignmentOperation target .single o value))

/-- The tokens of an operation, whatever is in front of it: the first one is behind `gap`. -/
inductive Tokens : Text → Tree → List Token → Prop
  | identifier {gap : Text} {i : NodeId} {s : Space} {u : Token}
    (hu : Joined gap [.identifier] [u]) : Tokens gap (.node i s (.identifier u.text none)) [u]
  | literal {gap : Text} {i : NodeId} {s : Space} {u : Token} (hu : Joined gap [.intLiteral] [u]) :
    Tokens gap (.node i s (.literal u.text .int)) [u]
  | parentheses {gap : Text} {i : NodeId} {s : Space} {inner : Tree} {os us cs : List Token}
    (ho : Joined gap [.openParen] os) (h : Tokens [' '] inner us)
    (hc : Joined [' '] [.closeParen] cs) :
    Tokens gap (.node i s (.parentheses ⟨inner, .single⟩)) (os ++ (us ++ cs))
  | binary {gap : Text} {i : NodeId} {s : Space} {left right : Tree} {o : BinaryOperator}
    {us os vs : List Token} (hleft : Tokens gap left us) (ho : Joined [' '] o.tokens os)
    (hright : Tokens [' '] right vs) :
    Tokens gap (.node i s (.binary left .single o right none)) (us ++ (os ++ vs))
  | before {gap : Text} {i : NodeId} {s : Space} {operand : Tree} {o : UnaryOperator}
    {os us : List Token} (hpost : o.isPostfix = false) (ho : Joined gap [o.token] os)
    (h : Tokens [' '] operand us) : Tokens gap (.node i s (.unary .empty o operand)) (os ++ us)
  | behind {gap : Text} {i : NodeId} {s : Space} {operand : Tree} {o : UnaryOperator}
    {us os : List Token} (hpost : o.isPostfix) (h : Tokens gap operand us)
    (ho : Joined [' '] [o.token] os) : Tokens gap (.node i s (.unary .single o operand)) (us ++ os)
  | ternary {gap : Text} {i : NodeId} {s : Space} {condition whenTrue whenFalse : Tree}
    {us qs vs cs ws : List Token} (hcondition : Tokens gap condition us)
    (hq : Joined [' '] [.question] qs) (htrue : Tokens [' '] whenTrue vs)
    (hc : Joined [' '] [.colon] cs) (hfalse : Tokens [' '] whenFalse ws) :
    Tokens gap (.node i s (.ternary condition ⟨.single, whenTrue⟩ ⟨.single, whenFalse⟩))
      (us ++ (qs ++ (vs ++ (cs ++ ws))))
  | assignment {gap : Text} {i : NodeId} {s : Space} {target value : Tree} {us os vs : List Token}
    (htarget : Tokens gap target us) (ho : Joined [' '] [.assign] os)
    (hvalue : Tokens [' '] value vs) :
    Tokens gap (.node i s (.assignment target ⟨.single, value⟩)) (us ++ (os ++ vs))
  | assignmentOperation {gap : Text} {i : NodeId} {s : Space} {target value : Tree}
    {o : AssignmentOperator} {us os vs : List Token} (htarget : Tokens gap target us)
    (ho : Joined [' '] o.tokens os) (hvalue : Tokens [' '] value vs) :
    Tokens gap (.node i s (.assignmentOperation target .single o value)) (us ++ (os ++ vs))

/-! ### Cutting off at a blank -/

/-- Wherever the text stands, in front of a blank or at the end, it is cut into tokens. They are as
`C` says for the gap in front of the first one. -/
def Text.CutsInto (w : Text) (C : Text → List Token → Prop) : Prop :=
  ∀ offset gap rest, (∀ c ∈ rest.head?, c = ' ') → ∃ us offset', C gap us ∧
    lexFrom offset gap (w ++ rest) = (lexFrom offset' [] rest).map (us ++ ·)

namespace Text.CutsInto

variable {v w : Text} {C D : Text → List Token → Prop}

theorem mono (h : v.CutsInto C) (hCD : ∀ gap us, C gap us → D gap us) : v.CutsInto D := by
  intro offset gap rest hrest
  obtain ⟨us, offset', hus, hlex⟩ := h offset gap rest hrest
  exact ⟨us, offset', hCD gap us hus, hlex⟩

/-- Two texts with a blank between them. -/
theorem blank (hv : v.CutsInto C) (hw : w.CutsInto D) :
    (v ++ ' ' :: w).CutsInto fun gap us => ∃ vs ws, us = vs ++ ws ∧ C gap vs ∧ D [' '] ws := by
  intro offset gap rest hrest
  obtain ⟨vs, o₁, hvs, hlexv⟩ := hv offset gap (' ' :: (w ++ rest)) (by rintro c ⟨⟩; rfl)
  obtain ⟨ws, o₂, hws, hlexw⟩ := hw (o₁ + byteLength [' ']) [' '] rest hrest
  refine ⟨vs ++ ws, o₂, ⟨vs, ws, rfl, hvs, hws⟩, ?_⟩
  have hsingle : ∀ c ∈ [' '], Lexeme.isBlankChar c := List.forall_mem_singleton.2 rfl
  have hblank : lexFrom o₁ [] (' ' :: (w ++ rest)) = (lexFrom o₂ [] rest).map (ws ++ ·) :=
    (lexFrom_blanks hsingle o₁ [] (w ++ rest)).trans hlexw
  rw [List.append_assoc, List.cons_append, hlexv, hblank]
  cases lexFrom o₂ [] rest with
  | error e => rfl
  | ok ts => exact congrArg Except.ok (List.append_assoc vs ws ts).symm

/-- A text that is one token before a blank. -/
theorem token {k : TokenKind} (h : ∀ rest : Text, (∀ c ∈ rest.head?, c = ' ') →
    longest (w ++ rest) = some (.token k, w.length)) :
    w.CutsInto fun gap us => ∃ u, us = [u] ∧ u.kind = k ∧ u.gap = gap ∧ u.text = w := by
  intro offset gap rest hrest
  have hl := h rest hrest
  cases w with
  | nil => exact absurd hl longest_ne_zero
  | cons c w =>
    refine ⟨[⟨k, gap, c :: w, offset⟩], offset + byteLength (c :: w), ⟨_, rfl, rfl, rfl, rfl⟩, ?_⟩
    have htake : (c :: (w ++ rest)).take (w.length + 1) = c :: w := by
      rw [List.take_succ_cons, List.take_left]
    rw [List.cons_append] at hl ⊢
    rw [lexFrom_token hl, htake, List.drop_left]
    rfl

/-- A word before a blank. -/
theorem word {k : TokenKind} (hk : k ∉ TokenKind.symbols)
    (hw : longest w = some (.token k, w.length)) :
    w.CutsInto fun gap us => ∃ u, us = [u] ∧ u.kind = k ∧ u.gap = gap ∧ u.text = w :=
  token fun _ hrest => longest_word hw hk fun c hc => hrest c hc ▸ goesOn_blank w

end Text.CutsInto

theorem Joined.one {u : Token} {k : TokenKind} {gap : Text} (hk : u.kind = k) (hg : u.gap = gap) :
    Joined gap [k] [u] :=
  .cons hk hg .nil

/-! ### Symbols before a blank -/

namespace Lexeme

theorem symbol_ext : ∀ k ∈ TokenKind.symbols, ∀ k' ∈ TokenKind.symbols,
    k.text? = k'.text? → k = k' := by
  decide

theorem blank_of_symbol : ∀ k ∈ TokenKind.symbols, ∀ w ∈ k.text?, ' ' ∉ w := by
  decide

theorem greater_of_symbol : ∀ k ∈ TokenKind.symbols, ∀ w ∈ k.text?, w.head? = some '>' →
    k = .greater ∧ w = ['>'] := by
  decide

theorem slash_of_symbol : ∀ k ∈ TokenKind.symbols, ∀ w ∈ k.text?, w.head? = some '/' →
    w.tail.head?.all fun d => d ≠ '/' ∧ d ≠ '*' := by
  decide

/-- A greater sign is a token whatever is behind it. -/
theorem longest_greater (t : Text) : longest ('>' :: t) = some (.token .greater, 1) := by
  obtain ⟨k, hk, w, hw, -, hl, -⟩ := longest_at_symbol (c := '>') (t := t) (by decide) nofun nofun
  obtain ⟨rfl, heq⟩ := greater_of_symbol k hk _ hw rfl
  cases heq
  exact hl

/-- A symbol is a token before a blank. -/
theorem longest_symbol_blank {k : TokenKind} (hk : k ∈ TokenKind.symbols) {c : Char} {w : Text}
    (hw : k.text? = some (c :: w)) (hc : c ∈ symbolChars) {rest : Text}
    (hrest : ∀ d ∈ rest.head?, d = ' ') :
    longest (c :: (w ++ rest)) = some (.token k, w.length + 1) := by
  have hslash : c = '/' → ∀ d ∈ (w ++ rest).head?, d ≠ '/' ∧ d ≠ '*' := by
    rintro rfl d hd
    cases w with
    | nil =>
      obtain rfl := hrest d hd
      decide
    | cons e w =>
      have hall := slash_of_symbol k hk _ hw rfl
      exact of_decide_eq_true ((Option.all_eq_true _ _).1 hall d hd)
  have hpoint : c = '.' → ∀ d ∈ (w ++ rest).head?, d.isDigit = false := by
    rintro rfl
    exact absurd hc (by decide)
  obtain ⟨k', hk', w', hw', hstart, hl, hle⟩ :=
    longest_at_symbol (List.mem_cons_of_mem _ (List.mem_cons_of_mem _ hc)) hslash hpoint
  -- a longer match would have the blank in it
  obtain ⟨x, rfl⟩ := List.prefix_of_prefix_length_le (List.prefix_append w rest) hstart
    (hle k hk w hw (List.prefix_append w rest))
  cases x with
  | nil =>
    rw [List.append_nil] at hw' hl
    rw [hl, symbol_ext k' hk' k hk (hw'.trans hw.symm)]
  | cons d x =>
    obtain ⟨y, hy⟩ := (List.prefix_append_right_inj w).1 hstart
    obtain rfl : d = ' ' := hrest d (by rw [← hy]; rfl)
    exact absurd (by simp) (blank_of_symbol k' hk' _ hw')

end Lexeme

namespace Text.CutsInto

theorem symbol {k : TokenKind} (hk : k ∈ TokenKind.symbols) {c : Char} {w : Text}
    (hw : k.text? = some (c :: w)) (hc : c ∈ symbolChars) :
    Text.CutsInto (c :: w) fun gap us => Joined gap [k] us := by
  have htoken : Text.CutsInto (c :: w) fun gap us =>
      ∃ u, us = [u] ∧ u.kind = k ∧ u.gap = gap ∧ u.text = c :: w := by
    refine token fun rest hrest => ?_
    rw [List.cons_append, longest_symbol_blank hk hw hc hrest, List.length_cons]
  refine htoken.mono ?_
  rintro gap _ ⟨u, rfl, hu, hgap, -⟩
  exact .one hu hgap

/-- A greater sign is cut off from what is behind it. -/
theorem greater {w : Text} {ks : List TokenKind} (h : w.CutsInto fun gap us => Joined gap ks us) :
    Text.CutsInto ('>' :: w) fun gap us => Joined gap (.greater :: ks) us := by
  intro offset gap rest hrest
  obtain ⟨us, offset', hus, hlex⟩ := h (offset + byteLength ['>']) [] rest hrest
  refine ⟨⟨.greater, gap, ['>'], offset⟩ :: us, offset', .cons rfl rfl hus, ?_⟩
  rw [List.cons_append, lexFrom_token (longest_greater _), List.take_succ_cons, List.take_zero,
    List.drop_zero, hlex]
  cases lexFrom offset' [] rest <;> rfl

end Text.CutsInto

open Text.CutsInto

theorem BinaryOperator.cutsInto (o : BinaryOperator) :
    o.keyword.CutsInto fun gap us => Joined gap o.tokens us := by
  have hgreater : Text.CutsInto ['>'] fun gap us => Joined gap [.greater] us :=
    symbol (by decide) rfl (by decide)
  have hassign : Text.CutsInto ['='] fun gap us => Joined gap [.assign] us :=
    symbol (by decide) rfl (by decide)
  cases o with
  | greaterThan => exact hgreater
  | greaterThanOrEqual => exact hassign.greater
  | rightShift => exact hgreater.greater
  | unsignedRightShift => exact hgreater.greater.greater
  | _ => refine symbol ?_ rfl ?_ <;> decide

theorem AssignmentOperator.cutsInto (o : AssignmentOperator) :
    o.keyword.CutsInto fun gap us => Joined gap o.tokens us := by
  have hassign : Text.CutsInto ['='] fun gap us => Joined gap [.assign] us :=
    symbol (by decide) rfl (by decide)
  cases o with
  | rightShift => exact hassign.greater.greater
  | unsignedRightShift => exact hassign.greater.greater.greater
  | _ => refine symbol ?_ rfl ?_ <;> decide

theorem UnaryOperator.cutsInto (o : UnaryOperator) :
    o.keyword.CutsInto fun gap us => Joined gap [o.token] us := by
  cases o <;> refine symbol ?_ rfl ?_ <;> decide

/-! ### Names and numbers -/

namespace Lexeme

/-- A rule that matches a text as a whole is there, so the longest match is the whole text. -/
theorem longest_whole {v : Text} (hne : v ≠ []) {l : Lexeme} {len : Text → Nat}
    (hm : (l, len) ∈ rules) (hlen : v.length ≤ len v) :
    ∃ l' len', (l', len') ∈ rules ∧ longest v = some (l', v.length) ∧ len' v = v.length := by
  have hpos : 0 < v.length := List.length_pos_iff.2 hne
  obtain ⟨l', len', hm', hl, -⟩ := exists_longest hm (Nat.ne_of_gt (Nat.lt_of_lt_of_le hpos hlen))
  have heq : len' v = v.length :=
    Nat.le_antisymm (longest_le_length hl) (Nat.le_trans hlen (le_of_longest hl hm))
  exact ⟨l', len', hm', heq ▸ hl, heq⟩

theorem runLength_eq_length {p : Char → Bool} {v : Text} (h : v.all p) :
    runLength p v = v.length := by
  rw [runLength, List.takeWhile_eq_self_iff.2 (List.all_eq_true.1 h)]

theorem head_symbol : ∀ k ∈ TokenKind.symbols, ∀ w ∈ k.text?,
    w.head?.any fun c => !isIdentifierPart c := by
  decide

/-- What can match a word that starts as a name or a number does, as a whole. -/
theorem rule_of_whole {c : Char} (hc : isIdentifierPart c) {r : Text} {l : Lexeme}
    {len : Text → Nat} (hm : (l, len) ∈ rules) (hlen : len (c :: r) = (c :: r).length) :
    (∃ k ∈ TokenKind.keywords, l = .token k ∧ k.text? = some (c :: r)) ∨
      (l = .token .intLiteral ∧ len = intLength) ∨
      (l = .token .floatLiteral ∧ len = floatLength) ∨
      l = .token .identifier ∧ len = identifierLength := by
  obtain ⟨hblank, hline, hblock, hunclosed, hstring, hchar⟩ := eq_zero_of_isIdentifierPart hc r
  have hne {f : Text → Nat} (hf : f (c :: r) = 0) : len ≠ f := by
    rintro rfl
    rw [hf] at hlen
    cases hlen
  cases l with
  | blanks => exact absurd (rule_of_mem hm) (hne hblank)
  | lineComment => exact absurd (rule_of_mem hm) (hne hline)
  | blockComment => exact absurd (rule_of_mem hm) (hne hblock)
  | unclosedComment => exact absurd (rule_of_mem hm) (hne hunclosed)
  | token k =>
    rcases token_rule_cases hm with
      ⟨w, hk, hw, rfl⟩ | ⟨rfl, h⟩ | ⟨rfl, h⟩ | ⟨rfl, h⟩ | ⟨rfl, h⟩ | ⟨rfl, h⟩
    · have htake := take_wordLength (w := w) (t := c :: r) (by rw [hlen]; exact Nat.succ_ne_zero _)
      rw [hlen, List.take_length] at htake
      subst htake
      rcases List.mem_append.1 hk with hk | hk
      · exact .inl ⟨k, hk, rfl, hw⟩
      · have hhead := head_symbol k hk _ hw
        rw [List.head?_cons, Option.any_some, hc] at hhead
        cases hhead
    · exact .inr (.inl ⟨rfl, h⟩)
    · exact .inr (.inr (.inl ⟨rfl, h⟩))
    · exact absurd h (hne hstring)
    · exact absurd h (hne hchar)
    · exact .inr (.inr (.inr ⟨rfl, h⟩))

theorem longest_name {v : Text} (h : v.isName) :
    longest v = some (.token .identifier, v.length) := by
  cases v with
  | nil => cases h
  | cons c r =>
    rw [Text.isName, Bool.and_eq_true, Bool.and_eq_true, Bool.not_eq_true'] at h
    obtain ⟨⟨hstart, hrest⟩, hkeyword⟩ := h
    have hpart : isIdentifierPart c := by rw [isIdentifierPart, hstart, Bool.true_or]
    have hdigit : c.isDigit = false := by
      rw [← Bool.not_eq_true]
      intro hd
      rw [isIdentifierStart_eq_false hd] at hstart
      cases hstart
    have hwhole : (c :: r).length ≤ identifierLength (c :: r) := by
      rw [identifierLength, if_pos hstart, runLength_eq_length hrest, List.length_cons,
        Nat.add_comm]
    obtain ⟨l, len, hm, hl, hlen⟩ :=
      longest_whole (List.cons_ne_nil c r) (l := .token .identifier) (by simp [rules]) hwhole
    rcases rule_of_whole hpart hm hlen with ⟨k, hk, -, htext⟩ | ⟨-, rfl⟩ | ⟨-, rfl⟩ | ⟨rfl, -⟩
    · have hany := List.any_eq_false.1 hkeyword k hk
      exact absurd (beq_iff_eq.2 htext) hany
    · have hzero : digitsLength (c :: r) = 0 := by simp [digitsLength, hdigit]
      exact absurd hzero (drop_digitsLength (List.cons_ne_nil c r) hlen).1
    · rw [floatLength_of_isIdentifierStart hstart] at hlen
      cases hlen
    · exact hl

/-- Digits are an integer literal, unless more is. -/
theorem digitsLength_le (t : Text) : digitsLength t ≤ intLength t := by
  have hmax : intLength t = max (if digitsLength t = 0 then 0
      else digitsLength t + optionalChar ['l', 'L'] (t.drop (digitsLength t)))
      (withBaseLength t) := rfl
  refine hmax ▸ Nat.le_trans ?_ (Nat.le_max_left _ _)
  split <;> omega

theorem longest_decimal {v : Text} (h : v.isDecimal) :
    longest v = some (.token .intLiteral, v.length) := by
  cases v with
  | nil => cases h
  | cons c r =>
    obtain ⟨hdigit, hrest⟩ := Bool.and_eq_true_iff.1 h
    have hdigits : digitsLength (c :: r) = (c :: r).length := by
      rw [digitsLength, if_pos hdigit, runLength_eq_length hrest, List.length_cons, Nat.add_comm]
    have hne : digitsLength (c :: r) ≠ 0 := by rw [hdigits]; exact Nat.succ_ne_zero _
    have hwhole : (c :: r).length ≤ intLength (c :: r) := hdigits ▸ digitsLength_le (c :: r)
    obtain ⟨l, len, hm, hl, hlen⟩ :=
      longest_whole (List.cons_ne_nil c r) (l := .token .intLiteral) (by simp [rules]) hwhole
    rcases rule_of_whole (isIdentifierPart_of_isDigit hdigit) hm hlen with
      ⟨k, hk, -, htext⟩ | ⟨rfl, -⟩ | ⟨-, rfl⟩ | ⟨-, rfl⟩
    · have hhead := head_keyword k hk _ htext
      rw [List.head?_cons, Option.any_some, isIdentifierStart_eq_false hdigit] at hhead
      cases hhead
    · exact hl
    · rw [floatLength_eq, if_neg hne, hdigits, List.drop_length] at hlen
      cases hlen
    · rw [identifierLength, if_neg (by simp [isIdentifierStart_eq_false hdigit])] at hlen
      cases hlen

end Lexeme

/-! ### The tokens of an operation -/

/-- What a tree prints behind the space in front of it. -/
def Tree.body (t : Tree) : Text := t.shape.pieces.flatMap Tree.pieceText

theorem Tree.body_node (i : NodeId) (s : Space) (x : Shape Tree) :
    (Tree.node i s x).body = x.pieces.flatMap Tree.pieceText := rfl

namespace Operation

variable {s : Space} {t : Tree}

theorem leading (h : Operation s t) : t.leading = s := by
  cases h <;> rfl

theorem toText_eq (h : Operation s t) : t.toText = s.toText ++ t.body := by
  rw [Tree.toText_eq, h.leading]
  rfl

theorem pieceText_empty (h : Operation .empty t) : Tree.pieceText (.part t) = t.body :=
  h.toText_eq

theorem pieceText_single (h : Operation .single t) : Tree.pieceText (.part t) = ' ' :: t.body :=
  h.toText_eq

/-- **The tokens of an operation** are those of its text. -/
theorem cutsInto (h : Operation s t) : t.body.CutsInto fun gap us => Tokens gap t us := by
  have hblank (l : SpaceSlot) : Tree.pieceText (.space l .single) = [' '] := rfl
  have hnothing (l : SpaceSlot) : Tree.pieceText (.space l .empty) = [] := rfl
  have hword (w : Text) : Tree.pieceText (.word w) = w := rfl
  induction h with
  | @identifier i s name h =>
    have htext : (Tree.node i s (.identifier name none)).body = name := by
      simp [Tree.body_node, Shape.pieces, hword]
    rw [htext]
    refine (Text.CutsInto.word (by decide) (longest_name h)).mono ?_
    rintro gap _ ⟨u, rfl, hk, hgap, rfl⟩
    exact .identifier (.one hk hgap)
  | @literal i s source h =>
    have htext : (Tree.node i s (.literal source .int)).body = source := by
      simp [Tree.body_node, Shape.pieces, hword]
    rw [htext]
    refine (Text.CutsInto.word (by decide) (longest_decimal h)).mono ?_
    rintro gap _ ⟨u, rfl, hk, hgap, rfl⟩
    exact .literal (.one hk hgap)
  | @parentheses i s inner h ih =>
    have htext : (Tree.node i s (.parentheses ⟨inner, .single⟩)).body =
        ['('] ++ ' ' :: (inner.body ++ ' ' :: [')']) := by
      simp [Tree.body_node, Shape.pieces, Piece.followed, h.pieceText_single, hblank, hword]
    have hopen : Text.CutsInto ['('] fun gap us => Joined gap [.openParen] us :=
      symbol (by decide) rfl (by decide)
    have hclose : Text.CutsInto [')'] fun gap us => Joined gap [.closeParen] us :=
      symbol (by decide) rfl (by decide)
    rw [htext]
    refine (hopen.blank (ih.blank hclose)).mono ?_
    rintro gap _ ⟨os, _, rfl, hos, us, cs, rfl, hus, hcs⟩
    exact .parentheses hos hus hcs
  | @binary i s left right o hleft hright ihleft ihright =>
    have htext : (Tree.node i s (.binary left .single o right none)).body =
        left.body ++ ' ' :: (o.keyword ++ ' ' :: right.body) := by
      simp [Tree.body_node, Shape.pieces, hleft.pieceText_empty, hright.pieceText_single, hblank,
        hword]
    rw [htext]
    refine (ihleft.blank (o.cutsInto.blank ihright)).mono ?_
    rintro gap _ ⟨us, _, rfl, hus, os, vs, rfl, hos, hvs⟩
    exact .binary hus hos hvs
  | @before i s operand o ho h ih =>
    have htext : (Tree.node i s (.unary .empty o operand)).body =
        o.keyword ++ ' ' :: operand.body := by
      simp [Tree.body_node, Shape.pieces, ho, h.pieceText_single, hnothing, hword]
    rw [htext]
    refine (o.cutsInto.blank ih).mono ?_
    rintro gap _ ⟨os, us, rfl, hos, hus⟩
    exact .before ho hos hus
  | @behind i s operand o ho h ih =>
    have htext : (Tree.node i s (.unary .single o operand)).body =
        operand.body ++ ' ' :: o.keyword := by
      simp [Tree.body_node, Shape.pieces, ho, h.pieceText_empty, hblank, hword]
    rw [htext]
    refine (ih.blank o.cutsInto).mono ?_
    rintro gap _ ⟨us, os, rfl, hus, hos⟩
    exact .behind ho hus hos
  | @ternary i s condition whenTrue whenFalse hcondition htrue hfalse ihcondition ihtrue ihfalse =>
    have htext : (Tree.node i s
        (.ternary condition ⟨.single, whenTrue⟩ ⟨.single, whenFalse⟩)).body =
        condition.body ++ ' ' :: (['?'] ++ ' ' :: (whenTrue.body ++ ' ' ::
          ([':'] ++ ' ' :: whenFalse.body))) := by
      simp [Tree.body_node, Shape.pieces, Piece.introduced, hcondition.pieceText_empty,
        htrue.pieceText_single, hfalse.pieceText_single, hblank, hword]
    have hquestion : Text.CutsInto ['?'] fun gap us => Joined gap [.question] us :=
      symbol (by decide) rfl (by decide)
    have hcolon : Text.CutsInto [':'] fun gap us => Joined gap [.colon] us :=
      symbol (by decide) rfl (by decide)
    rw [htext]
    refine (ihcondition.blank (hquestion.blank (ihtrue.blank (hcolon.blank ihfalse)))).mono ?_
    rintro gap _ ⟨us, _, rfl, hus, qs, _, rfl, hqs, vs, _, rfl, hvs, cs, ws, rfl, hcs, hws⟩
    exact .ternary hus hqs hvs hcs hws
  | @assignment i s target value htarget hvalue ihtarget ihvalue =>
    have htext : (Tree.node i s (.assignment target ⟨.single, value⟩)).body =
        target.body ++ ' ' :: (['='] ++ ' ' :: value.body) := by
      simp [Tree.body_node, Shape.pieces, Piece.introduced, htarget.pieceText_empty,
        hvalue.pieceText_single, hblank, hword]
    have hassign : Text.CutsInto ['='] fun gap us => Joined gap [.assign] us :=
      symbol (by decide) rfl (by decide)
    rw [htext]
    refine (ihtarget.blank (hassign.blank ihvalue)).mono ?_
    rintro gap _ ⟨us, _, rfl, hus, os, vs, rfl, hos, hvs⟩
    exact .assignment hus hos hvs
  | @assignmentOperation i s target value o htarget hvalue ihtarget ihvalue =>
    have htext : (Tree.node i s (.assignmentOperation target .single o value)).body =
        target.body ++ ' ' :: (o.keyword ++ ' ' :: value.body) := by
      simp [Tree.body_node, Shape.pieces, htarget.pieceText_empty, hvalue.pieceText_single, hblank,
        hword]
    rw [htext]
    refine (ihtarget.blank (o.cutsInto.blank ihvalue)).mono ?_
    rintro gap _ ⟨us, _, rfl, hus, os, vs, rfl, hos, hvs⟩
    exact .assignmentOperation hus hos hvs

/-- The text of an operation at the start of a line is cut into its tokens and the end of the
input. -/
theorem lex_body (h : Operation s t) :
    ∃ us e, Tokens [] t us ∧ e.kind = .eof ∧ lex t.body = .ok (us ++ [e]) := by
  obtain ⟨us, offset', hus, hlex⟩ := h.cutsInto 0 [] [] nofun
  refine ⟨us, ⟨.eof, [], [], offset'⟩, hus, rfl, ?_⟩
  rw [List.append_nil] at hlex
  rw [lex, hlex, lexFrom.eq_def]
  rfl

end Operation

end JavaSource
