import JavaSource.Proofs.Truncated

/-!
# How tokens lie in a text

`Cuts` is the run of the lexer from one place of a text to another.  It ends at the end of the text,
or where the lexer gives up (`exists_cuts`), and it is the same in the text that ends where it does
(`Cuts.truncated`).  So a text that can be lexed is cut into its tokens and the gaps before them
(`Partition`), and of a text that cannot, the part before the error is (`lex_partition`).  A gap is
made of blanks and comments, and the reader of spaces finds in it what the lexer passed (`IsGap`).
-/

namespace JavaSource

/-! ### Blanks and comments -/

/-- One blank, a comment to the end of a line, or a comment with its close. -/
inductive Trivium : Text → Prop
  | blank {c : Char} (hc : Lexeme.isBlankChar c) : Trivium [c]
  | line {body : Text} (hb : ∀ c ∈ body, isInLine c) : Trivium ('/' :: '/' :: body)
  | block {body : Text} (hb : ¬ ['*', '/'] <:+: body ++ ['*']) :
    Trivium ('/' :: '*' :: (body ++ ['*', '/']))

/-- The space that is read from the text is the text, its comments are comments of the text, and
there are only blanks around them. -/
structure IsGap (g : Text) : Prop where
  pieces : ∃ pieces : List Text, g = pieces.flatten ∧ ∀ p ∈ pieces, Trivium p
  toText : (Space.ofText g).toText = g
  whitespace : ∀ c ∈ (Space.ofText g).whitespace, Lexeme.isBlankChar c
  comments : ∀ m ∈ (Space.ofText g).comments,
    Trivium m.delimited ∧ ∀ c ∈ m.suffix, Lexeme.isBlankChar c

/-- The first close ends the part before it: with the star there is no other. -/
theorem not_infix_of_splitClose {t body others : Text}
    (h : Text.splitClose t = (body, some others)) : ¬ ['*', '/'] <:+: body ++ ['*'] := by
  fun_induction Text.splitClose t generalizing body with
  | case1 => cases h
  | case2 r =>
    cases h
    exact fun hinfix => absurd hinfix.length_le (by decide)
  | case3 c r hr ih =>
    obtain ⟨rfl, h₂⟩ := Prod.mk.inj h
    have hsplit : r = (Text.splitClose r).1 ++ '*' :: '/' :: others :=
      Text.splitClose_append (Prod.ext rfl h₂)
    intro hinfix
    rw [List.cons_append] at hinfix
    rcases List.infix_cons_iff.1 hinfix with hprefix | hinfix
    · -- a slash behind the star would close the comment here
      obtain ⟨rfl, hslash⟩ := List.cons_prefix_cons.1 hprefix
      cases hbody : (Text.splitClose r).1 with
      | nil => rw [hbody] at hslash; exact absurd hslash (by decide)
      | cons d body =>
        rw [hbody] at hslash hsplit
        obtain ⟨rfl, -⟩ := List.cons_prefix_cons.1 hslash
        exact hr _ rfl hsplit
    · exact ih (Prod.ext rfl h₂) hinfix

/-- Without a first close there is none. -/
theorem not_infix_of_splitClose_none {t : Text} (h : (Text.splitClose t).2 = none) :
    ¬ ['*', '/'] <:+: t := by
  fun_induction Text.splitClose t with
  | case1 => exact fun hinfix => absurd hinfix.length_le (by decide)
  | case2 r => cases h
  | case3 c r hr ih =>
    intro hinfix
    rcases List.infix_cons_iff.1 hinfix with hprefix | hinfix
    · obtain ⟨rfl, s, rfl⟩ := List.cons_prefix_cons.1 hprefix
      exact hr s rfl rfl
    · exact ih h hinfix

theorem trivium_block {text body others : Text} (hs : Text.splitClose text = (body, some others)) :
    Trivium ('/' :: '*' :: (body ++ ['*', '/'])) := .block (not_infix_of_splitClose hs)

namespace Trivia

variable {g rest : Text}

/-- The space of trivia has blanks between comments. -/
theorem spaced (h : Trivia g rest) :
    (∀ c ∈ (Space.ofText g).whitespace, Lexeme.isBlankChar c) ∧
      ∀ m ∈ (Space.ofText g).comments,
        Trivium m.delimited ∧ ∀ c ∈ m.suffix, Lexeme.isBlankChar c := by
  unfold Space.ofText
  induction h with
  | nil => simp [splitComment, readComments]
  | @blank c t rest hc h ih =>
    have hopen : ¬ opensComment (c :: t) := by
      unfold opensComment
      split <;> simp_all [Lexeme.isBlankChar]
    rw [splitComment, if_neg hopen]
    exact ⟨List.forall_mem_cons.2 ⟨hc, ih.1⟩, ih.2⟩
  | @line body t rest hb ht h ih =>
    have ht' : ∀ c ∈ t.head?, isInLine c = false := by
      intro c hc
      cases t with
      | nil => cases hc
      | cons d t => exact ht c hc
    obtain ⟨htake, hdrop⟩ := takeWhile_append hb ht'
    rw [splitComment_of_opens rfl, readComments, htake, hdrop]
    refine ⟨List.forall_mem_nil _, List.forall_mem_cons.2 ⟨⟨?_, ih.1⟩, ih.2⟩⟩
    rw [Comment.delimited, CommentStyle.opening, CommentStyle.closing, List.append_nil]
    exact .line hb
  | @block body text t rest hs h ih =>
    rw [splitComment_of_opens rfl, readComments_block hs]
    refine ⟨List.forall_mem_nil _, List.forall_mem_cons.2 ⟨⟨?_, ih.1⟩, ih.2⟩⟩
    have hdelimited := (splitBlockComment_of_splitClose hs).2
    rw [Comment.delimited, List.append_assoc, hdelimited]
    exact trivium_block hs

theorem isGap (h : Trivia g rest) : IsGap g := by
  obtain ⟨hwhitespace, hcomments⟩ := h.spaced
  have hblanks {b : Text} (hb : ∀ c ∈ b, Lexeme.isBlankChar c) :
      ∀ p ∈ b.map fun c => [c], Trivium p :=
    List.forall_mem_map.2 fun c hc => .blank (hb c hc)
  have hflatten (b : Text) : (b.map fun c => [c]).flatten = b := by
    rw [← List.flatMap_def, List.flatMap_singleton']
  refine ⟨⟨(Space.ofText g).whitespace.map (fun c => [c]) ++ (Space.ofText g).comments.flatMap
    fun m => m.delimited :: m.suffix.map fun c => [c], ?_, ?_⟩, h.toText_ofText, hwhitespace,
    hcomments⟩
  · conv => lhs; rw [← h.toText_ofText, Space.toText]
    rw [List.flatten_append, hflatten, List.flatMap_def, List.flatMap_def, List.flatten_flatten,
      List.map_map]
    simp only [Function.comp_def, List.flatten_cons, hflatten]
  · intro p hp
    rcases List.mem_append.1 hp with hp | hp
    · exact hblanks hwhitespace p hp
    · obtain ⟨m, hm, hp⟩ := List.mem_flatMap.1 hp
      rcases List.mem_cons.1 hp with rfl | hp
      · exact (hcomments m hm).1
      · exact hblanks (hcomments m hm).2 p hp

end Trivia

/-! ### The run of the lexer -/

/-- Where the lexer has passed `gap` and stands at a byte offset before `t`, it cuts the tokens `ts`
off, has then passed `gap'` and stands before `rest`. Each cut is the longest match. -/
inductive Cuts : Nat → Text → Text → List Token → Text → Text → Prop
  | done {offset : Nat} {gap t : Text} : Cuts offset gap t [] gap t
  | trivia {offset n : Nat} {gap t gap' rest : Text} {l : Lexeme} {ts : List Token}
    (hn : Lexeme.longest t = some (l, n + 1))
    (hl : l = .blanks ∨ l = .lineComment ∨ l = .blockComment)
    (h : Cuts (offset + Text.byteLength (t.take (n + 1))) (gap ++ t.take (n + 1)) (t.drop (n + 1))
      ts gap' rest) : Cuts offset gap t ts gap' rest
  | token {offset n : Nat} {gap t gap' rest : Text} {kind : TokenKind} {ts : List Token}
    (hn : Lexeme.longest t = some (.token kind, n + 1))
    (h : Cuts (offset + Text.byteLength (t.take (n + 1))) [] (t.drop (n + 1)) ts gap' rest) :
    Cuts offset gap t (⟨kind, gap, t.take (n + 1), offset⟩ :: ts) gap' rest

/-- The last token, at the end of a text of this length. -/
def Token.atEnd (gap : Text) (length : Nat) : Token := ⟨.eof, gap, [], length⟩

/-- The lexer stops before `rest` with this error. -/
inductive Fails (rest : Text) (offset : Nat) : SyntaxError → Prop
  /-- No rule matches. -/
  | invalid (hne : rest ≠ []) (h : ∀ rule ∈ Lexeme.rules, rule.2 rest = 0) :
    Fails rest offset (.invalidToken offset)
  /-- A comment is opened and not closed. -/
  | unclosed {body : Text} (hrest : rest = '/' :: '*' :: body) (h : ¬ ['*', '/'] <:+: body) :
    Fails rest offset (.unclosedComment offset)

namespace Cuts

variable {offset : Nat} {gap gap' t rest : Text} {ts : List Token}

theorem suffix (h : Cuts offset gap t ts gap' rest) : rest <:+ t := by
  induction h with
  | done => exact List.suffix_refl _
  | trivia _ _ _ ih => exact ih.trans (List.drop_suffix _ _)
  | token _ _ ih => exact ih.trans (List.drop_suffix _ _)

/-- **The run does not hang on what stands behind its end.** -/
theorem truncated {read : Text} (h : Cuts offset gap (read ++ rest) ts gap' rest) :
    Cuts offset gap read ts gap' [] := by
  generalize ht : read ++ rest = t at h
  -- what is cut off lies before `rest`
  have hlt {n : Nat} {read rest : Text} (hrest : rest <:+ (read ++ rest).drop n)
      (hn : n ≤ (read ++ rest).length) : n ≤ read.length := by
    have hle := hrest.length_le
    rw [List.length_drop, List.length_append] at hle
    rw [List.length_append] at hn
    omega
  induction h generalizing read with
  | done =>
    obtain rfl : read = [] := by simpa using ht
    exact .done
  | @trivia offset n gap t gap' rest l ts hn hl h ih =>
    subst ht
    have hle := hlt h.suffix (Lexeme.longest_le_length hn)
    rw [List.take_append_of_le_length hle, List.drop_append_of_le_length hle] at ih
    exact .trivia (Lexeme.longest_of_append hn hle) hl (ih rfl)
  | @token offset n gap t gap' rest kind ts hn h ih =>
    subst ht
    have hle := hlt h.suffix (Lexeme.longest_le_length hn)
    rw [List.drop_append_of_le_length hle] at ih
    rw [List.take_append_of_le_length hle] at ih ⊢
    exact .token (Lexeme.longest_of_append hn hle) (ih rfl)

theorem byteLength_take_add_drop (t : Text) (n : Nat) :
    Text.byteLength (t.take n) + Text.byteLength (t.drop n) = Text.byteLength t := by
  rw [← Text.byteLength_append, List.take_append_drop]

/-- A run to the end of the text is what the lexer answers. -/
theorem lexFrom_eq (h : Cuts offset gap t ts gap' rest) (hrest : rest = []) :
    lexFrom offset gap t = .ok (ts ++ [.atEnd gap' (offset + Text.byteLength t)]) := by
  induction h with
  | done =>
    subst hrest
    rw [lexFrom.eq_def]
    rfl
  | @trivia offset n gap t gap' rest l ts hn hl h ih =>
    cases t with
    | nil => exact absurd (Lexeme.longest_le_length hn) (Nat.not_succ_le_zero n)
    | cons c t =>
      have hrun := ih hrest
      rw [Nat.add_assoc, byteLength_take_add_drop] at hrun
      rw [lexFrom_trivia hn hl]
      exact hrun
  | @token offset n gap t gap' rest kind ts hn h ih =>
    cases t with
    | nil => exact absurd (Lexeme.longest_le_length hn) (Nat.not_succ_le_zero n)
    | cons c t =>
      have hrun := ih hrest
      rw [Nat.add_assoc, byteLength_take_add_drop, List.drop_succ_cons] at hrun
      rw [lexFrom_token hn, hrun]
      rfl

/-- The tokens that are cut off have a text, and none of them is the end of the input. -/
theorem forall_token (h : Cuts offset gap t ts gap' rest) :
    ∀ k ∈ ts, k.kind ≠ .eof ∧ k.text ≠ [] := by
  induction h with
  | done => exact nofun
  | trivia _ _ _ ih => exact ih
  | @token offset n gap t gap' rest kind ts hn h ih =>
    refine List.forall_mem_cons.2 ⟨⟨Lexed.ne_eof hn, fun htext => ?_⟩, ih⟩
    rcases List.take_eq_nil_iff.1 htext with hzero | rfl
    · exact Nat.succ_ne_zero n hzero
    · exact absurd (Lexeme.longest_le_length hn) (Nat.not_succ_le_zero n)

end Cuts

/-- The run from a place of a text on, with the lexer's answer: the lexer comes to the end, or it
fails where the run stops. -/
def RunsTo (offset : Nat) (gap t : Text) (answer : Except SyntaxError (List Token)) : Prop :=
  ∃ ts gap' read rest, t = read ++ rest ∧ Cuts offset gap t ts gap' rest ∧
    match answer with
    | .ok ts' => rest = [] ∧ ts' = ts ++ [.atEnd gap' (offset + Text.byteLength read)]
    | .error e => Fails rest (offset + Text.byteLength read) e

namespace RunsTo

variable {offset n : Nat} {gap t : Text} {answer : Except SyntaxError (List Token)}

/-- The lexer fails at once. -/
theorem fails {e : SyntaxError} (h : Fails t offset e) : RunsTo offset gap t (.error e) :=
  ⟨[], gap, [], t, rfl, .done, h⟩

theorem trivia {l : Lexeme} (hn : Lexeme.longest t = some (l, n + 1))
    (hl : l = .blanks ∨ l = .lineComment ∨ l = .blockComment)
    (h : RunsTo (offset + Text.byteLength (t.take (n + 1))) (gap ++ t.take (n + 1)) (t.drop (n + 1))
      answer) : RunsTo offset gap t answer := by
  obtain ⟨ts, gap', read, rest, hdrop, hcuts, hanswer⟩ := h
  refine ⟨ts, gap', t.take (n + 1) ++ read, rest, ?_, .trivia hn hl hcuts, ?_⟩
  · rw [List.append_assoc, ← hdrop, List.take_append_drop]
  · rw [Text.byteLength_append, ← Nat.add_assoc]
    exact hanswer

theorem token {kind : TokenKind} (hn : Lexeme.longest t = some (.token kind, n + 1))
    (h : RunsTo (offset + Text.byteLength (t.take (n + 1))) [] (t.drop (n + 1)) answer) :
    RunsTo offset gap t (answer.map fun ts => ⟨kind, gap, t.take (n + 1), offset⟩ :: ts) := by
  obtain ⟨ts, gap', read, rest, hdrop, hcuts, hanswer⟩ := h
  refine ⟨_ :: ts, gap', t.take (n + 1) ++ read, rest, ?_, .token hn hcuts, ?_⟩
  · rw [List.append_assoc, ← hdrop, List.take_append_drop]
  · rw [Text.byteLength_append, ← Nat.add_assoc]
    cases answer with
    | error e => exact hanswer
    | ok ts' => exact ⟨hanswer.1, congrArg (_ :: ·) hanswer.2⟩

end RunsTo

/-- **The lexer runs on** to the end of the text, or up to where it fails. -/
theorem runsTo_lexFrom (offset : Nat) (gap t : Text) :
    RunsTo offset gap t (lexFrom offset gap t) := by
  fun_induction lexFrom offset gap t with
  | case1 offset gap => exact ⟨[], gap, [], [], rfl, .done, rfl, rfl⟩
  | case2 offset gap c cs hn =>
    exact .fails (.invalid (List.cons_ne_nil c cs) (Lexeme.longest_eq_none_iff.1 hn))
  | case3 offset gap c cs l hn => exact absurd hn Lexeme.longest_ne_zero
  | case4 offset gap c cs n text next hn ih => exact .trivia hn (.inl rfl) ih
  | case5 offset gap c cs n text next hn ih => exact .trivia hn (.inr (.inl rfl)) ih
  | case6 offset gap c cs n text next hn ih => exact .trivia hn (.inr (.inr rfl)) ih
  | case7 offset gap c cs n hn =>
    obtain ⟨len, hm, hlen⟩ := Lexeme.mem_rules_of_longest hn
    obtain rfl : len = Lexeme.unclosedCommentLength := Lexeme.rule_of_mem hm
    unfold Lexeme.unclosedCommentLength at hlen
    split at hlen
    · next body heq =>
      split at hlen
      · next hnone =>
        refine .fails (.unclosed heq (not_infix_of_splitClose_none ?_))
        exact Option.isNone_iff_eq_none.1 hnone
      · cases hlen
    · cases hlen
  | case8 offset gap c cs n text next kind hn ih =>
    have hrun : RunsTo offset gap (c :: cs) _ := RunsTo.token hn ih
    cases hrest : lexFrom next [] (cs.drop n) <;> rw [hrest] at hrun <;> exact hrun

/-! ### Spans -/

/-- From the byte offset `i` up to `j` the text reads `t`. -/
def Text.Spans (s : Text) (i j : Nat) (t : Text) : Prop :=
  ∃ before after, s = before ++ t ++ after ∧ byteLength before = i ∧ byteLength (before ++ t) = j

/-- From the byte offset `p` to its end, the text is the gaps and texts of the tokens in turn. -/
def Tiles (s : Text) : Nat → List Token → Prop
  | p, [] => p = Text.byteLength s
  | p, k :: ts => s.Spans p k.start k.gap ∧ s.Spans k.start k.stop k.text ∧ Tiles s k.stop ts

namespace Tiles

variable {s : Text} {p : Nat} {ts : List Token}

theorem spans_le {i j : Nat} {t : Text} (h : s.Spans i j t) : i ≤ j ∧ j ≤ Text.byteLength s := by
  obtain ⟨before, after, rfl, rfl, rfl⟩ := h
  refine ⟨?_, ?_⟩
  · rw [Text.byteLength_append]
    exact Nat.le_add_right _ _
  · rw [Text.byteLength_append (before ++ t)]
    exact Nat.le_add_right _ _

/-- The tokens stand behind the offset where they start, and within the text. -/
theorem bounds (h : Tiles s p ts) : ∀ k ∈ ts, p ≤ k.start ∧ k.stop ≤ Text.byteLength s := by
  induction ts generalizing p with
  | nil => exact nofun
  | cons k ts ih =>
    obtain ⟨hgap, htext, h⟩ := h
    refine List.forall_mem_cons.2 ⟨⟨(spans_le hgap).1, (spans_le htext).2⟩, fun k' hk' => ?_⟩
    have hafter := ih h k' hk'
    exact ⟨((spans_le hgap).1.trans (spans_le htext).1).trans hafter.1, hafter.2⟩

/-- No token starts before the one in front of it ends. -/
theorem pairwise (h : Tiles s p ts) : ts.Pairwise fun a b => a.stop ≤ b.start := by
  induction ts generalizing p with
  | nil => exact .nil
  | cons k ts ih => exact .cons (fun k' hk' => (h.2.2.bounds k' hk').1) (ih h.2.2)

end Tiles

/-- What is passed and cut off, one after the other, is the text. -/
theorem Cuts.tiles {offset : Nat} {gap t gap' rest : Text} {ts : List Token}
    (h : Cuts offset gap t ts gap' rest) (hrest : rest = []) {s before : Text}
    (hs : s = before ++ gap ++ t) (hoffset : Text.byteLength (before ++ gap) = offset) :
    Tiles s (Text.byteLength before) (ts ++ [.atEnd gap' (Text.byteLength s)]) := by
  induction h generalizing before with
  | @done offset gap t =>
    subst hrest
    rw [List.append_nil] at hs
    subst hs
    refine ⟨⟨before, [], (List.append_nil _).symm, rfl, rfl⟩, ⟨before ++ gap, [], ?_, rfl, ?_⟩, ?_⟩
    · rw [Token.atEnd, List.append_nil, List.append_nil]
    · rw [Token.atEnd, Token.stop, List.append_nil]
      rfl
    · rfl
  | @trivia offset n gap t gap' rest l ts hn hl h ih =>
    refine ih hrest ?_ ?_
    · rw [hs, List.append_assoc, List.append_assoc, List.append_assoc, List.take_append_drop]
    · rw [← List.append_assoc, Text.byteLength_append, hoffset]
  | @token offset n gap t gap' rest kind ts hn h ih =>
    have hsplit : s = before ++ gap ++ t.take (n + 1) ++ t.drop (n + 1) := by
      rw [hs, List.append_assoc _ (t.take _), List.take_append_drop]
    have hstop : Text.byteLength (before ++ gap ++ t.take (n + 1)) =
        offset + Text.byteLength (t.take (n + 1)) := by
      rw [Text.byteLength_append, hoffset]
    refine ⟨⟨before, t, hs, rfl, hoffset⟩, ⟨before ++ gap, _, hsplit, hoffset, hstop⟩, ?_⟩
    have hs' : s = before ++ gap ++ t.take (n + 1) ++ [] ++ t.drop (n + 1) := by
      rw [List.append_nil, hsplit]
    have hbehind := ih hrest hs' (by rw [List.append_nil, hstop])
    rw [hstop] at hbehind
    exact hbehind

/-! ### The text of tokens -/

/-- A text cut into tokens. -/
structure Partition (s : Text) (ts : List Token) : Prop where
  /-- The tokens are cut off by longest matches, and behind them there is the end of the input. -/
  cuts : ∃ tokens gap, Cuts 0 [] s tokens gap [] ∧
    ts = tokens ++ [.atEnd gap (Text.byteLength s)] ∧ ∀ k ∈ tokens, k.kind ≠ .eof
  tiles : Tiles s 0 ts
  start_lt_stop : ∀ k ∈ ts, k.kind ≠ .eof → k.start < k.stop
  stop_le : ∀ k ∈ ts, k.stop ≤ Text.byteLength s
  pairwise : ts.Pairwise fun a b => a.stop ≤ b.start
  isGap : ∀ k ∈ ts, IsGap k.gap

theorem Partition.of_cuts {s gap : Text} {tokens : List Token} (h : Cuts 0 [] s tokens gap []) :
    Partition s (tokens ++ [.atEnd gap (Text.byteLength s)]) := by
  have htiles : Tiles s (Text.byteLength []) (tokens ++ [.atEnd gap (Text.byteLength s)]) :=
    h.tiles rfl rfl rfl
  have hlexed : Lexed s (tokens ++ [.atEnd gap (Text.byteLength s)]) := by
    refine lexed_of_lex ((h.lexFrom_eq rfl).trans ?_)
    rw [Nat.zero_add]
  refine ⟨⟨tokens, gap, h, rfl, fun k hk => (h.forall_token k hk).1⟩, htiles, fun k hk hkind => ?_,
    fun k hk => (htiles.bounds k hk).2, htiles.pairwise, fun k hk => ?_⟩
  · rcases List.mem_append.1 hk with hk | hk
    · have hpos : 0 < Text.byteLength k.text := by
        have htext := (h.forall_token k hk).2
        cases ht : k.text with
        | nil => exact absurd ht htext
        | cons c t => exact Nat.lt_of_lt_of_le c.utf8Size_pos (Nat.le_add_right _ _)
      exact Nat.lt_add_of_pos_right hpos
    · obtain rfl := List.mem_singleton.1 hk
      exact absurd rfl hkind
  · obtain ⟨rest, hgap⟩ := hlexed.trivia hk
    exact hgap.isGap

/-- The lexer stops at the offset of the error. What it has cut off up to there are the tokens of
the text that ends there, and it fails on what is behind. -/
def StopsAt (s : Text) (e : SyntaxError) : Prop :=
  ∃ read rest tokens gap, s = read ++ rest ∧ Cuts 0 [] s tokens gap rest ∧
    lex read = .ok (tokens ++ [.atEnd gap (Text.byteLength read)]) ∧
    Partition read (tokens ++ [.atEnd gap (Text.byteLength read)]) ∧
    Fails rest (Text.byteLength read) e

/-- **The lexer cuts a text** into tokens and gaps, and where it fails, what is before the error. -/
theorem lex_partition (s : Text) :
    match lex s with
    | .ok ts => Partition s ts
    | .error e => StopsAt s e := by
  obtain ⟨tokens, gap, read, rest, hs, hcuts, hanswer⟩ := runsTo_lexFrom 0 [] s
  rw [Nat.zero_add] at hanswer
  change match lexFrom 0 [] s with
    | .ok ts => Partition s ts
    | .error e => StopsAt s e
  cases hlex : lexFrom 0 [] s with
  | ok ts =>
    rw [hlex] at hanswer
    obtain ⟨rfl, rfl⟩ := hanswer
    rw [List.append_nil] at hs
    subst hs
    exact .of_cuts hcuts
  | error e =>
    rw [hlex] at hanswer
    have hread : Cuts 0 [] read tokens gap [] := Cuts.truncated (hs ▸ hcuts)
    refine ⟨read, rest, tokens, gap, hs, hcuts, ?_, .of_cuts hread, hanswer⟩
    rw [lex, hread.lexFrom_eq rfl, Nat.zero_add]

end JavaSource
