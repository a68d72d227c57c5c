import JavaSource.Proofs.ReadingStatements
import JavaSource.Proofs.Lexed

/-!
# Lossless parsing

A tree prints the text that it was parsed from.  The productions read what they give
(`grammar_reads`), so the atoms of a tree are those of the tokens; the tokens with their gaps are
the text.  What a snippet leaves behind its tree is trivia, and the semicolon that a statement
leaves to whoever holds it.

The one construct that is not printed as it was read is an `implements` clause on an interface,
which prints as an `extends` clause (`CarriesImplements`).
-/

namespace JavaSource

/-! ### From atoms to text -/

/-- The text of an atom. -/
def Atom.text : Atom → Text
  | word t => t
  | space s => s.toText

theorem text_wordAtoms (t : Text) : (wordAtoms t).flatMap Atom.text = t := by
  conv => rhs; rw [← flatten_splitSigns t]
  rw [wordAtoms, List.flatMap_map, List.flatMap_def]
  simp [Atom.text]

theorem text_spaceAtoms (s : Space) : (spaceAtoms s).flatMap Atom.text = s.toText := by
  unfold spaceAtoms
  split
  · next h => rw [Space.isEmpty_iff.1 h]; rfl
  · simp [Atom.text]

theorem Tree.text_atoms (t : Tree) : t.atoms.flatMap Atom.text = t.toText := by
  rw [atoms, toText_eq_printed, List.flatMap_assoc]
  refine List.flatMap_congr fun p _ => ?_
  cases p with
  | word w => exact text_wordAtoms w
  | space l s => exact text_spaceAtoms s

namespace Lexed

variable {s : Text} {ts : List Token}

/-- The atoms of the tokens are the text. -/
theorem text_atoms (h : Lexed s ts) (n : NodeId) :
    (Input.atoms ⟨ts, false, n⟩).flatMap Atom.text = s := by
  rw [Input.atoms_fresh, List.flatMap_assoc]
  conv => rhs; rw [← h.flatMap_text]
  refine List.flatMap_congr fun k hk => ?_
  obtain ⟨rest, hg⟩ := h.trivia hk
  rw [Token.atoms, List.flatMap_append, text_spaceAtoms, text_wordAtoms, hg.toText_ofText]

end Lexed

/-! ### The whole grammar -/

/-- **Reading.** Every production reads the tree that it gives, at every level. -/
theorem grammar_reads (n : Nat) : (grammar n).Reads := by
  induction n with
  | zero =>
    have none : Parser.Reads (throw .outOfBudget : Parser Tree) Tree.atoms :=
      fun _ _ => Parser.ensures_throw
    exact ⟨⟨0, rfl⟩, none, none, none, fun _ => none, none, none, none, none⟩
  | succ n ih =>
    exact ⟨⟨n + 1, rfl⟩, Grammar.type_reads ih, Grammar.expression_reads ih,
      Grammar.ternaryExpression_reads ih, Grammar.binaryExpression_reads ih,
      Grammar.unaryExpression_reads ih, Grammar.arrayInitializer_reads ih,
      Grammar.statement_reads ih, Grammar.member_reads ih⟩

/-! ### The end of the input -/

theorem endOfInput_ensures {i : Input} {Q : Unit → Input → Prop} (h : kindOf i.tokens = .eof → Q ⟨⟩ i) :
    endOfInput.Ensures i Q := by
  simp only [endOfInput, Parser.ensures_bind, Parser.ensures_at?, Parser.ensures_ite,
    Parser.ensures_fail, Parser.ensures_pure, Bool.not_eq_true', beq_eq_false_iff_ne,
    not_not, implies_true, true_and]
  exact h

/-- At the end of the input only trivia is left. -/
theorem Input.Sound.trivia_of_eof {i : Input} (hi : i.Sound) (hk : kindOf i.tokens = .eof) :
    Trivia (i.atoms.flatMap Atom.text) [] := by
  obtain ⟨s, hs⟩ := hi.lexed
  rw [atoms_of_eof hi hk]
  split
  · exact .nil
  · obtain ⟨ts, taken, n⟩ := i
    cases hs with
    | eof hg => rw [text_spaceAtoms]; simpa [hg.toText_ofText] using hg
    | token hg hn hs => exact absurd hk (Lexed.ne_eof hn)

/-- Behind a semicolon at the end of the input, and in front of it, only trivia is left. -/
theorem Input.Sound.trivia_of_semicolon {i : Input} (hi : i.Sound)
    (hk : kindOf i.tokens = .semicolon) (he : kindOf i.tokens.tail = .eof) :
    ∃ before trailing, i.atoms.flatMap Atom.text = before ++ ';' :: trailing ∧
      Trivia before (';' :: trailing) ∧ Trivia trailing [] := by
  obtain ⟨ts, taken, n⟩ := i
  obtain ⟨s, hs⟩ := hi.lexed
  cases hs with
  | eof hg => cases hk
  | @token gap source kind m offset ts hg hn hs =>
    obtain rfl : kind = .semicolon := hk
    have hword : source.take (m + 1) = [';'] :=
      (@Lexed.token _ _ _ _ offset _ hg hn hs).spelled (.head _) rfl
    have hsource : source = ';' :: source.drop (m + 1) := by
      conv => lhs; rw [← List.take_append_drop (m + 1) source, hword]
      rfl
    rw [hsource] at hg
    generalize source.drop (m + 1) = trailing at hs hg
    cases hs with
    | token hg' hn' hs' => exact absurd he (Lexed.ne_eof hn')
    | eof hg' =>
      refine ⟨if taken then [] else gap, _, ?_, ?_, hg'⟩
      · cases taken <;>
          simp [atoms, Token.atoms, hword, text_spaceAtoms, text_wordAtoms,
            hg.toText_ofText, hg'.toText_ofText]
      · split
        · exact .nil
        · exact hg

/-! ### The main result -/

/-- No interface that a text declares carries an `implements` clause. -/
def NoImplements (s : Text) : Prop :=
  ∀ ts, lex s = .ok ts → ∀ rest, rest <:+ ts → ¬ CarriesImplements rest

/-- What a source of the kind leaves behind the text of its tree. -/
def SourceKind.Remainder (kind : SourceKind) (t : Tree) (rest : Text) : Prop :=
  match kind with
  | .unit => rest = []
  | .expression => Trivia rest []
  | .statement =>
    if t.needsSemicolon then
      ∃ before trailing, rest = before ++ ';' :: trailing ∧ Trivia before (';' :: trailing) ∧
        Trivia trailing []
    else Trivia rest []

theorem SourceKind.parser_reads (kind : SourceKind) {g : Productions} (hg : g.Reads) {i : Input}
    (hi : i.Sound) :
    (kind.parser g).Ensures i fun t _ =>
      ∃ rest, i.atoms.flatMap Atom.text = t.toText ++ rest ∧ kind.Remainder t rest := by
  cases kind with
  | unit =>
    refine (Grammar.compilationUnit_reads hg hi).mono ?_
    intro t _ e
    exact ⟨[], by rw [e, t.text_atoms, List.append_nil], rfl⟩
  | expression =>
    simp only [parser, Parser.ensures_bind, Parser.ensures_pure]
    refine (Grammar.expression_reads hg i hi).mono ?_
    rintro t j ⟨hj, e⟩
    refine endOfInput_ensures fun hk => ⟨_, ?_, hj.trivia_of_eof hk⟩
    rw [e, List.flatMap_append, t.text_atoms]
  | statement =>
    simp only [parser, Parser.ensures_bind, Parser.ensures_pure]
    refine (Grammar.statement_reads hg i hi).mono ?_
    rintro t j ⟨hj, e⟩
    have htext : i.atoms.flatMap Atom.text = t.toText ++ j.atoms.flatMap Atom.text := by
      rw [e, List.flatMap_append, t.text_atoms]
    simp only [Grammar.terminate, Parser.ensures_ite, Parser.ensures_bind, Parser.ensures_pure,
      Parser.expect, Parser.ensures_at?, Parser.ensures_fail, beq_iff_eq]
    refine ⟨fun hs => ⟨fun hk => ?_, fun _ => trivial⟩, fun hs => ?_⟩
    · refine (Parser.bump_reads_tail hj hk rfl).mono ?_
      rintro _ k ⟨-, hts, -⟩
      refine endOfInput_ensures fun he => ⟨_, htext, ?_⟩
      rw [hts] at he
      rw [Remainder, if_pos hs]
      exact hj.trivia_of_semicolon hk he
    · refine endOfInput_ensures fun he => ⟨_, htext, ?_⟩
      rw [Remainder, if_neg hs]
      exact hj.trivia_of_eof he

/-- **Lossless parsing.** A tree prints the text that it was parsed from, up to what a snippet
leaves behind it. -/
theorem parseFrom_lossless {kind : SourceKind} {s : Text} {firstId nextId : NodeId} {t : Tree}
    (h : parseFrom kind s firstId = .ok (t, nextId)) (hp : NoImplements s) :
    ∃ rest, s = t.toText ++ rest ∧ kind.Remainder t rest := by
  cases hl : lex s with
  | error e => rw [parseFrom, hl] at h; cases h
  | ok ts =>
    rw [parseFrom, hl] at h
    have hlexed := lexed_of_lex hl
    have hi : Input.Sound ⟨ts, false, firstId⟩ := ⟨⟨s, hlexed⟩, hp ts hl⟩
    obtain ⟨rest, e, hrest⟩ : ∃ rest, (Input.atoms ⟨ts, false, firstId⟩).flatMap Atom.text =
        t.toText ++ rest ∧ kind.Remainder t rest := by
      change parseTokens kind ts firstId = .ok (t, nextId) at h
      rw [parseTokens] at h
      cases hr : (kind.parser (grammar (ts.length + 1))).run ⟨ts, false, firstId⟩ with
      | error e => rw [hr] at h; cases h
      | ok r =>
        rw [hr] at h
        cases h
        exact kind.parser_reads (grammar_reads _) hi _ _ hr
    exact ⟨rest, by rw [← e, hlexed.text_atoms], hrest⟩

/-- A list of types that an interface extends is no `implements` clause. -/
theorem noImplements_extends : NoImplements "interface A extends B {}".toList := by
  have htokens : (lex "interface A extends B {}".toList).toOption = some
      [⟨.interfaceWord, [], "interface".toList, 0⟩, ⟨.identifier, [' '], ['A'], 10⟩,
        ⟨.extendsWord, [' '], "extends".toList, 12⟩, ⟨.identifier, [' '], ['B'], 20⟩,
        ⟨.openBrace, [' '], ['{'], 22⟩, ⟨.closeBrace, [], ['}'], 23⟩, ⟨.eof, [], [], 24⟩] := by
    decide +kernel
  intro ts hts rest hr
  rw [hts] at htokens
  cases htokens
  rintro ⟨hk, n, ⟨ts, taken, id⟩, h, j, rfl, hrun, hj⟩
  simp only [List.suffix_cons_iff, List.suffix_nil] at hr
  rcases hr with rfl | rfl | rfl | rfl | rfl | rfl | rfl | rfl
  -- the header of the one interface stops at its brace
  case inl => cases taken <;> (cases hrun; cases hj)
  all_goals cases hk

theorem parseFrom_lossless_extends :
    ∃ t n, parseFrom .unit "interface A extends B {}".toList 0 = .ok (t, n) ∧
      NoImplements "interface A extends B {}".toList ∧
        ∃ rest, "interface A extends B {}".toList = t.toText ++ rest ∧
          SourceKind.unit.Remainder t rest := by
  cases h : parseFrom .unit "interface A extends B {}".toList 0 with
  | error e =>
    have hok : (parseFrom .unit "interface A extends B {}".toList 0).toOption.isSome := by
      decide +kernel
    rw [h] at hok
    cases hok
  | ok r =>
    exact ⟨r.1, r.2, rfl, noImplements_extends, parseFrom_lossless h noImplements_extends⟩

end JavaSource
