import JavaSource.Proofs.ReadingBodies
import JavaSource.Grammar.Expression

/-!
# Expressions are read without loss

Tokens that directly follow each other (`Adjoining`) spell an operator; between them there is no
space that `skip` could drop.
-/

namespace JavaSource.Grammar

open JavaSource.Parser Lookahead

variable {g : Productions}

/-! ### Operators of several tokens -/

/-- The tokens start with tokens of these kinds, and there are no gaps before these. -/
def Adjoining : List Token → List TokenKind → Prop
  | _, [] => True
  | [], _ :: _ => False
  | t :: ts, k :: ks => t.gap = [] ∧ t.kind = k ∧ Adjoining ts ks

/-- The atoms of tokens of these kinds. -/
def kindAtoms (ks : List TokenKind) : List Atom := ks.flatMap fun k => wordAtoms (k.text?.getD [])

/-- The tokens start with tokens of these kinds, and there are no gaps between these. -/
def Spelling (ts : List Token) : List TokenKind → Prop
  | [] => True
  | k :: ks => kindOf ts = k ∧ Adjoining (ts.drop 1) ks

theorem isJoined_one {t : Token} {ts : List Token} {k : TokenKind} (h : isJoined (t :: ts) 1 k) :
    Adjoining ts [k] := by
  cases ts <;> simp_all [isJoined, Adjoining]

theorem isJoined_two {t : Token} {ts : List Token} {k₁ k₂ : TokenKind}
    (h₁ : isJoined (t :: ts) 1 k₁) (h₂ : isJoined (t :: ts) 2 k₂) : Adjoining ts [k₁, k₂] := by
  rcases ts with _ | ⟨a, _ | ⟨b, ts⟩⟩ <;> simp_all [isJoined, Adjoining]

theorem isJoined_three {t : Token} {ts : List Token} {k₁ k₂ k₃ : TokenKind}
    (h₁ : isJoined (t :: ts) 1 k₁) (h₂ : isJoined (t :: ts) 2 k₂)
    (h₃ : isJoined (t :: ts) 3 k₃) : Adjoining ts [k₁, k₂, k₃] := by
  rcases ts with _ | ⟨a, _ | ⟨b, _ | ⟨c, ts⟩⟩⟩ <;> simp_all [isJoined, Adjoining]

theorem skip_adjoining {ks : List TokenKind} (hks : ∀ k ∈ ks, k.text?.isSome) {i : Input}
    (hi : i.Sound) (h : Adjoining i.tokens ks) :
    (skip ks.length).Ensures i fun _ j => j.Sound ∧ i.atoms = kindAtoms ks ++ j.atoms := by
  induction ks generalizing i with
  | nil => exact ensures_pure.2 ⟨hi, rfl⟩
  | cons k ks ih =>
    obtain ⟨ts, taken, n⟩ := i
    cases ts with
    | nil => exact h.elim
    | cons t ts =>
      obtain ⟨hgap, hk, hts⟩ := h
      obtain ⟨w, hw⟩ := Option.isSome_iff_exists.1 (hks k (.head _))
      simp only [List.length_cons, skip, ensures_bind]
      refine (bump_reads_free hi (.inr hgap) hk hw).mono ?_
      rintro _ j ⟨hj, htail, e⟩
      refine (ih (fun k hk => hks k (.tail _ hk)) hj (htail ▸ hts)).mono ?_
      rintro _ l ⟨hl, e'⟩
      exact ⟨hl, by simp [e, e', kindAtoms, hw]⟩

/-- An operator is skipped behind the space before it. -/
theorem skip_spelling {ks : List TokenKind} (hks : ∀ k ∈ ks, k.text?.isSome) {i : Input}
    (hi : i.Sound) (ht : i.gapTaken) (h : Spelling i.tokens ks) :
    (skip ks.length).Ensures i fun _ j => j.Sound ∧ i.atoms = kindAtoms ks ++ j.atoms := by
  cases ks with
  | nil => exact ensures_pure.2 ⟨hi, rfl⟩
  | cons k ks =>
    obtain ⟨w, hw⟩ := Option.isSome_iff_exists.1 (hks k (.head _))
    simp only [List.length_cons, skip, ensures_bind]
    refine (bump_reads_free hi (.inl ht) h.1 hw).mono ?_
    rintro _ j ⟨hj, htail, e⟩
    rw [← List.drop_one] at htail
    refine (skip_adjoining (fun k hk => hks k (.tail _ hk)) hj (htail ▸ h.2)).mono ?_
    rintro _ l ⟨hl, e'⟩
    exact ⟨hl, by simp [e, e', kindAtoms, hw]⟩

/-- The tokens of an operator. -/
structure Operator (ts : List Token) (width : Nat) (w : Text) (ks : List TokenKind) : Prop where
  spelling : Spelling ts ks
  fixed : ∀ k ∈ ks, k.text?.isSome
  width : ks.length = width
  atoms : kindAtoms ks = wordAtoms w

theorem Operator.skip_reads {width : Nat} {w : Text} {ks : List TokenKind} {i : Input}
    (h : Operator i.tokens width w ks) (hi : i.Sound) (ht : i.gapTaken) :
    (skip width).Ensures i fun _ j => j.Sound ∧ i.atoms = wordAtoms w ++ j.atoms := by
  rw [← h.width, ← h.atoms]
  exact skip_spelling h.fixed hi ht h.spelling

theorem Operator.single {ts : List Token} {k : TokenKind} {w : Text} (hk : kindOf ts = k)
    (hw : k.text? = some w) : Operator ts 1 w [k] where
  spelling := ⟨hk, by simp [Adjoining]⟩
  fixed := by simp [hw]
  width := rfl
  atoms := by simp [kindAtoms, hw]

theorem greaterAhead_operator {ts : List Token} {operator : BinaryOperator} {width : Nat}
    (hk : kindOf ts = .greater) (h : greaterAhead ts = some (operator, width)) :
    ∃ ks, Operator ts width operator.keyword ks := by
  cases ts with
  | nil => cases hk
  | cons t ts =>
    unfold greaterAhead at h
    split at h
    case isTrue h₁ =>
      split at h
      case isTrue h₂ =>
        split at h
        · cases h
        · cases h
          exact ⟨[.greater, .greater, .greater], ⟨hk, isJoined_two h₁ h₂⟩, by decide, rfl, rfl⟩
      case isFalse =>
        split at h
        · cases h
        · cases h
          exact ⟨[.greater, .greater], ⟨hk, isJoined_one h₁⟩, by decide, rfl, rfl⟩
    case isFalse =>
      split at h
      case isTrue h₁ =>
        cases h
        exact ⟨[.greater, .assign], ⟨hk, isJoined_one h₁⟩, by decide, rfl, rfl⟩
      case isFalse =>
        cases h
        exact ⟨_, .single hk rfl⟩

theorem binaryAhead_operator {ts : List Token} {operator : BinaryOperator} {width : Nat}
    (h : binaryAhead ts = some (operator, width)) :
    ∃ ks, Operator ts width operator.keyword ks := by
  unfold binaryAhead at h
  split at h
  case h_16 hk => exact greaterAhead_operator hk h
  case h_17 => cases h
  all_goals
    cases h
    exact ⟨_, .single ‹_› rfl⟩

theorem assignmentAhead_operator {ts : List Token} {operator : Option AssignmentOperator}
    {width : Nat} (h : assignmentAhead ts = some (operator, width)) :
    ∃ ks, Operator ts width (operator.elim ['='] AssignmentOperator.keyword) ks := by
  unfold assignmentAhead at h
  split at h
  case h_11 hk =>
    cases ts with
    | nil => cases hk
    | cons t ts =>
      split at h
      · cases h
      case isFalse h₁ =>
        have h₁ : isJoined (t :: ts) 1 .greater := by simpa using h₁
        split at h
        case isTrue h₂ =>
          cases h
          exact ⟨[.greater, .greater, .assign], ⟨hk, isJoined_two h₁ h₂⟩, by decide, rfl, rfl⟩
        case isFalse =>
          split at h
          case isTrue h₂ =>
            rw [Bool.and_eq_true] at h₂
            cases h
            exact ⟨[.greater, .greater, .greater, .assign],
              ⟨hk, isJoined_three h₁ h₂.1 h₂.2⟩, by decide, rfl, rfl⟩
          case isFalse => cases h
  case h_12 => cases h
  all_goals
    cases h
    exact ⟨_, .single ‹_› rfl⟩

/-! ### Primaries -/

theorem arrayDimension_reads (hg : g.Reads) : (arrayDimension g).Reads Tree.atoms := by
  intro i hi
  simp only [arrayDimension, ensures_bind, ensures_at?, ensures_ite, ensures_node]
  refine (expect_reads rfl hi).mono ?_
  rintro leading j ⟨hj, e₁⟩
  refine ⟨fun _ => (placeholder_reads hj).mono ?_,
    fun _ => (followed_reads hg.expression hj).mono ?_⟩
  all_goals
    rintro index l ⟨⟨hl, ht⟩, e₂⟩
    refine (expect_reads_taken rfl hl ht).mono ?_
    rintro _ m ⟨hm, e₃⟩
    exact ⟨hm, by simp [e₁, e₂, e₃, Shape.pieces]⟩

theorem creation_reads (hg : g.Reads) : (creation g).Reads Tree.atoms := by
  intro i hi
  simp only [creation, ensures_bind, ensures_at?, ensures_ite, ensures_node]
  refine (expect_reads rfl hi).mono ?_
  rintro leading j ⟨hj, e₁⟩
  refine (typeWithoutDimensions_reads hg j hj).mono ?_
  rintro name l ⟨hl, e₂⟩
  refine ⟨fun _ => ?_, fun _ => ?_⟩
  · refine (whileAt_reads (fun i hi _ => arrayDimension_reads hg i hi) hl).mono ?_
    rintro dimensions m ⟨hm, e₃⟩
    refine (ifAt_reads hm fun _ => arrayValues_reads hg m hm).mono ?_
    rintro values n ⟨hn, e₄⟩
    refine ⟨hn, ?_⟩
    cases values <;> simp [e₁, e₂, e₃, e₄, Shape.pieces]
  · refine (arguments_reads hg l hl).mono ?_
    rintro args m ⟨hm, e₃⟩
    refine (ifAt_reads hm fun _ => classBody_reads hg m hm).mono ?_
    rintro body n ⟨hn, e₄⟩
    refine ⟨hn, ?_⟩
    cases body <;> simp [e₁, e₂, e₃, e₄, Shape.pieces]

theorem nameOrCall_reads (hg : g.Reads) {i : Input} (hi : i.Sound)
    (hk : kindOf i.tokens ≠ .eof) :
    (nameOrCall g).Ensures i fun t j => j.Sound ∧ i.atoms = t.atoms ++ j.atoms := by
  simp only [nameOrCall, ensures_bind, ensures_at?, ensures_ite, ensures_node, ensures_pure]
  refine (anyName_reads hi hk).mono ?_
  rintro name j ⟨hj, e₁⟩
  refine ⟨fun _ => (arguments_reads hg j hj).mono ?_, fun _ => ⟨hj, e₁⟩⟩
  rintro args l ⟨hl, e₂⟩
  refine ⟨hl, ?_⟩
  rw [e₁, e₂, ← name.atoms_lift]
  simp [Shape.pieces]

theorem primary_reads (hg : g.Reads) : (primary g).Reads Tree.atoms := by
  intro i hi
  simp only [primary]
  rw [ensures_bind, ensures_peek, ensures_bind, ensures_text]
  split
  case h_1 type hl =>
    simp only [ensures_bind, ensures_text, ensures_node]
    have hk : kindOf i.tokens ≠ .eof := by
      intro he
      rw [he] at hl
      cases hl
    refine (takeSpace_reads hi).mono ?_
    rintro leading j ⟨hj, ht, hts, e₁⟩
    refine (bump_reads_text hj (hts ▸ hk)).mono ?_
    rintro s l ⟨hl, -, hs, e₂⟩
    refine ⟨hl, ?_⟩
    rw [e₁, e₂, hs (.inl ht)]
    simp [Shape.pieces]
  case h_2 =>
    split
    case h_1 hk => exact nameOrCall_reads hg hi (by rw [hk]; decide)
    case h_2 hk => exact nameOrCall_reads hg hi (by rw [hk]; decide)
    case h_3 hk => exact nameOrCall_reads hg hi (by rw [hk]; decide)
    case h_4 hk =>
      simp only [ensures_bind, ensures_node]
      refine (bump_reads hi hk rfl).mono ?_
      rintro leading j ⟨hj, e₁⟩
      refine (followed_reads hg.expression hj).mono ?_
      rintro inner l ⟨⟨hl, ht⟩, e₂⟩
      refine (expect_reads_taken rfl hl ht).mono ?_
      rintro _ m ⟨hm, e₃⟩
      exact ⟨hm, by simp [e₁, e₂, e₃, Shape.pieces]⟩
    case h_5 => exact creation_reads hg i hi
    case h_6 => exact arrayInitializer_reads hg i hi
    case h_7 =>
      simp only [ensures_ite, ensures_fail, implies_true, and_true]
      exact fun _ => type_reads hg i hi

theorem selection_reads (hg : g.Reads) (target : Tree) {i : Input} (hi : i.Sound) :
    (selection g target).Ensures i fun t j =>
      j.Sound ∧ target.atoms ++ i.atoms = t.atoms ++ j.atoms := by
  -- a member name of any of the four kinds, with what may follow it
  have behind : ∀ (before : Space) (typeArguments : Option (Series Tree)) (j : Input), j.Sound →
      kindOf j.tokens ≠ .eof → i.atoms = spaceAtoms before ++ (wordAtoms ['.'] ++
        ((typeArguments.elim [] (Series.atoms ['<'] [','] ['>'])) ++ j.atoms)) →
      (anyName >>= fun name => at? .openParen >>= fun call =>
        if typeArguments.isSome || call then
          arguments g >>= fun args => node target.lift.1
            (.methodInvocation ⟨some ⟨target.lift.2, before⟩, typeArguments, name, args, none⟩)
        else node target.lift.1 (.fieldAccess target.lift.2 ⟨before, name⟩ none)).Ensures j
          fun t l => l.Sound ∧ target.atoms ++ i.atoms = t.atoms ++ l.atoms := by
    intro before typeArguments j hj hk e₁
    simp only [ensures_bind, ensures_at?, ensures_ite, ensures_node]
    refine (anyName_reads hj hk).mono ?_
    rintro name l ⟨hl, e₂⟩
    refine ⟨fun _ => (arguments_reads hg l hl).mono ?_, fun hn => ⟨hl, ?_⟩⟩
    · rintro args m ⟨hm, e₃⟩
      refine ⟨hm, ?_⟩
      rw [e₁, e₂, e₃, ← target.atoms_lift]
      cases typeArguments <;> simp [Shape.pieces, Followed.atoms]
    · cases typeArguments with
      | some _ => simp at hn
      | none =>
        rw [e₁, e₂, ← target.atoms_lift]
        simp [Shape.pieces, Preceded.atoms]
  simp only [selection]
  rw [ensures_bind]
  refine (expect_reads rfl hi).mono ?_
  rintro before j ⟨hj, e₁⟩
  rw [ensures_bind]
  refine (ifAt_reads hj fun _ => typeArguments_reads hg j hj).mono ?_
  rintro typeArguments l ⟨hl, e₂⟩
  rw [ensures_bind, ensures_peek]
  rw [e₂] at e₁
  split
  case h_5 => simp only [ensures_bind, ensures_fail]
  all_goals
    rename_i hk
    exact behind before typeArguments l hl (by rw [hk]; decide) e₁

theorem postfixOperation_reads (operand : Tree) {operator : UnaryOperator}
    (ho : operator.isPostfix) {i : Input} (hi : i.Sound) {k : TokenKind}
    (hk : kindOf i.tokens = k) (hw : k.text? = some operator.keyword) :
    (postfixOperation operator operand).Ensures i fun t j =>
      j.Sound ∧ operand.atoms ++ i.atoms = t.atoms ++ j.atoms := by
  simp only [postfixOperation, ensures_bind, ensures_node]
  refine (bump_reads hi hk hw).mono ?_
  rintro before j ⟨hj, e⟩
  refine ⟨hj, ?_⟩
  rw [e, ← operand.atoms_lift]
  simp [Shape.pieces, ho]

theorem postfixExpression_reads (hg : g.Reads) : (postfixExpression g).Reads Tree.atoms := by
  intro i hi
  simp only [postfixExpression]
  rw [ensures_bind]
  refine (primary_reads hg i hi).mono ?_
  rintro first j ⟨hj, e₁⟩
  rw [e₁]
  refine repeating_reads (v := Tree.atoms) ?_ first hj
  intro operand l hl
  rw [ensures_bind, ensures_peek]
  split
  case h_1 =>
    simp only [ensures_bind, ensures_pure]
    exact selection_reads hg operand hl
  case h_2 =>
    simp only [ensures_bind, ensures_pure, ensures_node]
    refine (arrayDimension_reads hg l hl).mono ?_
    rintro dimension m ⟨hm, e₂⟩
    refine ⟨hm, ?_⟩
    rw [e₂, Option.getD_some, ← operand.atoms_lift]
    simp [Shape.pieces]
  case h_3 hk =>
    simp only [ensures_bind, ensures_pure]
    exact postfixOperation_reads operand rfl hl hk rfl
  case h_4 hk =>
    simp only [ensures_bind, ensures_pure]
    exact postfixOperation_reads operand rfl hl hk rfl
  case h_5 => exact ensures_pure.2 ⟨hl, rfl⟩

/-! ### Operations -/

theorem cast_reads (hg : g.Reads) : (cast g).Reads Tree.atoms := by
  intro i hi
  simp only [cast, ensures_bind, ensures_node]
  refine (expect_reads rfl hi).mono ?_
  rintro leading j ⟨hj, e₁⟩
  refine (followed_reads (type_reads hg) hj).mono ?_
  rintro type l ⟨⟨hl, ht⟩, e₂⟩
  refine (expect_reads_taken rfl hl ht).mono ?_
  rintro _ m ⟨hm, e₃⟩
  refine (hg.unary m hm).mono ?_
  rintro operand n ⟨hn, e₄⟩
  exact ⟨hn, by simp [e₁, e₂, e₃, e₄, Shape.pieces]⟩

theorem unaryAhead_keyword {k : TokenKind} {operator : UnaryOperator}
    (h : unaryAhead k = some operator) :
    k.text? = some operator.keyword ∧ operator.isPostfix = false := by
  unfold unaryAhead at h
  split at h <;> cases h <;> exact ⟨rfl, rfl⟩

theorem unaryExpression_reads (hg : g.Reads) : (unaryExpression g).Reads Tree.atoms := by
  intro i hi
  simp only [unaryExpression]
  rw [ensures_bind, ensures_peek]
  split
  case h_1 operator ho =>
    obtain ⟨hw, hpost⟩ := unaryAhead_keyword ho
    simp only [ensures_bind, ensures_node]
    refine (bump_reads hi rfl hw).mono ?_
    rintro leading j ⟨hj, e₁⟩
    refine (hg.unary j hj).mono ?_
    rintro operand l ⟨hl, e₂⟩
    exact ⟨hl, by simp [e₁, e₂, Shape.pieces, hpost]⟩
  case h_2 =>
    simp only [ensures_bind, ensures_tokens, ensures_ite]
    exact ⟨fun _ => cast_reads hg i hi, fun _ => postfixExpression_reads hg i hi⟩

theorem binaryExpression_reads (hg : g.Reads) (least : Nat) :
    (binaryExpression g least).Reads Tree.atoms := by
  intro i hi
  simp only [binaryExpression]
  rw [ensures_bind]
  refine (unaryExpression_reads hg i hi).mono ?_
  rintro first j ⟨hj, e₁⟩
  rw [e₁]
  refine repeating_reads (v := Tree.atoms) ?_ first hj
  intro left l hl
  rw [ensures_bind, ensures_tokens]
  split
  case h_1 => exact ensures_pure.2 ⟨hl, rfl⟩
  case h_2 operator width ho =>
    obtain ⟨ks, hks⟩ := binaryAhead_operator ho
    simp only [ensures_ite, ensures_bind, ensures_pure, ensures_node]
    refine ⟨fun _ => ⟨hl, rfl⟩, fun _ => (takeSpace_reads hl).mono ?_⟩
    rintro before m ⟨hm, ht, hts, e₂⟩
    rw [← hts] at hks
    refine (hks.skip_reads hm ht).mono ?_
    rintro _ n ⟨hn, e₃⟩
    refine (hg.binary _ n hn).mono ?_
    rintro right o ⟨ho, e₄⟩
    refine ⟨ho, ?_⟩
    rw [e₂, e₃, e₄, Option.getD_some, ← left.atoms_lift]
    simp [Shape.pieces]

theorem lambdaParameter_reads (hg : g.Reads) : (lambdaParameter g).Reads Tree.atoms := by
  intro i hi
  simp only [lambdaParameter, ensures_bind, ensures_tokens, ensures_at?, ensures_ite]
  exact ⟨fun _ => parameter_reads hg i hi, fun _ => identifier_reads i hi⟩

theorem lambda_reads (hg : g.Reads) : (lambda g).Reads Tree.atoms := by
  intro i hi
  -- the arrow and the body, behind parameters that have been read
  have rest : ∀ (leading before : Space) (parenthesized : Bool)
      (parameters : List (Followed Tree)) (j : Input), j.Sound →
      i.atoms = spaceAtoms leading ++ (spaceAtoms before ++
        ((if parenthesized then wordAtoms ['('] else []) ++ (joinedAtoms [','] parameters ++
          ((if parenthesized then wordAtoms [')'] else []) ++ j.atoms)))) →
      (expect .arrow).Ensures j fun beforeArrow l =>
        ((kindOf l.tokens == .openBrace) = true → (block g).Ensures l fun body m =>
          m.Sound ∧ i.atoms = (Tree.node m.nextId leading
            (.lambda ⟨before, parenthesized, parameters, beforeArrow, body⟩)).atoms ++ m.atoms) ∧
        (¬ (kindOf l.tokens == .openBrace) = true → g.expression.Ensures l fun body m =>
          m.Sound ∧ i.atoms = (Tree.node m.nextId leading
            (.lambda ⟨before, parenthesized, parameters, beforeArrow, body⟩)).atoms ++
              m.atoms) := by
    intro leading before parenthesized parameters j hj e₁
    refine (expect_reads rfl hj).mono ?_
    rintro beforeArrow l ⟨hl, e₂⟩
    refine ⟨fun _ => (block_reads hg l hl).mono ?_, fun _ => (hg.expression l hl).mono ?_⟩
    all_goals
      rintro body m ⟨hm, e₃⟩
      refine ⟨hm, ?_⟩
      rw [e₁, e₂, e₃]
      cases parenthesized <;> simp [Shape.pieces]
  simp only [lambda, ensures_bind, ensures_at?, ensures_ite, ensures_pure, ensures_node,
    Input.sound_nextId, Input.atoms_nextId]
  refine (takeSpace_reads hi).mono ?_
  rintro leading j ⟨hj, -, -, e₁⟩
  refine ⟨fun _ => (identifier_reads j hj).mono ?_,
    fun _ => (delimited_reads rfl rfl (lambdaParameter_reads hg) j hj).mono ?_⟩
  · rintro name l ⟨hl, e₂⟩
    exact rest leading .empty false [.bare name] l hl (by simp [e₁, e₂, joinedAtoms])
  · rintro parameters l ⟨hl, e₂⟩
    exact rest leading parameters.before true parameters.elements l hl
      (by simp [e₁, e₂, Series.atoms])

theorem ternaryExpression_reads (hg : g.Reads) : (ternaryExpression g).Reads Tree.atoms := by
  intro i hi
  simp only [ternaryExpression, ensures_bind, ensures_at?, ensures_ite, ensures_pure,
    ensures_tokens, ensures_node, beq_iff_eq]
  refine (binaryExpression_reads hg 1 i hi).mono ?_
  rintro condition j ⟨hj, e₁⟩
  refine ⟨fun hk => (bump_reads hj hk rfl).mono ?_, fun _ => ⟨hj, e₁⟩⟩
  rintro beforeQuestion l ⟨hl, e₂⟩
  refine (hg.expression l hl).mono ?_
  rintro whenTrue m ⟨hm, e₃⟩
  refine (expect_reads rfl hm).mono ?_
  rintro beforeColon n ⟨hn, e₄⟩
  refine ⟨fun _ => (lambda_reads hg n hn).mono ?_, fun _ => (hg.ternary n hn).mono ?_⟩
  all_goals
    rintro whenFalse o ⟨ho, e₅⟩
    refine ⟨ho, ?_⟩
    rw [e₁, e₂, e₃, e₄, e₅, ← condition.atoms_lift]
    simp [Shape.pieces, Preceded.atoms]

theorem expression_reads (hg : g.Reads) : (expression g).Reads Tree.atoms := by
  intro i hi
  simp only [expression]
  rw [ensures_bind, ensures_tokens, ensures_ite]
  refine ⟨fun _ => lambda_reads hg i hi, fun _ => ?_⟩
  rw [ensures_bind]
  refine (ternaryExpression_reads hg i hi).mono ?_
  rintro target j ⟨hj, e₁⟩
  rw [ensures_bind, ensures_tokens]
  split
  case h_1 => exact ensures_pure.2 ⟨hj, e₁⟩
  case h_2 operator width ho =>
    obtain ⟨ks, hks⟩ := assignmentAhead_operator ho
    simp only [ensures_bind]
    refine (takeSpace_reads hj).mono ?_
    rintro before l ⟨hl, ht, hts, e₂⟩
    rw [← hts] at hks
    refine (hks.skip_reads hl ht).mono ?_
    rintro _ m ⟨hm, e₃⟩
    refine (hg.expression m hm).mono ?_
    rintro value n ⟨hn, e₄⟩
    rw [e₁, e₂, e₃, e₄, ← target.atoms_lift]
    cases operator with
    | none =>
      rw [ensures_node]
      exact ⟨hn, by simp [Shape.pieces, Preceded.atoms]⟩
    | some operator =>
      rw [ensures_node]
      exact ⟨hn, by simp [Shape.pieces]⟩

end JavaSource.Grammar
