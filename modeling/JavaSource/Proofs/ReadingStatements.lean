import JavaSource.Proofs.ReadingDeclarations
import JavaSource.Proofs.ReadingExpressions

/-!
# Statements are read without loss
-/

namespace JavaSource.Grammar

open JavaSource.Parser Lookahead

variable {g : Productions}

theorem terminated_reads (hg : g.Reads) : (terminated g).Reads Followed.statementAtoms := by
  intro i hi
  simp only [terminated, ensures_bind]
  refine (hg.statement i hi).mono ?_
  rintro t j ⟨hj, e⟩
  rw [e]
  exact terminate_reads t hj

theorem controlParentheses_reads (hg : g.Reads) : (controlParentheses g).Reads Tree.atoms := by
  intro i hi
  simp only [controlParentheses, ensures_bind, ensures_node]
  refine (expect_reads rfl hi).mono ?_
  rintro leading j ⟨hj, e₁⟩
  refine (followed_reads hg.expression hj).mono ?_
  rintro inner k ⟨⟨hk, ht⟩, e₂⟩
  refine (expect_reads_taken rfl hk ht).mono ?_
  rintro _ l ⟨hl, e₃⟩
  exact ⟨hl, by simp [e₁, e₂, e₃, Shape.pieces]⟩

theorem jumpLabel_reads : jumpLabel.Reads fun o => o.elim [] Tree.atoms :=
  fun i hi => ifAt_reads hi fun _ => identifier_reads i hi

theorem labeled_reads (hg : g.Reads) : (labeled g).Reads Tree.atoms := by
  intro i hi
  simp only [labeled, ensures_bind, ensures_node]
  refine (identifier_reads i hi).mono ?_
  rintro name j ⟨hj, e₁⟩
  refine (expect_reads rfl hj).mono ?_
  rintro after k ⟨hk, e₂⟩
  refine (hg.statement k hk).mono ?_
  rintro statement l ⟨hl, e₃⟩
  refine ⟨hl, ?_⟩
  rw [e₁, e₂, e₃, ← name.atoms_lift]
  simp [Shape.pieces, Followed.atoms]

theorem ifStatement_reads (hg : g.Reads) : (ifStatement g).Reads Tree.atoms := by
  intro i hi
  simp only [ifStatement, ensures_bind, ensures_node]
  refine (expect_reads rfl hi).mono ?_
  rintro leading j ⟨hj, e₁⟩
  refine (controlParentheses_reads hg j hj).mono ?_
  rintro condition k ⟨hk, e₂⟩
  refine (terminated_reads hg k hk).mono ?_
  rintro thenPart l ⟨hl, e₃⟩
  refine (ifAt_reads (v := Tree.atoms) hl fun he => ?_).mono ?_
  · simp only [ensures_bind, ensures_node]
    refine (bump_reads hl he rfl).mono ?_
    rintro leading m ⟨hm, e₄⟩
    refine (terminated_reads hg m hm).mono ?_
    rintro body n ⟨hn, e₅⟩
    exact ⟨hn, by simp [e₄, e₅, Shape.pieces]⟩
  · rintro alternative m ⟨hm, e₄⟩
    refine ⟨hm, ?_⟩
    cases alternative <;> simp [e₁, e₂, e₃, e₄, Shape.pieces]

theorem whileLoop_reads (hg : g.Reads) : (whileLoop g).Reads Tree.atoms := by
  intro i hi
  simp only [whileLoop, ensures_bind, ensures_node]
  refine (expect_reads rfl hi).mono ?_
  rintro leading j ⟨hj, e₁⟩
  refine (controlParentheses_reads hg j hj).mono ?_
  rintro condition k ⟨hk, e₂⟩
  refine (terminated_reads hg k hk).mono ?_
  rintro body l ⟨hl, e₃⟩
  exact ⟨hl, by simp [e₁, e₂, e₃, Shape.pieces]⟩

theorem doWhileLoop_reads (hg : g.Reads) : (doWhileLoop g).Reads Tree.atoms := by
  intro i hi
  simp only [doWhileLoop, ensures_bind, ensures_node]
  refine (expect_reads rfl hi).mono ?_
  rintro leading j ⟨hj, e₁⟩
  refine (terminated_reads hg j hj).mono ?_
  rintro body k ⟨hk, e₂⟩
  refine (expect_reads rfl hk).mono ?_
  rintro before l ⟨hl, e₃⟩
  refine (controlParentheses_reads hg l hl).mono ?_
  rintro condition m ⟨hm, e₄⟩
  exact ⟨hm, by simp [e₁, e₂, e₃, e₄, Shape.pieces, Preceded.atoms]⟩

/-! ### Loops with a header -/

theorem expressionList_reads (hg : g.Reads) {i : Input} (hi : i.Sound) :
    (expressionList g).Ensures i fun xs j =>
      (j.Sound ∧ j.gapTaken) ∧ i.atoms = joinedAtoms [','] xs ++ j.atoms := by
  simp only [expressionList, ensures_bind, ensures_pure]
  refine (followed_reads hg.expression hi).mono ?_
  rintro first j ⟨hj, e₁⟩
  refine (comma_reads (fun i hi => followed_reads hg.expression hi) hj).mono ?_
  rintro others k ⟨hk, e₂⟩
  exact ⟨hk, by simp [e₁, e₂, joinedAtoms]⟩

theorem forEachControl_reads (hg : g.Reads) : (forEachControl g).Reads Tree.atoms := by
  intro i hi
  simp only [forEachControl, ensures_bind, ensures_node]
  refine (expect_reads rfl hi).mono ?_
  rintro leading j ⟨hj, e₁⟩
  refine (followed_reads (member_reads hg) hj).mono ?_
  rintro declared k ⟨⟨hk, ht⟩, e₂⟩
  refine (expect_reads_taken rfl hk ht).mono ?_
  rintro _ l ⟨hl, e₃⟩
  refine (followed_reads hg.expression hl).mono ?_
  rintro iterable m ⟨⟨hm, ht'⟩, e₄⟩
  refine (expect_reads_taken rfl hm ht').mono ?_
  rintro _ n ⟨hn, e₅⟩
  exact ⟨hn, by simp [e₁, e₂, e₃, e₄, e₅, Shape.pieces]⟩

/-- The condition and the updates of a header, behind what it starts with. -/
theorem forControl_rest_reads (hg : g.Reads) (leading : Space) (init : List (Followed Tree))
    {i : Input} (hi : i.Sound) (ht : i.gapTaken) :
    (do
      let _ ← expect .semicolon
      let condition ← if ← at? .semicolon then placeholder else followed g.expression
      let _ ← expect .semicolon
      let update ← if ← at? .closeParen then pure [← placeholder] else expressionList g
      let _ ← expect .closeParen
      node leading (.forControl init condition update)).Ensures i fun t j =>
        j.Sound ∧ spaceAtoms leading ++ (wordAtoms ['('] ++
          (joinedAtoms [','] init ++ i.atoms)) = t.atoms ++ j.atoms := by
  rw [ensures_bind]
  refine (expect_reads_taken rfl hi ht).mono ?_
  rintro _ j ⟨hj, e₁⟩
  have behind : ∀ (condition : Followed Tree) (k : Input), (k.Sound ∧ k.gapTaken) →
      j.atoms = condition.atoms ++ k.atoms →
      (do
        let _ ← expect .semicolon
        let update ← if ← at? .closeParen then pure [← placeholder] else expressionList g
        let _ ← expect .closeParen
        node leading (.forControl init condition update)).Ensures k fun t j =>
          j.Sound ∧ spaceAtoms leading ++ (wordAtoms ['('] ++
            (joinedAtoms [','] init ++ i.atoms)) = t.atoms ++ j.atoms := by
    rintro condition k ⟨hk, ht⟩ e₂
    simp only [ensures_bind, ensures_at?, ensures_ite, ensures_pure, ensures_node]
    refine (expect_reads_taken rfl hk ht).mono ?_
    rintro _ l ⟨hl, e₃⟩
    have joined : ∀ (update : List (Followed Tree)) (m : Input), (m.Sound ∧ m.gapTaken) →
        l.atoms = joinedAtoms [','] update ++ m.atoms →
        (expect .closeParen).Ensures m fun _ n => n.Sound ∧ spaceAtoms leading ++
          (wordAtoms ['('] ++ (joinedAtoms [','] init ++ i.atoms)) = (Tree.node n.nextId leading
            (.forControl init condition update)).atoms ++ n.atoms := by
      rintro update m ⟨hm, ht⟩ e₄
      refine (expect_reads_taken rfl hm ht).mono ?_
      rintro _ n ⟨hn, e₅⟩
      exact ⟨hn, by simp [e₁, e₂, e₃, e₄, e₅, Shape.pieces]⟩
    refine ⟨fun _ => (placeholder_reads hl).mono ?_,
      fun _ => (expressionList_reads hg hl).mono ?_⟩
    · rintro x m ⟨hm, e₄⟩
      exact joined [x] m hm (by simp [e₄, joinedAtoms])
    · rintro update m ⟨hm, e₄⟩
      exact joined update m hm e₄
  rw [ensures_bind, ensures_at?, ensures_ite]
  refine ⟨fun _ => ?_, fun _ => ?_⟩
  · rw [ensures_bind]
    refine (placeholder_reads hj).mono ?_
    rintro condition k ⟨hk, e₂⟩
    exact behind condition k hk e₂
  · rw [ensures_bind]
    refine (followed_reads hg.expression hj).mono ?_
    rintro condition k ⟨hk, e₂⟩
    exact behind condition k hk e₂

theorem forControl_reads (hg : g.Reads) : (forControl g).Reads Tree.atoms := by
  intro i hi
  simp only [forControl]
  rw [ensures_bind]
  refine (expect_reads rfl hi).mono ?_
  rintro leading j ⟨hj, e₁⟩
  rw [e₁, ensures_bind, ensures_at?, ensures_bind, ensures_tokens, ensures_bind, ensures_at?,
    ensures_ite]
  refine ⟨fun _ => ?_, fun _ => ?_⟩
  · rw [ensures_bind]
    refine (placeholder_reads hj).mono ?_
    rintro x k ⟨⟨hk, ht⟩, e₂⟩
    rw [pure_bind, e₂, ← joinedAtoms_singleton [','] x]
    exact forControl_rest_reads hg leading [x] hk ht
  · rw [ensures_ite]
    refine ⟨fun _ => ?_, fun _ => ?_⟩
    · rw [ensures_bind]
      refine (followed_reads (member_reads hg) hj).mono ?_
      rintro x k ⟨⟨hk, ht⟩, e₂⟩
      rw [pure_bind, e₂, ← joinedAtoms_singleton [','] x]
      exact forControl_rest_reads hg leading [x] hk ht
    · rw [ensures_bind]
      refine (expressionList_reads hg hj).mono ?_
      rintro init k ⟨⟨hk, ht⟩, e₂⟩
      rw [e₂]
      exact forControl_rest_reads hg leading init hk ht

theorem forLoop_reads (hg : g.Reads) : (forLoop g).Reads Tree.atoms := by
  intro i hi
  simp only [forLoop, ensures_bind, ensures_tokens, ensures_ite, ensures_node]
  refine (expect_reads rfl hi).mono ?_
  rintro leading j ⟨hj, e₁⟩
  refine ⟨fun _ => (forEachControl_reads hg j hj).mono ?_,
    fun _ => (forControl_reads hg j hj).mono ?_⟩
  all_goals
    rintro control k ⟨hk, e₂⟩
    refine (terminated_reads hg k hk).mono ?_
    rintro body l ⟨hl, e₃⟩
    exact ⟨hl, by simp [e₁, e₂, e₃, Shape.pieces]⟩

/-! ### Exceptions -/

/-- Types with the space after each, which stands before the bar of the next one. -/
theorem joinedAtoms_zipWith (w : Text) (first : Tree) (others : List (Space × Tree)) :
    joinedAtoms w ((first :: others.map Prod.snd).zipWith Followed.mk
      (others.map Prod.fst ++ [.empty])) =
        first.atoms ++ others.flatMap fun x => spaceAtoms x.1 ++ (wordAtoms w ++ x.2.atoms) := by
  induction others generalizing first with
  | nil => simp [Followed.atoms]
  | cons x others ih =>
    have hne : (x.2 :: others.map Prod.snd).zipWith Followed.mk
        (others.map Prod.fst ++ [.empty]) ≠ [] := by
      cases others <;> simp
    simp only [List.map_cons, List.cons_append, List.zipWith_cons_cons, List.flatMap_cons,
      joinedAtoms_cons hne, ih, Followed.atoms, List.append_assoc]

theorem caughtType_reads (hg : g.Reads) : (caughtType g).Reads Tree.atoms := by
  intro i hi
  simp only [caughtType, ensures_bind, ensures_at?, ensures_ite, ensures_pure, ensures_node]
  refine (type_reads hg i hi).mono ?_
  rintro first j ⟨hj, e₁⟩
  refine ⟨fun _ => ?_, fun _ => ⟨hj, e₁⟩⟩
  refine (whileAt_reads (I := Input.Sound)
    (v := fun x => spaceAtoms x.1 ++ (wordAtoms ['|'] ++ x.2.atoms)) ?_ hj).mono ?_
  · intro k hk hbar
    simp only [ensures_bind, ensures_pure]
    refine (bump_reads hk hbar rfl).mono ?_
    rintro after l ⟨hl, e₂⟩
    refine (type_reads hg l hl).mono ?_
    rintro type m ⟨hm, e₃⟩
    exact ⟨hm, by simp [e₂, e₃]⟩
  · rintro others k ⟨hk, e₂⟩
    refine ⟨hk, ?_⟩
    rw [e₁, e₂, ← first.atoms_lift, Tree.atoms_node, Shape.pieces, Piece.atoms_separated,
      joinedAtoms_zipWith]
    simp only [List.append_assoc, Input.atoms_nextId]

theorem catchClause_reads (hg : g.Reads) : (catchClause g).Reads Tree.atoms := by
  intro i hi
  simp only [catchClause, ensures_bind, ensures_node]
  refine (expect_reads rfl hi).mono ?_
  rintro leading j ⟨hj, e₁⟩
  refine (expect_reads rfl hj).mono ?_
  rintro beforeOpen k ⟨hk, e₂⟩
  refine (takeSpace_reads hk).mono ?_
  rintro beforeParameter l ⟨hl, -, -, e₃⟩
  refine (finals_reads hl).mono ?_
  rintro modifiers m ⟨hm, e₄⟩
  refine (caughtType_reads hg m hm).mono ?_
  rintro type n ⟨hn, e₅⟩
  refine (namedVariable_reads hg false n hn).mono ?_
  rintro declared o ⟨ho, e₆⟩
  refine (takeSpace_reads (i := { o with nextId := o.nextId + 1 }) ho).mono ?_
  rintro after p ⟨hp, ht, -, e₇⟩
  refine (expect_reads_taken rfl hp ht).mono ?_
  rintro _ q ⟨hq, e₈⟩
  refine (block_reads hg q hq).mono ?_
  rintro body r ⟨hr, e₉⟩
  rw [Input.atoms_nextId] at e₇
  exact ⟨hr, by
    simp [e₁, e₂, e₃, e₄, e₅, e₆, e₇, e₈, e₉, Shape.pieces, Followed.atoms]⟩

theorem tryStatement_reads (hg : g.Reads) : (tryStatement g).Reads Tree.atoms := by
  intro i hi
  simp only [tryStatement, ensures_bind, ensures_ite, ensures_fail, ensures_node]
  refine (expect_reads rfl hi).mono ?_
  rintro leading j ⟨hj, e₁⟩
  refine (block_reads hg j hj).mono ?_
  rintro body k ⟨hk, e₂⟩
  refine (whileAt_reads (fun i hi _ => catchClause_reads hg i hi) hk).mono ?_
  rintro catches l ⟨hl, e₃⟩
  refine (ifAt_reads (v := Preceded.atoms "finally".toList) hl fun hf => ?_).mono ?_
  · simp only [ensures_bind, ensures_pure]
    refine (bump_reads hl hf rfl).mono ?_
    rintro before m ⟨hm, e₄⟩
    refine (block_reads hg m hm).mono ?_
    rintro block n ⟨hn, e₅⟩
    exact ⟨hn, by simp [e₄, e₅, Preceded.atoms]⟩
  · rintro finallyBlock m ⟨hm, e₄⟩
    refine ⟨fun _ => trivial, fun _ => ⟨hm, ?_⟩⟩
    simp [e₁, e₂, e₃, e₄, Shape.pieces]

/-! ### Choices -/

theorem caseClause_reads (hg : g.Reads) {i : Input} (hi : i.Sound) :
    (caseClause g).Ensures i fun t j =>
      t.needsSemicolon = false ∧ j.Sound ∧ i.atoms = t.atoms ++ j.atoms := by
  simp only [caseClause]
  rw [ensures_bind]
  refine (takeSpace_reads hi).mono ?_
  rintro leading j ⟨hj, ht, -, e₁⟩
  -- the value or the word that stands for none, before whatever reads the statements
  have hvalue {rest : Option Tree → Parser Tree} {Q : Tree → Input → Prop}
      (hrest : ∀ value k, k.Sound → i.atoms = spaceAtoms leading ++
        ((value.elim (wordAtoms "default".toList) fun v => wordAtoms "case".toList ++ v.atoms) ++
          k.atoms) → (rest value).Ensures k Q) :
      Ensures (at? .defaultWord >>= fun b =>
        if b then bump >>= fun _ => pure none >>= rest
        else expect .caseWord >>= fun _ => g.expression >>= fun t => pure (some t) >>= rest) j Q := by
    rw [ensures_bind, ensures_at?, ensures_ite]
    refine ⟨fun hk => ?_, fun _ => ?_⟩
    · rw [ensures_bind]
      refine (bump_reads_taken hj ht (by simpa using hk) rfl).mono ?_
      rintro _ k ⟨hk, e₂⟩
      rw [pure_bind]
      exact hrest none k hk (by rw [e₁, e₂]; rfl)
    · rw [ensures_bind]
      refine (expect_reads_taken rfl hj ht).mono ?_
      rintro _ k ⟨hk, e₂⟩
      rw [ensures_bind]
      refine (hg.expression k hk).mono ?_
      rintro value l ⟨hl, e₃⟩
      rw [pure_bind]
      exact hrest (some value) l hl (by simp [e₁, e₂, e₃])
  refine hvalue fun value k hk e₁ => ?_
  simp only [ensures_bind, ensures_node]
  refine (expect_reads rfl hk).mono ?_
  rintro before l ⟨hl, e₂⟩
  refine (collecting_reads (I := Input.Sound) (v := Followed.statementAtoms) ?_ hl).mono ?_
  · intro k hk
    rw [ensures_bind, ensures_peek]
    split
    case h_5 =>
      simp only [ensures_bind, ensures_pure]
      exact terminated_reads hg k hk
    all_goals exact ensures_pure.2 ⟨hk, rfl⟩
  · rintro statements m ⟨hm, e₃⟩
    refine ⟨rfl, hm, ?_⟩
    cases value <;> simp [e₁, e₂, e₃, Shape.pieces, Piece.atoms_flatMap]

theorem switchStatement_reads (hg : g.Reads) : (switchStatement g).Reads Tree.atoms := by
  intro i hi
  simp only [switchStatement, ensures_bind, ensures_node]
  refine (expect_reads rfl hi).mono ?_
  rintro leading j ⟨hj, e₁⟩
  refine (controlParentheses_reads hg j hj).mono ?_
  rintro selector k ⟨hk, e₂⟩
  refine (expect_reads rfl hk).mono ?_
  rintro beforeOpen l ⟨hl, e₃⟩
  refine (collecting_reads (I := Input.Sound) (v := Followed.statementAtoms) ?_ hl).mono ?_
  · intro i hi
    simp only [ensures_bind, ensures_at?, ensures_ite, ensures_pure]
    refine ⟨fun _ => (caseClause_reads hg hi).mono ?_, fun _ => ⟨hi, rfl⟩⟩
    rintro clause j ⟨hs, hj, e⟩
    exact ⟨hj, by simp [e, Followed.statementAtoms, hs]⟩
  · rintro cases m ⟨hm, e₄⟩
    refine (expect_reads rfl hm).mono ?_
    rintro beforeClose n ⟨hn, e₅⟩
    exact ⟨hn, by simp [e₁, e₂, e₃, e₄, e₅, Shape.pieces, Piece.atoms_flatMap]⟩

/-! ### All statements -/

theorem expressionStatement_reads (hg : g.Reads) :
    (expressionStatement g).Reads Tree.atoms := by
  intro i hi
  simp only [expressionStatement, ensures_bind, ensures_tokens, ensures_ite, ensures_pure,
    ensures_failAt, implies_true, and_true]
  refine (hg.expression i hi).mono ?_
  rintro tree j h _
  exact h

theorem statement_reads (hg : g.Reads) : (statement g).Reads Tree.atoms := by
  intro i hi
  simp only [statement]
  rw [ensures_bind, ensures_peek]
  split
  case h_1 => exact block_reads hg i hi
  case h_2 => exact ifStatement_reads hg i hi
  case h_3 => exact whileLoop_reads hg i hi
  case h_4 => exact doWhileLoop_reads hg i hi
  case h_5 => exact forLoop_reads hg i hi
  case h_6 => exact tryStatement_reads hg i hi
  case h_7 => exact switchStatement_reads hg i hi
  case h_8 hk =>
    simp only [ensures_bind, ensures_at?, ensures_ite, ensures_pure, ensures_node]
    refine (bump_reads hi hk rfl).mono ?_
    rintro leading j ⟨hj, e₁⟩
    refine ⟨fun _ => ⟨hj, by simp [e₁, Shape.pieces]⟩, fun _ => (hg.expression j hj).mono ?_⟩
    rintro value k ⟨hk, e₂⟩
    exact ⟨hk, by simp [e₁, e₂, Shape.pieces]⟩
  case h_9 hk =>
    simp only [ensures_bind, ensures_node]
    refine (bump_reads hi hk rfl).mono ?_
    rintro leading j ⟨hj, e₁⟩
    refine (hg.expression j hj).mono ?_
    rintro value k ⟨hk, e₂⟩
    exact ⟨hk, by simp [e₁, e₂, Shape.pieces]⟩
  case h_10 hk =>
    simp only [ensures_bind, ensures_node]
    refine (bump_reads hi hk rfl).mono ?_
    rintro leading j ⟨hj, e₁⟩
    refine (jumpLabel_reads j hj).mono ?_
    rintro label k ⟨hk, e₂⟩
    refine ⟨hk, ?_⟩
    cases label <;> simp [e₁, e₂, Shape.pieces]
  case h_11 hk =>
    simp only [ensures_bind, ensures_node]
    refine (bump_reads hi hk rfl).mono ?_
    rintro leading j ⟨hj, e₁⟩
    refine (jumpLabel_reads j hj).mono ?_
    rintro label k ⟨hk, e₂⟩
    refine ⟨hk, ?_⟩
    cases label <;> simp [e₁, e₂, Shape.pieces]
  case h_12 =>
    simp only [ensures_bind, ensures_node]
    refine (takeSpace_reads hi).mono ?_
    rintro s j ⟨hj, -, -, e⟩
    exact ⟨hj, by simp [e, Shape.pieces]⟩
  case h_19 =>
    simp only [ensures_bind, ensures_peekNext, ensures_tokens, ensures_ite]
    exact ⟨fun _ => labeled_reads hg i hi, fun _ => ⟨fun _ => member_reads hg i hi,
      fun _ => expressionStatement_reads hg i hi⟩⟩
  all_goals exact member_reads hg i hi

end JavaSource.Grammar
