import JavaSource.Proofs.ReadingTypes
import JavaSource.Grammar.Body

/-!
# Blocks, variables and class bodies are read without loss
-/

namespace JavaSource.Grammar

open JavaSource.Parser

variable {g : Productions}

theorem terminate_reads (statement : Tree) {i : Input} (hi : i.Sound) :
    (terminate statement).Ensures i fun x j =>
      j.Sound ∧ statement.atoms ++ i.atoms = x.statementAtoms ++ j.atoms := by
  simp only [terminate, ensures_ite, ensures_bind, ensures_pure]
  refine ⟨fun hs => (expect_reads rfl hi).mono ?_, fun hs => ⟨hi, ?_⟩⟩
  · rintro before j ⟨hj, e⟩
    exact ⟨hj, by simp [e, hs, Followed.statementAtoms, Followed.atoms]⟩
  · simp [hs, Followed.statementAtoms]

theorem itemsUntilBrace_reads {item : Parser Tree} (h : item.Reads Tree.atoms) :
    (itemsUntilBrace item).Reads fun xs => xs.flatMap Followed.statementAtoms := by
  refine fun i hi => collecting_reads (fun i hi => ?_) hi
  simp only [ensures_bind, ensures_at?, ensures_ite, ensures_pure]
  refine ⟨fun _ => ⟨hi, rfl⟩, fun _ => (h i hi).mono ?_⟩
  rintro t j ⟨hj, e⟩
  refine (terminate_reads t hj).mono ?_
  rintro x l ⟨hl, e'⟩
  exact ⟨hl, e.trans e'⟩

theorem blockBody_reads (hg : g.Reads) (leading : Space) (afterStatic : Option Space) {i : Input}
    (hi : i.Sound) (ht : i.gapTaken) :
    (blockBody g leading afterStatic).Ensures i fun t j =>
      j.Sound ∧ spaceAtoms leading ++
        ((afterStatic.elim [] fun s => wordAtoms "static".toList ++ spaceAtoms s) ++ i.atoms) =
          t.atoms ++ j.atoms := by
  simp only [blockBody, ensures_bind, ensures_node]
  refine (expect_reads_taken rfl hi ht).mono ?_
  rintro _ j ⟨hj, e₁⟩
  refine (itemsUntilBrace_reads hg.statement j hj).mono ?_
  rintro statements l ⟨hl, e₂⟩
  refine (expect_reads rfl hl).mono ?_
  rintro beforeClose m ⟨hm, e₃⟩
  exact ⟨hm, by simp [e₁, e₂, e₃, Shape.pieces, Piece.atoms_flatMap]⟩

theorem block_reads (hg : g.Reads) : (block g).Reads Tree.atoms := by
  intro i hi
  simp only [block, ensures_bind]
  refine (takeSpace_reads hi).mono ?_
  rintro leading j ⟨hj, ht, -, e⟩
  rw [e]
  exact blockBody_reads hg leading none hj ht

theorem classBody_reads (hg : g.Reads) : (classBody g).Reads Tree.atoms := by
  intro i hi
  simp only [classBody, ensures_bind, ensures_node]
  refine (expect_reads rfl hi).mono ?_
  rintro leading j ⟨hj, e₁⟩
  refine (itemsUntilBrace_reads hg.member j hj).mono ?_
  rintro members l ⟨hl, e₂⟩
  refine (expect_reads rfl hl).mono ?_
  rintro beforeClose m ⟨hm, e₃⟩
  exact ⟨hm, by simp [e₁, e₂, e₃, Shape.pieces, Piece.atoms_flatMap]⟩

theorem arrayValues_reads (hg : g.Reads) :
    (arrayValues g).Reads (Series.atoms ['{'] [','] ['}']) := by
  refine delimited_reads rfl rfl fun i hi => ?_
  simp only [ensures_bind, ensures_at?, ensures_ite]
  exact ⟨fun _ => hg.arrayInitializer i hi, fun _ => hg.expression i hi⟩

theorem arrayInitializer_reads (hg : g.Reads) : (arrayInitializer g).Reads Tree.atoms := by
  intro i hi
  simp only [arrayInitializer, ensures_bind, ensures_node]
  refine (takeSpace_reads hi).mono ?_
  rintro leading j ⟨hj, -, -, e₁⟩
  refine (arrayValues_reads hg j hj).mono ?_
  rintro values l ⟨hl, e₂⟩
  exact ⟨hl, by simp [e₁, e₂, Shape.pieces]⟩

theorem namedVariable_reads (hg : g.Reads) (initialized : Bool) :
    (namedVariable g initialized).Reads Tree.atoms := by
  intro i hi
  simp only [namedVariable, ensures_bind, ensures_at?, ensures_ite, ensures_fail, ensures_node,
    ensures_pure, beq_iff_eq, implies_true, and_true, Bool.and_eq_true]
  refine fun _ => (takeSpace_reads hi).mono ?_
  rintro leading j ⟨hj, -, -, e₁⟩
  refine (identifier_reads j hj).mono ?_
  rintro name l ⟨hl, e₂⟩
  refine ⟨fun ha => (bump_reads hl ha.2 rfl).mono ?_, fun _ => ⟨hl, ?_⟩⟩
  · rintro before m ⟨hm, e₃⟩
    refine ⟨fun _ => (arrayInitializer_reads hg m hm).mono ?_,
      fun _ => (hg.expression m hm).mono ?_⟩
    all_goals
      rintro value n ⟨hn, e₄⟩
      exact ⟨hn, by simp [e₁, e₂, e₃, e₄, Shape.pieces, Preceded.atoms]⟩
  · simp [e₁, e₂, Shape.pieces]

theorem finals_reads {i : Input} (hi : i.Sound) :
    (whileAt .finalWord (modifier .final)).Ensures i fun ts j =>
      j.Sound ∧ i.atoms = ts.flatMap Tree.atoms ++ j.atoms :=
  whileAt_reads (fun _ hi hk => modifier_reads hi (by rw [hk]; rfl)) hi

theorem parameter_reads (hg : g.Reads) : (parameter g).Reads Tree.atoms := by
  intro i hi
  simp only [parameter, ensures_bind, ensures_node]
  refine (takeSpace_reads hi).mono ?_
  rintro leading j ⟨hj, -, -, e₁⟩
  refine (annotations_reads hg j hj).mono ?_
  rintro annotations l ⟨hl, e₂⟩
  refine (finals_reads hl).mono ?_
  rintro modifiers m ⟨hm, e₃⟩
  refine (type_reads hg m hm).mono ?_
  rintro type n ⟨hn, e₄⟩
  refine (ifAt_reads (v := fun s => spaceAtoms s ++ wordAtoms "...".toList) hn
    fun hk => (bump_reads hn hk rfl).mono ?_).mono ?_
  · rintro s o ⟨ho, e⟩
    exact ⟨ho, by simp [e]⟩
  · rintro beforeDots o ⟨ho, e₅⟩
    refine (namedVariable_reads hg false o ho).mono ?_
    rintro declared p ⟨hp, e₆⟩
    refine ⟨hp, ?_⟩
    cases beforeDots <;>
      simp [e₁, e₂, e₃, e₄, e₅, e₆, Shape.pieces, joinedAtoms]

end JavaSource.Grammar
