import JavaSource.Proofs.Reading

/-!
# Types, names and annotations are read without loss
-/

namespace JavaSource

/-- The productions are those of some level, and each reads the tree that it gives. -/
structure Productions.Reads (g : Productions) : Prop where
  level : ∃ n, g = grammar n
  type : g.type.Reads Tree.atoms
  expression : g.expression.Reads Tree.atoms
  ternary : g.ternary.Reads Tree.atoms
  binary : ∀ n, (g.binary n).Reads Tree.atoms
  unary : g.unary.Reads Tree.atoms
  arrayInitializer : g.arrayInitializer.Reads Tree.atoms
  statement : g.statement.Reads Tree.atoms
  member : g.member.Reads Tree.atoms

namespace Grammar

open JavaSource.Parser

variable {g : Productions}

theorem wildcard_reads (hg : g.Reads) : (wildcard g).Reads Tree.atoms := by
  intro i hi
  -- a bound is read behind the question mark
  have bounded : ∀ (leading : Space) (bound : WildcardBound) (k : TokenKind) (j : Input),
      j.Sound → kindOf j.tokens = k → k.text? = some bound.keyword →
      (bump >>= fun before => g.type >>= fun type =>
        node leading (.wildcard (some (before, bound)) (some type))).Ensures j fun t l =>
          l.Sound ∧ spaceAtoms leading ++ (wordAtoms ['?'] ++ j.atoms) = t.atoms ++ l.atoms := by
    intro leading bound k j hj hk hw
    simp only [ensures_bind, ensures_node]
    refine (bump_reads hj hk hw).mono ?_
    rintro before l ⟨hl, e₁⟩
    refine (hg.type l hl).mono ?_
    rintro type m ⟨hm, e₂⟩
    exact ⟨hm, by simp [e₁, e₂, Shape.pieces]⟩
  simp only [wildcard]
  rw [ensures_bind]
  refine (expect_reads rfl hi).mono ?_
  rintro leading j ⟨hj, e⟩
  rw [e, ensures_bind, ensures_peek]
  split
  case h_1 hk => exact bounded leading .upper _ j hj hk rfl
  case h_2 hk => exact bounded leading .lower _ j hj hk rfl
  case h_3 =>
    rw [ensures_node]
    exact ⟨hj, by simp [Shape.pieces]⟩

theorem typeArguments_reads (hg : g.Reads) :
    (typeArguments g).Reads (Series.atoms ['<'] [','] ['>']) := by
  intro i hi
  simp only [typeArguments, ensures_bind, ensures_at?, ensures_ite, ensures_pure]
  refine (expect_reads rfl hi).mono ?_
  rintro before j ⟨hj, e⟩
  refine ⟨fun _ => (placeholder_reads hj).mono ?_, fun _ => (followed_reads hg.type hj).mono ?_⟩
  · rintro x l ⟨⟨hl, ht⟩, e₁⟩
    refine (expect_reads_taken rfl hl ht).mono ?_
    rintro _ m ⟨hm, e₂⟩
    exact ⟨hm, by simp [e, e₁, e₂, Series.atoms, joinedAtoms]⟩
  · rintro x l ⟨hl, e₁⟩
    refine (comma_reads (fun i hi => followed_reads hg.type hi) hl).mono ?_
    rintro xs m ⟨⟨hm, ht⟩, e₂⟩
    refine (expect_reads_taken rfl hm ht).mono ?_
    rintro _ o ⟨ho, e₃⟩
    exact ⟨ho, by simp [e, e₁, e₂, e₃, Series.atoms, joinedAtoms]⟩

/-- A name is lifted into a type with arguments, so the space before it stays in front. -/
theorem withTypeArguments_reads (hg : g.Reads) (name : Tree) {i : Input} (hi : i.Sound) :
    (withTypeArguments g name).Ensures i fun t j =>
      j.Sound ∧ name.atoms ++ i.atoms = t.atoms ++ j.atoms := by
  simp only [withTypeArguments, ensures_bind, ensures_at?, ensures_ite, ensures_node, ensures_pure]
  refine ⟨fun _ => (typeArguments_reads hg i hi).mono ?_, fun _ => ⟨hi, trivial⟩⟩
  rintro xs j ⟨hj, e⟩
  exact ⟨hj, by simp [e, ← name.atoms_lift, Shape.pieces]⟩

theorem typeWithoutDimensions_reads (hg : g.Reads) :
    (typeWithoutDimensions g).Reads Tree.atoms := by
  intro i hi
  simp only [typeWithoutDimensions]
  rw [ensures_bind, ensures_peek]
  split
  case h_1 primitive hp =>
    simp only [ensures_bind, ensures_node]
    have hw := TokenKind.text?_of_primitive? hp
    refine (bump_reads hi rfl hw).mono ?_
    rintro s j ⟨hj, e⟩
    exact ⟨hj, by simp [e, Shape.pieces]⟩
  case h_2 =>
    rw [ensures_ite]
    refine ⟨fun _ => wildcard_reads hg i hi, fun _ => ?_⟩
    simp only [ensures_bind]
    refine (identifier_reads i hi).mono ?_
    rintro first j ⟨hj, e₁⟩
    refine (withTypeArguments_reads hg first hj).mono ?_
    rintro name l ⟨hl, e₂⟩
    rw [e₁, e₂]
    refine repeating_reads (v := Tree.atoms) ?_ name hl
    intro target m hm
    simp only [ensures_bind, ensures_at?, ensures_peekNext, ensures_ite, ensures_node,
      ensures_pure, Bool.and_eq_true, beq_iff_eq]
    refine ⟨fun hk => (bump_reads hm hk.1 rfl).mono ?_, fun _ => ⟨hm, rfl⟩⟩
    rintro before o ⟨ho, e₃⟩
    refine (identifier_reads o ho).mono ?_
    rintro name p ⟨hp, e₄⟩
    refine (withTypeArguments_reads hg _ ((Input.sound_nextId _ _).2 hp)).mono ?_
    rintro t q ⟨hq, e₅⟩
    refine ⟨hq, ?_⟩
    rw [e₃, e₄, Option.getD_some, ← e₅, ← target.atoms_lift]
    simp [Shape.pieces, Preceded.atoms]

theorem type_reads (hg : g.Reads) : (type g).Reads Tree.atoms := by
  intro i hi
  simp only [type, ensures_bind]
  refine (typeWithoutDimensions_reads hg i hi).mono ?_
  rintro element j ⟨hj, e₁⟩
  rw [e₁]
  refine repeating_reads (v := Tree.atoms) ?_ element hj
  intro element l hl
  simp only [ensures_bind, ensures_at?, ensures_peekNext, ensures_ite, ensures_node,
    ensures_pure, Bool.and_eq_true, beq_iff_eq]
  refine ⟨fun hk => (bump_reads_tail hl hk.1 rfl).mono ?_, fun _ => ⟨hl, rfl⟩⟩
  rintro beforeOpen m ⟨hm, hts, e₂⟩
  rw [List.drop_one, ← hts] at hk
  refine (bump_reads hm hk.2 rfl).mono ?_
  rintro beforeClose o ⟨ho, e₃⟩
  refine ⟨ho, ?_⟩
  rw [e₂, e₃, Option.getD_some, ← element.atoms_lift]
  simp [Shape.pieces]

theorem typeList_reads (hg : g.Reads) (before : Space) {separator : TokenKind} {w : Text}
    (hw : separator.text? = some w) {i : Input} (hi : i.Sound) (opening : Text) :
    (typeList g before separator).Ensures i fun s j =>
      j.Sound ∧ spaceAtoms before ++ (wordAtoms opening ++ i.atoms) =
        s.atoms opening w [] ++ j.atoms := by
  simp only [typeList, ensures_bind, ensures_pure]
  refine (separatedBy_reads hw (type_reads hg) i hi).mono ?_
  rintro xs j ⟨hj, e⟩
  exact ⟨hj, by simp [e, Series.atoms]⟩

theorem qualifiedName_reads (allowStar : Bool) : (qualifiedName allowStar).Reads Tree.atoms := by
  intro i hi
  simp only [qualifiedName, ensures_bind]
  refine (identifier_reads i hi).mono ?_
  rintro first j ⟨hj, e₁⟩
  rw [e₁]
  refine repeating_reads (v := Tree.atoms) ?_ first hj
  intro target l hl
  simp only [ensures_bind, ensures_at?, ensures_ite, ensures_node, ensures_pure, beq_iff_eq]
  refine ⟨fun hk => (bump_reads hl hk rfl).mono ?_, fun _ => ⟨hl, rfl⟩⟩
  rintro before m ⟨hm, e₂⟩
  rw [Bool.and_eq_true, beq_iff_eq]
  refine ⟨fun hs => (anyName_reads hm (by rw [hs.2]; decide)).mono ?_,
    fun _ => (identifier_reads m hm).mono ?_⟩
  all_goals
    rintro name n ⟨hn, e₃⟩
    refine ⟨hn, ?_⟩
    rw [e₂, e₃, Option.getD_some, ← target.atoms_lift]
    simp [Shape.pieces, Preceded.atoms]

theorem arguments_reads (hg : g.Reads) :
    (arguments g).Reads (Series.atoms ['('] [','] [')']) :=
  delimited_reads rfl rfl hg.expression

theorem annotationUse_reads (hg : g.Reads) : (annotationUse g).Reads Tree.atoms := by
  intro i hi
  simp only [annotationUse, ensures_bind, ensures_node]
  refine (expect_reads rfl hi).mono ?_
  rintro leading j ⟨hj, e₁⟩
  refine (qualifiedName_reads false j hj).mono ?_
  rintro name l ⟨hl, e₂⟩
  refine (ifAt_reads hl fun _ => arguments_reads hg l hl).mono ?_
  rintro xs m ⟨hm, e₃⟩
  exact ⟨hm, by cases xs <;> simp [e₁, e₂, e₃, Shape.pieces]⟩

theorem annotations_reads (hg : g.Reads) :
    (annotations g).Reads fun ts => ts.flatMap Tree.atoms :=
  fun _ hi => whileAt_reads (fun i hi _ => annotationUse_reads hg i hi) hi

theorem modifier_reads {word : Modifier} {i : Input} (hi : i.Sound)
    (hk : (kindOf i.tokens).modifier? = some word) :
    (modifier word).Ensures i fun t j => j.Sound ∧ i.atoms = t.atoms ++ j.atoms := by
  simp only [modifier, ensures_bind, ensures_node]
  refine (bump_reads hi rfl (TokenKind.text?_of_modifier? hk)).mono ?_
  rintro s j ⟨hj, e⟩
  exact ⟨hj, by simp [e, Shape.pieces]⟩

theorem typeParameter_reads (hg : g.Reads) : (typeParameter g).Reads Tree.atoms := by
  intro i hi
  simp only [typeParameter, ensures_bind, ensures_node]
  refine (takeSpace_reads hi).mono ?_
  rintro leading j ⟨hj, -, -, e₁⟩
  refine (annotations_reads hg j hj).mono ?_
  rintro annotations l ⟨hl, e₂⟩
  refine (identifier_reads l hl).mono ?_
  rintro name m ⟨hm, e₃⟩
  refine (ifAt_reads (v := Series.atoms "extends".toList ['&'] []) hm fun hk => ?_).mono ?_
  · simp only [ensures_bind]
    refine (bump_reads hm hk rfl).mono ?_
    rintro before o ⟨ho, e₄⟩
    rw [e₄]
    exact typeList_reads hg before rfl ho _
  · rintro bounds o ⟨ho, e₄⟩
    exact ⟨ho, by cases bounds <;> simp [e₁, e₂, e₃, e₄, Shape.pieces]⟩

theorem typeParameters_reads (hg : g.Reads) :
    (typeParameters g).Reads (Series.atoms ['<'] [','] ['>']) :=
  delimited_reads rfl rfl (typeParameter_reads hg)

end Grammar

end JavaSource
