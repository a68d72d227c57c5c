import JavaSource.Proofs.ReadingBodies
import JavaSource.Grammar.Declaration

/-!
# Declarations are read without loss

The one production that can print another word than it has read is a type declaration:
`CarriesImplements` rules that case out (`classDeclaration_reads`).
-/

namespace JavaSource.Grammar

open JavaSource.Parser

variable {g : Productions}

/-! ### Enumerations -/

/-- The atoms of the constants read so far, the last one in front; behind each but the last, and
behind the last as well when `more` may follow, there is a comma. -/
def valueAtoms : List (Followed Tree) × Bool → List Atom
  | (xs, true) => xs.reverse.flatMap fun x => x.atoms ++ wordAtoms [',']
  | (xs, false) => joinedAtoms [','] xs.reverse

/-- A separated list with one more element. -/
theorem joinedAtoms_concat (w : Text) (xs : List (Followed Tree)) (y : Followed Tree) :
    joinedAtoms w (xs ++ [y]) = (xs.flatMap fun x => x.atoms ++ wordAtoms w) ++ y.atoms := by
  induction xs with
  | nil => simp [joinedAtoms]
  | cons x xs ih =>
    cases xs with
    | nil => simp [joinedAtoms]
    | cons z zs => simp_all [joinedAtoms]

theorem valueAtoms_cons (x : Followed Tree) (xs : List (Followed Tree)) (more : Bool) :
    valueAtoms (x :: xs, more) =
      valueAtoms (xs, true) ++ (x.atoms ++ if more then wordAtoms [','] else []) := by
  cases more <;> simp [valueAtoms, joinedAtoms_concat]

/-- A placeholder behind the last comma. -/
theorem joinedAtoms_placeholder (n : NodeId) (after : Space) (xs : List (Followed Tree)) :
    joinedAtoms [','] (⟨.node n .empty .empty, after⟩ :: xs).reverse =
      valueAtoms (xs, true) ++ spaceAtoms after :=
  (valueAtoms_cons _ xs false).trans (by simp [Followed.atoms, Shape.pieces])

/-- The state of `enumValues` between two constants, on the way from `i`. -/
structure Counted (i : Input) (a : List (Followed Tree) × Bool) (j : Input) : Prop where
  sound : j.Sound
  atoms : i.atoms = valueAtoms a ++ j.atoms
  free : kindOf j.tokens = .semicolon → j.gapTaken ∨ (a.2 = true ∧ a.1 ≠ [])

theorem enumValues_reads (hg : g.Reads) {i : Input} (hi : i.Sound) :
    (enumValues g).Ensures i fun t j =>
      t.needsSemicolon = false ∧ j.Sound ∧ i.atoms = t.atoms ++ j.atoms := by
  simp only [enumValues]
  rw [ensures_bind]
  refine (takeSpace_reads hi).mono ?_
  rintro leading j ⟨hj, ht, -, e₁⟩
  rw [ensures_bind]
  refine (repeating_ensures (P := Counted j) (Q := Counted j) ?_
    ⟨hj, rfl, fun _ => .inl ht⟩).mono ?_
  · rintro ⟨values, more⟩ k ⟨hk, e₂, hfree⟩
    simp only [ensures_bind, ensures_at?, ensures_ite, ensures_node, ensures_peek, ensures_pure,
      Bool.and_eq_true, beq_iff_eq]
    refine ⟨?_, fun _ => ⟨hk, e₂, hfree⟩⟩
    rintro ⟨rfl, -⟩
    refine (takeSpace_reads hk).mono ?_
    rintro before l ⟨hl, -, -, e₃⟩
    refine (identifier_reads l hl).mono ?_
    rintro name m ⟨hm, e₄⟩
    refine (ifAt_reads hm fun _ => arguments_reads hg m hm).mono ?_
    rintro args n ⟨hn, e₅⟩
    have e : k.atoms =
        (Tree.node n.nextId before (.enumValue name args)).atoms ++ n.atoms := by
      cases args <;> simp [e₃, e₄, e₅, Shape.pieces]
    split
    case h_1 hc =>
      simp only [ensures_bind, ensures_pure]
      refine (bump_reads (i := { n with nextId := n.nextId + 1 }) hn hc rfl).mono ?_
      rintro after o ⟨ho, e₆⟩
      refine ⟨ho, ?_, fun _ => .inr ⟨rfl, by simp⟩⟩
      rw [Input.atoms_nextId] at e₆
      rw [e₂, e, e₆, valueAtoms_cons]
      simp [Followed.atoms]
    case h_2 =>
      simp only [ensures_bind, ensures_pure]
      refine (takeSpace_reads (i := { n with nextId := n.nextId + 1 }) hn).mono ?_
      rintro after o ⟨ho, ht, -, e₆⟩
      refine ⟨ho, ?_, fun _ => .inl ht⟩
      rw [Input.atoms_nextId] at e₆
      rw [e₂, e, e₆, valueAtoms_cons]
      simp [Followed.atoms]
    case h_3 hs =>
      refine ensures_pure.2 ⟨hn, ?_, fun h => absurd h hs⟩
      rw [e₂, e, valueAtoms_cons]
      simp
  · rintro ⟨values, dangling⟩ k ⟨hk, e₂, hfree⟩
    -- the semicolon behind the constants, of which the last may be a placeholder
    have rest : ∀ (xs : List (Followed Tree)) (l : Input), l.Sound →
        (kindOf l.tokens = .semicolon → l.gapTaken) →
        j.atoms = joinedAtoms [','] xs.reverse ++ l.atoms →
        (ifAt .semicolon bump).Ensures l fun semicolon m =>
          (Tree.node m.nextId leading
            (.enumValueSet xs.reverse semicolon.isSome)).needsSemicolon = false ∧
          m.Sound ∧ i.atoms = (Tree.node m.nextId leading
            (.enumValueSet xs.reverse semicolon.isSome)).atoms ++ m.atoms := by
      intro xs l hl hfree e₃
      refine (ifAt_reads (v := fun _ => wordAtoms [';']) hl fun hs =>
        bump_reads_taken hl (hfree hs) hs rfl).mono ?_
      rintro semicolon m ⟨hm, e₄⟩
      refine ⟨rfl, hm, ?_⟩
      rw [e₁, e₃, e₄]
      cases semicolon <;> simp [Shape.pieces]
    simp only [ensures_bind, ensures_at?, ensures_ite, ensures_node, ensures_pure,
      Bool.and_eq_true, beq_iff_eq, Input.sound_nextId, Input.atoms_nextId]
    refine ⟨?_, fun hd => rest values k hk ?_ ?_⟩
    · rintro ⟨rfl, -⟩
      refine ⟨fun _ => (takeSpace_reads hk).mono ?_, fun hs => ?_⟩
      · rintro after l ⟨hl, htaken, -, e₃⟩
        refine rest (⟨.node l.nextId .empty .empty, after⟩ :: values)
          { l with nextId := l.nextId + 1 } hl (fun _ => htaken) ?_
        rw [e₂, e₃, joinedAtoms_placeholder, List.append_assoc]
        rfl
      · refine rest (⟨.node k.nextId .empty .empty, .empty⟩ :: values)
          { k with nextId := k.nextId + 1 } hk (fun h => absurd h hs) ?_
        rw [e₂, joinedAtoms_placeholder, spaceAtoms_empty, List.append_nil]
        rfl
    · intro hs
      refine (hfree hs).resolve_right fun h => hd ⟨h.1, ?_⟩
      simpa using h.2
    · cases dangling with
      | false => exact e₂
      | true =>
        have hnil : values = [] := by simpa using hd
        subst hnil
        exact e₂
theorem enumBody_reads (hg : g.Reads) : (enumBody g).Reads Tree.atoms := by
  intro i hi
  -- the members and the brace behind the constants
  have rest : ∀ (leading : Space) (values : List (Followed Tree)) (j : Input), j.Sound →
      i.atoms = spaceAtoms leading ++ (wordAtoms ['{'] ++
        (values.flatMap Followed.statementAtoms ++ j.atoms)) →
      (itemsUntilBrace g.member).Ensures j fun members k =>
        (expect .closeBrace).Ensures k fun beforeClose l =>
          l.Sound ∧ i.atoms = (Tree.node l.nextId leading
            (.block none (values ++ members) beforeClose)).atoms ++ l.atoms := by
    intro leading values j hj e₁
    refine (itemsUntilBrace_reads hg.member j hj).mono ?_
    rintro members k ⟨hk, e₂⟩
    refine (expect_reads rfl hk).mono ?_
    rintro beforeClose l ⟨hl, e₃⟩
    exact ⟨hl, by simp [e₁, e₂, e₃, Shape.pieces, Piece.atoms_flatMap]⟩
  simp only [enumBody, ensures_bind, ensures_at?, ensures_ite, ensures_pure, ensures_node,
    Input.sound_nextId, Input.atoms_nextId]
  refine (expect_reads rfl hi).mono ?_
  rintro leading j ⟨hj, e₁⟩
  refine ⟨fun _ => (enumValues_reads hg hj).mono ?_, fun _ => rest leading [] j hj e₁⟩
  rintro values k ⟨hs, hk, e₂⟩
  refine rest leading [.bare values] k hk ?_
  simp [e₁, e₂, Followed.statementAtoms, hs]

/-! ### Type declarations -/

/-- The atoms of a header. -/
def ClassHeader.atoms (kind : ClassKind) (h : ClassHeader) : List Atom :=
  spaceAtoms h.beforeKind ++ (wordAtoms kind.keyword ++ (h.name.atoms ++
    (h.typeParameters.elim [] (Series.atoms ['<'] [','] ['>']) ++
      (h.superclass.elim [] (Preceded.atoms "extends".toList) ++
        h.extended.elim [] (Series.atoms "extends".toList [','] [])))))

theorem text?_of_classKind? {k : TokenKind} {kind : ClassKind} (h : classKind? k = some kind) :
    k.text? = some kind.keyword := by
  unfold classKind? at h
  split at h <;> cases h <;> rfl

theorem classHeader_reads (hg : g.Reads) {kind : ClassKind} {i : Input} (hi : i.Sound)
    (hk : classKind? (kindOf i.tokens) = some kind) :
    (classHeader g kind).Ensures i fun h j =>
      (kind ≠ .interface → h.extended = none) ∧ j.Sound ∧ i.atoms = h.atoms kind ++ j.atoms := by
  simp only [classHeader, ensures_bind, ensures_at?, ensures_ite, ensures_pure, beq_iff_eq]
  refine (bump_reads hi rfl (text?_of_classKind? hk)).mono ?_
  rintro beforeKind j ⟨hj, e₁⟩
  refine (identifier_reads j hj).mono ?_
  rintro name k ⟨hk, e₂⟩
  refine (ifAt_reads hk fun _ => typeParameters_reads hg k hk).mono ?_
  rintro typeParameters l ⟨hl, e₃⟩
  refine ⟨fun hx => (bump_reads hl hx rfl).mono ?_, fun _ => ⟨fun _ => trivial, hl, ?_⟩⟩
  · rintro before m ⟨hm, e₄⟩
    refine ⟨fun hi => (typeList_reads hg before rfl hm "extends".toList).mono ?_,
      fun _ => (type_reads hg m hm).mono ?_⟩
    · rintro extended n ⟨hn, e₅⟩
      refine ⟨fun h => absurd hi h, hn, ?_⟩
      rw [e₁, e₂, e₃, e₄, e₅]
      simp [ClassHeader.atoms]
    · rintro superclass n ⟨hn, e₅⟩
      exact ⟨fun _ => trivial, hn,
        by simp [e₁, e₂, e₃, e₄, e₅, ClassHeader.atoms, Preceded.atoms]⟩
  · simp [e₁, e₂, e₃, ClassHeader.atoms]

theorem classRest_reads (hg : g.Reads) {kind : ClassKind} {h : ClassHeader} {leading : Space}
    {annotations modifiers : List Tree} {i : Input} (hi : i.Sound)
    (hx : kind ≠ .interface → h.extended = none)
    (hp : kindOf i.tokens = .implementsWord → kind ≠ .interface) :
    (classRest g kind leading annotations modifiers h).Ensures i fun t j =>
      j.Sound ∧ spaceAtoms leading ++ (annotations.flatMap Tree.atoms ++
        (modifiers.flatMap Tree.atoms ++ (h.atoms kind ++ i.atoms))) = t.atoms ++ j.atoms := by
  -- the body, behind all types that the declaration lists
  have body : ∀ (interfaces : Option (Series Tree)) (j : Input), j.Sound →
      h.extended.elim [] (Series.atoms "extends".toList [','] []) ++ i.atoms =
        (interfaces.elim [] (Series.atoms
          (if kind = .interface then "extends".toList else "implements".toList) [','] [])) ++
            j.atoms →
      (kind = .enumeration → (enumBody g).Ensures j fun body k =>
        k.Sound ∧ spaceAtoms leading ++ (annotations.flatMap Tree.atoms ++
          (modifiers.flatMap Tree.atoms ++ (h.atoms kind ++ i.atoms))) =
            (Tree.node k.nextId leading (.classDeclaration ⟨annotations, modifiers, h.beforeKind,
              kind, h.name, h.typeParameters, h.superclass, interfaces, body, none⟩)).atoms ++
                k.atoms) ∧
      (¬ kind = .enumeration → (classBody g).Ensures j fun body k =>
        k.Sound ∧ spaceAtoms leading ++ (annotations.flatMap Tree.atoms ++
          (modifiers.flatMap Tree.atoms ++ (h.atoms kind ++ i.atoms))) =
            (Tree.node k.nextId leading (.classDeclaration ⟨annotations, modifiers, h.beforeKind,
              kind, h.name, h.typeParameters, h.superclass, interfaces, body, none⟩)).atoms ++
                k.atoms) := by
    intro interfaces j hj e₁
    refine ⟨fun _ => (enumBody_reads hg j hj).mono ?_, fun _ => (classBody_reads hg j hj).mono ?_⟩
    all_goals
      rintro body k ⟨hk, e₂⟩
      refine ⟨hk, ?_⟩
      simp only [ClassHeader.atoms, List.append_assoc, e₁, e₂, Tree.atoms_node, Shape.pieces,
        Piece.atoms_append, Piece.atoms_map_part, Piece.atoms_space, Piece.atoms_word,
        Piece.atoms_part, Piece.atoms_ifPresent, Piece.atoms_typeArguments,
        Piece.atoms_introduced, Piece.atoms_listed, Piece.atoms_nil, List.append_nil]
  simp only [classRest, ensures_bind, ensures_at?, ensures_ite, ensures_pure, ensures_node,
    beq_iff_eq, Input.sound_nextId, Input.atoms_nextId]
  refine ⟨fun hk => (bump_reads hi hk rfl).mono ?_, fun _ => body _ i hi ?_⟩
  · rintro before j ⟨hj, e₁⟩
    refine (typeList_reads hg before rfl hj "implements".toList).mono ?_
    rintro interfaces k ⟨hk', e₂⟩
    refine body (some interfaces) k hk' ?_
    rw [hx (hp hk), e₁, if_neg (hp hk), e₂]
    rfl
  · by_cases hc : kind = .interface
    · rw [if_pos hc]
    · rw [hx hc]
      rfl

theorem classDeclaration_reads (hg : g.Reads) {kind : ClassKind} (leading : Space)
    (annotations modifiers : List Tree) {i : Input} (hi : i.Sound)
    (hk : classKind? (kindOf i.tokens) = some kind) :
    (classDeclaration g kind leading annotations modifiers).Ensures i fun t j =>
      j.Sound ∧ spaceAtoms leading ++ (annotations.flatMap Tree.atoms ++
        (modifiers.flatMap Tree.atoms ++ i.atoms)) = t.atoms ++ j.atoms := by
  rw [classDeclaration_eq, ensures_bind]
  refine ((classHeader_reads hg hi hk).and ensures_run).mono ?_
  rintro h j ⟨⟨hx, hj, e⟩, hr⟩
  rw [e]
  refine classRest_reads hg hj hx ?_
  rintro hw rfl
  -- an interface with an `implements` clause has been ruled out
  obtain ⟨n, rfl⟩ := hg.level
  refine hi.plain i.tokens List.suffix_rfl ⟨?_, n, i, h, j, rfl, hr, hw⟩
  revert hk
  cases kindOf i.tokens <;> simp [classKind?]

/-! ### Methods and variables -/

/-- The atoms of a head. -/
def MemberHead.atoms (h : MemberHead) : List Atom :=
  spaceAtoms h.leading ++ (h.annotations.flatMap Tree.atoms ++
    (h.modifiers.flatMap Tree.atoms ++
      h.typeParameters.elim [] (Series.atoms ['<'] [','] ['>'])))

theorem method_reads (hg : g.Reads) (head : MemberHead) (returnType : Option Tree) {i : Input}
    (hi : i.Sound) :
    (method g head returnType).Ensures i fun t j =>
      j.Sound ∧ head.atoms ++ (returnType.elim [] Tree.atoms ++ i.atoms) = t.atoms ++ j.atoms := by
  simp only [method, ensures_bind, ensures_node]
  refine (identifier_reads i hi).mono ?_
  rintro name j ⟨hj, e₁⟩
  refine (delimited_reads rfl rfl (parameter_reads hg) j hj).mono ?_
  rintro parameters k ⟨hk, e₂⟩
  refine (ifAt_reads (v := Series.atoms "throws".toList [','] []) hk fun ht => ?_).mono ?_
  · simp only [ensures_bind]
    refine (bump_reads hk ht rfl).mono ?_
    rintro before l ⟨hl, e⟩
    rw [e]
    exact typeList_reads hg before rfl hl _
  · rintro thrown l ⟨hl, e₃⟩
    refine (ifAt_reads hl fun _ => block_reads hg l hl).mono ?_
    rintro body m ⟨hm, e₄⟩
    refine ⟨hm, ?_⟩
    cases returnType <;> cases body <;> simp [e₁, e₂, e₃, e₄, MemberHead.atoms, Shape.pieces]

theorem declarators_reads (hg : g.Reads) (head : MemberHead) (type : Tree) {i : Input}
    (hi : i.Sound) (hh : head.typeParameters = none) :
    (declarators g head type).Ensures i fun t j =>
      j.Sound ∧ head.atoms ++ (type.atoms ++ i.atoms) = t.atoms ++ j.atoms := by
  simp only [declarators, ensures_bind, ensures_node]
  refine (separatedBy_reads rfl (namedVariable_reads hg true) i hi).mono ?_
  rintro declared j ⟨hj, e⟩
  exact ⟨hj, by simp [e, hh, MemberHead.atoms, Shape.pieces]⟩

theorem methodOrVariables_reads (hg : g.Reads) (head : MemberHead) {i : Input} (hi : i.Sound) :
    (methodOrVariables g head).Ensures i fun t j =>
      j.Sound ∧ head.atoms ++ i.atoms = t.atoms ++ j.atoms := by
  simp only [methodOrVariables, ensures_bind, ensures_at?, ensures_peekNext, ensures_pure,
    ensures_ite, ensures_fail]
  refine ⟨fun _ => method_reads hg head none hi, fun _ => (type_reads hg i hi).mono ?_⟩
  rintro type j ⟨hj, e⟩
  rw [e]
  refine ⟨fun _ => method_reads hg head (some type) hj, fun _ => ⟨fun _ => trivial, fun hh => ?_⟩⟩
  exact declarators_reads hg head type hj (by simpa using hh)

theorem modifier?_reads {i : Input} (hi : i.Sound) :
    modifier?.Ensures i fun o j => j.Sound ∧ i.atoms = o.elim [] Tree.atoms ++ j.atoms := by
  simp only [modifier?, ensures_bind, ensures_peek]
  split
  case h_1 word hk =>
    simp only [ensures_bind, ensures_pure]
    exact modifier_reads hi hk
  case h_2 => exact ensures_pure.2 ⟨hi, rfl⟩

theorem declaration_reads (hg : g.Reads) : (declaration g).Reads Tree.atoms := by
  intro i hi
  simp only [declaration]
  rw [ensures_bind]
  refine (takeSpace_reads hi).mono ?_
  rintro leading j ⟨hj, -, -, e₁⟩
  rw [ensures_bind]
  refine (annotations_reads hg j hj).mono ?_
  rintro annotations k ⟨hk, e₂⟩
  rw [ensures_bind]
  refine (collecting_reads (fun i hi => modifier?_reads hi) hk).mono ?_
  rintro modifiers l ⟨hl, e₃⟩
  rw [ensures_bind, ensures_peek, e₁, e₂, e₃]
  split
  case h_1 kind hc => exact classDeclaration_reads hg leading annotations modifiers hl hc
  case h_2 =>
    rw [ensures_bind]
    refine (ifAt_reads hl fun _ => typeParameters_reads hg l hl).mono ?_
    rintro typeParameters m ⟨hm, e₄⟩
    rw [e₄]
    simpa [MemberHead.atoms] using
      methodOrVariables_reads hg ⟨leading, annotations, modifiers, typeParameters⟩ hm

theorem member_reads (hg : g.Reads) : (member g).Reads Tree.atoms := by
  intro i hi
  simp only [member]
  rw [ensures_bind, ensures_peek]
  split
  case h_1 =>
    simp only [ensures_bind, ensures_node]
    refine (takeSpace_reads hi).mono ?_
    rintro s j ⟨hj, -, -, e⟩
    exact ⟨hj, by simp [e, Shape.pieces]⟩
  case h_2 => exact block_reads hg i hi
  case h_3 hk =>
    simp only [ensures_bind, ensures_peekNext, ensures_ite]
    refine ⟨fun _ => (bump_reads hi hk rfl).mono ?_, fun _ => declaration_reads hg i hi⟩
    rintro leading j ⟨hj, e₁⟩
    refine (takeSpace_reads hj).mono ?_
    rintro afterStatic k ⟨hk, ht, -, e₂⟩
    simpa [e₁, e₂] using blockBody_reads hg leading (some afterStatic) hk ht
  case h_4 => exact declaration_reads hg i hi

/-! ### Files -/

/-- A package declaration or an import with its semicolon. -/
def headerAtoms (x : Followed Tree) : List Atom := x.atoms ++ wordAtoms [';']

theorem packageDeclaration_reads {i : Input} (hi : i.Sound)
    (hk : kindOf i.tokens = .packageWord) :
    packageDeclaration.Ensures i fun x j => j.Sound ∧ i.atoms = headerAtoms x ++ j.atoms := by
  simp only [packageDeclaration, ensures_bind, ensures_node, ensures_pure]
  refine (bump_reads hi hk rfl).mono ?_
  rintro leading j ⟨hj, e₁⟩
  refine (qualifiedName_reads false j hj).mono ?_
  rintro name k ⟨hk, e₂⟩
  refine (expect_reads rfl hk).mono ?_
  rintro after l ⟨hl, e₃⟩
  exact ⟨hl, by simp [e₁, e₂, e₃, headerAtoms, Followed.atoms, Shape.pieces]⟩

theorem importDeclaration_reads {i : Input} (hi : i.Sound)
    (hk : kindOf i.tokens = .importWord) :
    importDeclaration.Ensures i fun x j => j.Sound ∧ i.atoms = headerAtoms x ++ j.atoms := by
  simp only [importDeclaration, ensures_bind, ensures_node, ensures_pure]
  refine (bump_reads hi hk rfl).mono ?_
  rintro leading j ⟨hj, e₁⟩
  refine (ifAt_reads (v := fun s => spaceAtoms s ++ wordAtoms "static".toList) hj
    fun hs => (bump_reads hj hs rfl).mono ?_).mono ?_
  · rintro s k ⟨hk, e⟩
    exact ⟨hk, by simp [e]⟩
  · rintro beforeStatic k ⟨hk, e₂⟩
    refine (qualifiedName_reads true k hk).mono ?_
    rintro name l ⟨hl, e₃⟩
    refine (expect_reads rfl hl).mono ?_
    rintro after m ⟨hm, e₄⟩
    refine ⟨hm, ?_⟩
    cases beforeStatic <;>
      simp [e₁, e₂, e₃, e₄, headerAtoms, Followed.atoms, Shape.pieces]

theorem topLevelDeclaration_reads (hg : g.Reads) :
    (topLevelDeclaration g).Reads Tree.atoms := by
  intro i hi
  simp only [topLevelDeclaration]
  rw [ensures_bind, ensures_tokens, ensures_bind]
  refine (member_reads hg i hi).mono ?_
  rintro tree j h
  split
  · exact ensures_pure.2 h
  · exact ensures_failAt

/-- A file is read to the end of the input. -/
theorem compilationUnit_reads (hg : g.Reads) {i : Input} (hi : i.Sound) :
    (compilationUnit g).Ensures i fun t _ => i.atoms = t.atoms := by
  simp only [compilationUnit, ensures_bind, ensures_node]
  refine (takeSpace_reads hi).mono ?_
  rintro leading j ⟨hj, -, -, e₁⟩
  refine (ifAt_reads hj fun hk => packageDeclaration_reads hj hk).mono ?_
  rintro package k ⟨hk, e₂⟩
  refine (whileAt_reads (fun i hi hk => importDeclaration_reads hi hk) hk).mono ?_
  rintro imports l ⟨hl, e₃⟩
  have hitems := collecting_reads (v := Tree.atoms) (i := l) (I := Input.Sound)
    (p := do if ← at? .eof then return none else return some (← topLevelDeclaration g)) ?_ hl
  have hend := collecting_ends (i := l) (E := fun i => kindOf i.tokens = .eof)
    (p := do if ← at? .eof then return none else return some (← topLevelDeclaration g)) ?_
  · refine (hitems.and hend).mono ?_
    rintro declarations m ⟨⟨hm, e₄⟩, hm'⟩
    refine (takeSpace_reads hm).mono ?_
    rintro beforeEnd n ⟨hn, ht, hts, e₅⟩
    have hempty : n.atoms = [] := by
      rw [Input.atoms_of_eof hn (by rw [hts]; exact hm'), if_pos ht]
    have hheader : headerAtoms = fun x => x.atoms ++ wordAtoms [';'] := rfl
    rw [e₁, e₂, e₃, e₄, e₅, hempty]
    cases package <;> simp [Shape.pieces, Piece.atoms_flatMap, hheader]
  · intro i
    simp only [ensures_bind, ensures_at?, ensures_ite, ensures_pure, beq_iff_eq]
    refine ⟨fun hk _ => hk, fun _ a j _ h => ?_⟩
    cases h
  · intro i hi
    simp only [ensures_bind, ensures_at?, ensures_ite, ensures_pure]
    exact ⟨fun _ => ⟨hi, rfl⟩, fun _ => topLevelDeclaration_reads hg i hi⟩

end JavaSource.Grammar
