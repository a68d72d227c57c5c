import JavaSource.Proofs.Persisting
import JavaSource.Proofs.Weighed

/-!
# Every production gives the same from a text that goes on

`persist_grammar`: what a production gives from a text that ends with a statement, it also gives, moved,
from one that goes on behind it.
-/

namespace JavaSource

/-- The tree does not leave a semicolon to whoever holds it. -/
def Tree.Ended (t : Tree) : Prop := t.needsSemicolon = false

theorem balance_nonneg {k : TokenKind} (hk : k ≠ .openParen) : 0 ≤ balance k := by
  unfold balance
  split
  · exact absurd rfl hk
  · exact Int.zero_le_ofNat 1
  · exact Int.le_refl 0

theorem balance_pair_nonneg : 0 ≤ balance .openParen + balance .closeParen := Int.le_refl 0

/-- The scale on which what is read closes as many parentheses as it opens. -/
def Scale.parentheses : Scale where
  token := balance
  rest _ := 0
  light _ := balance_nonneg
  paired := balance_pair_nonneg
  falls _ := Int.le_refl 0

/-- Every production gives the same from the two texts. -/
structure Productions.Persist (q : Sequel) (g g' : Productions) : Prop where
  type : ∀ s, Parser.Inside q s s g.type g'.type
  expression : ∀ s, Parser.Inside q s s g.expression g'.expression
  ternary : ∀ s, Parser.Inside q s s g.ternary g'.ternary
  binary : ∀ s n, Parser.Inside q s s (g.binary n) (g'.binary n)
  unary : ∀ s, Parser.Inside q s s g.unary g'.unary
  arrayInitializer : ∀ s, Parser.Inside q s s g.arrayInitializer g'.arrayInitializer
  statement : ∀ s, Parser.Persists q s s False Tree.Ended g.statement g'.statement
  member : ∀ s, Parser.Persists q s s False Tree.Ended g.member g'.member
  spend : g.Spend .parentheses
  /-- A parenthesis that is not closed cannot be read. -/
  leftOpen : ∀ i, LeftOpen i.tokens → g.ternary.Ensures i fun _ _ => False

namespace Grammar

open JavaSource.Parser Lookahead

variable {q : Sequel} {g g' : Productions} (hg : g.Persist q g') {s : Option Space}

include hg

/-! ### Types, names and annotations -/

theorem inside_wildcard : Inside q s s (wildcard g) (wildcard g') := by
  refine inside_expect.bind fun leading => persists_peek fun k => ?_
  split
  · exact inside_bump.bind fun before => (hg.type none).bind fun t => inside_node rfl
  · exact inside_bump.bind fun before => (hg.type none).bind fun t => inside_node rfl
  · exact inside_node rfl

theorem inside_typeArguments : Inside q none none (typeArguments g) (typeArguments g') := by
  have hfollowed := inside_followed (hg.type none)
  refine inside_expect.bind fun before => persists_at? fun _ => ?_
  extract_lets rest rest'
  have hrest (xs : List (Followed Tree)) :
      Inside q none none (rest xs) (rest' (move q.shift none xs)) :=
    inside_expect.bind fun _ => persists_pure (move_series before xs) id
  refine .ite ?_ ?_
  · exact inside_placeholder.bind fun x => (persists_pure rfl id).bind hrest
  · refine hfollowed.bind fun x => .bind (inside_whileAt (by nofun) ?_) fun xs =>
      (persists_pure (move_cons x xs) id).bind hrest
    exact inside_bump.bind fun _ => hfollowed

theorem inside_withTypeArguments (name : Tree) :
    Inside q none s (withTypeArguments g name) (withTypeArguments g' (move q.shift s name)) := by
  refine persists_at? fun _ => .ite ?_ (persists_pure rfl id)
  refine (inside_typeArguments hg).bind fun args => ?_
  rw [lift_move]
  exact inside_node rfl

theorem inside_typeWithoutDimensions :
    Inside q s s (typeWithoutDimensions g) (typeWithoutDimensions g') := by
  refine persists_peek fun k => ?_
  split
  · exact inside_bump.bind fun _ => inside_node rfl
  · refine .ite (inside_wildcard hg) (inside_identifier.bind fun name =>
      (inside_withTypeArguments hg name).bind fun name => ?_)
    refine inside_repeating (fun target => persists_both rfl ?_ (persists_pure rfl id)) name
    refine inside_bump.bind fun before => inside_identifier.bind fun name => ?_
    rw [lift_move]
    exact (inside_node rfl).bind fun u => (inside_withTypeArguments hg u).bind fun v =>
      persists_pure rfl id

theorem inside_type : Inside q s s (type g) (type g') := by
  refine (inside_typeWithoutDimensions hg).bind fun t => inside_repeating (fun element => ?_) t
  refine persists_both rfl ?_ (persists_pure rfl id)
  refine inside_bump.bind fun beforeOpen => inside_bump.bind fun beforeClose => ?_
  rw [lift_move]
  exact (inside_node rfl).bind fun u => persists_pure rfl id

theorem inside_typeList (before : Space) (k : TokenKind) :
    Inside q none none (typeList g before k) (typeList g' before k) :=
  (inside_separatedBy (inside_type hg)).bind fun xs => persists_pure (move_series before xs) id

omit hg in
theorem inside_qualifiedName (allowStar : Bool) :
    Inside q none none (qualifiedName allowStar) (qualifiedName allowStar) := by
  refine inside_identifier.bind fun t => inside_repeating (fun target => ?_) t
  refine persists_at? fun _ => .ite ?_ (persists_pure rfl id)
  refine inside_bump.bind fun before => persists_at? fun _ => ?_
  extract_lets rest rest'
  have hrest (name : Tree) : Inside q none none (rest name) (rest' (move q.shift none name)) := by
    simp only [rest, rest', lift_move]
    exact (inside_node rfl).bind fun u => persists_pure rfl id
  exact .ite (inside_anyName.bind hrest) (inside_identifier.bind hrest)

theorem inside_arguments : Inside q none none (arguments g) (arguments g') :=
  inside_delimited (hg.expression none)

theorem inside_annotationUse : Inside q none none (annotationUse g) (annotationUse g') :=
  inside_expect.bind fun leading => (inside_qualifiedName false).bind fun name =>
    (inside_ifAt (by nofun) (inside_arguments hg)).bind fun o => inside_node rfl

theorem inside_annotations : Inside q none none (annotations g) (annotations g') :=
  inside_whileAt (by nofun) (inside_annotationUse hg)

omit hg in
theorem inside_modifier (word : Modifier) : Inside q none none (modifier word) (modifier word) :=
  inside_bump.bind fun _ => inside_node rfl

theorem inside_typeParameter : Inside q none none (typeParameter g) (typeParameter g') := by
  refine inside_takeSpace.bind fun leading => (inside_annotations hg).bind fun as =>
    inside_identifier.bind fun name => .bind (inside_ifAt (by nofun) ?_) fun o => inside_node rfl
  exact inside_bump.bind fun before => inside_typeList hg before .ampersand

theorem inside_typeParameters : Inside q none none (typeParameters g) (typeParameters g') :=
  inside_delimited (inside_typeParameter hg)

/-! ### Blocks, variables and class bodies -/

omit hg in
theorem persists_terminate (t : Tree) {E : Prop} :
    Persists q none s t.Ended (fun _ => E) (terminate t) (terminate (move q.shift s t)) := by
  unfold terminate
  rw [needsSemicolon_move]
  split
  · refine Persists.mono ?_ False.elim fun _ h => h
    exact (persists_expect rfl).bind fun s => persists_pure rfl id
  · next h => exact persists_pure rfl fun _ => Bool.eq_false_of_not_eq_true h

omit hg in
theorem inside_itemsUntilBrace {item item' : Parser Tree}
    (h : Persists q none none False Tree.Ended item item') :
    Inside q none none (itemsUntilBrace item) (itemsUntilBrace item') := by
  refine persists_collecting (persists_at? fun _ => persists_at? fun _ => .ite (persists_pure rfl id) ?_)
  exact h.bind fun t => (persists_terminate t).bind fun x => persists_pure rfl id

variable {C : Tree → Prop}

theorem persists_blockBody (leading : Space) (afterStatic : Option Space) :
    Persists q none s False C (blockBody g leading afterStatic)
      (blockBody g' (s.getD leading) afterStatic) := by
  refine inside_expect.bind fun _ => (inside_itemsUntilBrace (hg.statement none)).bind fun xs =>
    (persists_expect rfl).bind fun beforeClose => persists_node ?_ fun _ _ => trivial
  exact congrArg (Shape.block · _ _) (move_option_space (d := q.shift) afterStatic)

theorem persists_block : Persists q s s False C (block g) (block g') :=
  inside_takeSpace.bind fun leading => persists_blockBody hg leading none

theorem persists_classBody : Persists q s s False C (classBody g) (classBody g') :=
  inside_expect.bind fun _ => (inside_itemsUntilBrace (hg.member none)).bind fun _ =>
    (persists_expect rfl).bind fun _ => persists_node rfl fun _ _ => trivial

theorem inside_arrayValues : Inside q none none (arrayValues g) (arrayValues g') :=
  inside_delimited (persists_at? fun _ => .ite (hg.arrayInitializer none) (hg.expression none))

theorem inside_arrayInitializer : Inside q s s (arrayInitializer g) (arrayInitializer g') :=
  inside_takeSpace.bind fun _ => (inside_arrayValues hg).bind fun _ => inside_node rfl

theorem inside_namedVariable (initialized : Bool) :
    Inside q s s (namedVariable g initialized) (namedVariable g' initialized) := by
  refine persists_at? fun _ => .ite ?_ persists_fail
  refine inside_takeSpace.bind fun leading => inside_identifier.bind fun name => persists_at? fun _ => ?_
  extract_lets rest rest'
  have hrest (o : Option (Preceded Tree)) : Inside q none s (rest o) (rest' (move q.shift none o)) :=
    inside_node rfl
  refine .ite ?_ ((persists_pure rfl id).bind hrest)
  refine inside_bump.bind fun before => persists_at? fun _ => ?_
  extract_lets value value'
  have hvalue (t : Tree) : Inside q none s (value t) (value' (move q.shift none t)) :=
    (persists_pure rfl id).bind hrest
  exact .ite ((inside_arrayInitializer hg).bind hvalue) ((hg.expression none).bind hvalue)

theorem inside_parameter : Inside q none none (parameter g) (parameter g') :=
  inside_takeSpace.bind fun leading => (inside_annotations hg).bind fun as =>
    (inside_whileAt (by nofun) (inside_modifier .final)).bind fun ms => (inside_type hg).bind fun t =>
    (inside_ifAt (by nofun) inside_bump).bind fun dots => (inside_namedVariable hg false).bind fun v =>
    inside_node rfl

/-! ### Expressions -/

omit hg in
theorem map_unary {f : Tree → Tree} (before : Space) (operator : UnaryOperator) (operand : Tree) :
    (Shape.unary before operator operand).map f = .unary before operator (f operand) := by
  rw [Shape.map, Shape.traverse]
  split <;> rfl

theorem inside_arrayDimension : Inside q none none (arrayDimension g) (arrayDimension g') := by
  refine inside_expect.bind fun leading => persists_at? fun _ => ?_
  extract_lets rest rest'
  have hrest (x : Followed Tree) : Inside q none none (rest x) (rest' (move q.shift none x)) :=
    inside_expect.bind fun _ => inside_node rfl
  exact .ite (inside_placeholder.bind hrest) ((inside_followed (hg.expression none)).bind hrest)

theorem inside_creation : Inside q s s (creation g) (creation g') := by
  refine inside_expect.bind fun leading => (inside_typeWithoutDimensions hg).bind fun name =>
    persists_at? fun _ => .ite ?_ ?_
  · exact (inside_whileAt (by nofun) (inside_arrayDimension hg)).bind fun _ =>
      (inside_ifAt (by nofun) (inside_arrayValues hg)).bind fun _ => inside_node rfl
  · exact (inside_arguments hg).bind fun _ =>
      (inside_ifAt (by nofun) (persists_classBody hg)).bind fun _ => inside_node rfl

theorem inside_nameOrCall : Inside q s s (nameOrCall g) (nameOrCall g') := by
  refine inside_anyName.bind fun name => persists_at? fun _ => .ite ?_ (persists_pure rfl id)
  rw [lift_move]
  exact (inside_arguments hg).bind fun _ => inside_node rfl

theorem inside_primary : Inside q s s (primary g) (primary g') := by
  refine persists_peek fun k => persists_text fun source => ?_
  split
  · exact inside_takeSpace.bind fun leading => persists_text fun source => inside_bump.bind fun _ =>
      inside_node rfl
  · split
    · exact inside_nameOrCall hg
    · exact inside_nameOrCall hg
    · exact inside_nameOrCall hg
    · exact inside_bump.bind fun leading => (inside_followed (hg.expression none)).bind fun _ =>
        inside_expect.bind fun _ => inside_node rfl
    · exact inside_creation hg
    · exact inside_arrayInitializer hg
    · exact .ite (inside_type hg) persists_fail

theorem inside_selection (target : Tree) :
    Inside q none s (selection g target) (selection g' (move q.shift s target)) := by
  refine inside_expect.bind fun before => (inside_ifAt (by nofun) (inside_typeArguments hg)).bind
    fun typeArguments => persists_peek fun k => ?_
  extract_lets rest rest'
  have hrest (name : Tree) : Inside q none s (rest name) (rest' (move q.shift none name)) := by
    simp only [rest, rest', lift_move, isSome_move]
    exact persists_at? fun _ => .ite ((inside_arguments hg).bind fun _ => inside_node rfl)
      (inside_node rfl)
  split
  · exact inside_anyName.bind hrest
  · exact inside_anyName.bind hrest
  · exact inside_anyName.bind hrest
  · exact inside_anyName.bind hrest
  · exact persists_fail.bind hrest

omit hg in
theorem inside_postfixOperation (operator : UnaryOperator) (operand : Tree) :
    Inside q none s (postfixOperation operator operand)
      (postfixOperation operator (move q.shift s operand)) := by
  refine inside_bump.bind fun before => ?_
  rw [lift_move]
  exact inside_node (map_unary ..)

theorem inside_postfixExpression : Inside q s s (postfixExpression g) (postfixExpression g') := by
  refine (inside_primary hg).bind fun t => inside_repeating (fun operand => ?_) t
  have hoperation (operator : UnaryOperator) := inside_postfixOperation (q := q) (s := s) operator operand
  refine persists_peek fun k => ?_
  split
  · exact (inside_selection hg operand).bind fun _ => persists_pure rfl id
  · refine (inside_arrayDimension hg).bind fun dimension => ?_
    rw [lift_move]
    exact (inside_node rfl).bind fun _ => persists_pure rfl id
  · exact (hoperation .postIncrement).bind fun _ => persists_pure rfl id
  · exact (hoperation .postDecrement).bind fun _ => persists_pure rfl id
  · exact persists_pure rfl id

theorem inside_cast : Inside q s s (cast g) (cast g') :=
  inside_expect.bind fun _ => (inside_followed (inside_type hg)).bind fun _ =>
    inside_expect.bind fun _ => (hg.unary none).bind fun _ =>
    (inside_node (r := none) rfl).bind fun _ => inside_node rfl

theorem inside_unaryExpression : Inside q s s (unaryExpression g) (unaryExpression g') := by
  refine persists_peek fun k => ?_
  split
  · exact inside_bump.bind fun leading => (hg.unary none).bind fun operand => inside_node (map_unary ..)
  · refine persists_tokens fun ts ts' hts => ?_
    rw [hts.isCast]
    exact .ite (inside_cast hg) (inside_postfixExpression hg)

theorem inside_binaryExpression (least : Nat) :
    Inside q s s (binaryExpression g least) (binaryExpression g' least) := by
  refine (inside_unaryExpression hg).bind fun t => inside_repeating (fun left => ?_) t
  refine persists_tokens fun ts ts' hts => ?_
  rw [hts.binaryAhead]
  split
  · exact persists_pure rfl id
  · next operator width _ =>
    refine .ite (persists_pure rfl id) ?_
    refine inside_takeSpace.bind fun before => (inside_skip width).bind fun _ =>
      (hg.binary none _).bind fun right => ?_
    rw [lift_move]
    exact (inside_node rfl).bind fun _ => persists_pure rfl id

theorem inside_lambdaParameter : Inside q none none (lambdaParameter g) (lambdaParameter g') := by
  refine persists_tokens fun ts ts' hts => persists_at? fun _ => ?_
  rw [hts.isLocalVariable]
  exact .ite (inside_parameter hg) inside_identifier

theorem inside_lambda : Inside q s s (lambda g) (lambda g') := by
  refine inside_takeSpace.bind fun leading => persists_at? fun _ => ?_
  extract_lets rest rest'
  have hrest (c : Space × Bool × List (Followed Tree)) :
      Inside q none s (rest c) (rest' (move q.shift none c)) := by
    obtain ⟨before, parenthesized, parameters⟩ := c
    exact inside_expect.bind fun _ => persists_at? fun _ =>
      .ite ((persists_block hg).bind fun _ => inside_node rfl)
        ((hg.expression none).bind fun _ => inside_node rfl)
  refine .ite ?_ ?_
  · exact inside_identifier.bind fun name => (persists_pure rfl id).bind hrest
  · exact (inside_delimited (inside_lambdaParameter hg)).bind fun parameters =>
      (persists_pure (congrArg (parameters.before, true, ·) (move_list _)) id).bind hrest

/-! ### Parentheses that are not closed -/

omit hg in
theorem postfixExpression_fails {i : Input} (h : (primary g).Ensures i fun _ _ => False) :
    (postfixExpression g).Ensures i fun _ _ => False :=
  ensures_bind.2 (h.mono fun _ _ => False.elim)

omit hg in
theorem ternaryExpression_fails {i : Input} (h : (unaryExpression g).Ensures i fun _ _ => False) :
    (ternaryExpression g).Ensures i fun _ _ => False := by
  have hbinary : (binaryExpression g 1).Ensures i fun _ _ => False :=
    ensures_bind.2 (h.mono fun _ _ => False.elim)
  exact ensures_bind.2 (hbinary.mono fun _ _ => False.elim)

section LeftOpen

variable {i : Input} (hi : LeftOpen i.tokens)

include hi

omit hg in
/-- What is read behind the parenthesis closes as many as it opens, and so another one cannot follow. -/
theorem leftOpen_parenthesis {p : Parser Tree} (hp : p.Spends .parentheses 0 (weight .parentheses))
    {f : Space → Followed Tree → Space → Parser Tree} :
    (bump >>= fun a => followed p >>= fun x => expect .closeParen >>= f a x).Ensures i
      fun _ _ => False := by
  obtain ⟨hk, hunclosed⟩ := hi
  refine ensures_bind.2 (ensures_bump (fun t ts a ht _ => ?_) fun hend => ?_)
  · refine ensures_bind.2 (Ensures.mono (spends_followed hp _) fun x j ⟨hsuffix, hweight⟩ => ?_)
    refine ensures_bind.2 (ensures_bind.2 (ensures_at?.2 ?_))
    split
    · next hclose =>
      obtain ⟨us, hus⟩ := hsuffix
      change us ++ j.tokens = ts at hus
      rw [ht] at hunclosed
      cases hj : j.tokens with
      | nil => rw [hj] at hclose; cases hclose
      | cons u rest =>
        have hu : u.kind = .closeParen := by
          rw [hj] at hclose
          exact beq_iff_eq.1 hclose
        have hsum := hunclosed (us ++ [u]) ⟨rest, by rw [← hus, hj, List.append_assoc]; rfl⟩
        have hnonneg : 0 ≤ weight Scale.parentheses x := weight_tree_nonneg x.element
        have hread : weight .parentheses x + (j.tokens.map fun t => balance t.kind).sum ≤
            (ts.map fun t => balance t.kind).sum := by
          simpa [Input.weight, Scale.parentheses] using hweight
        have hclosed : balance u.kind = 1 := by rw [hu]; rfl
        rw [← hus, List.map_append, List.sum_append] at hread
        rw [List.map_append, List.sum_append, List.map_singleton, List.sum_singleton] at hsum
        omega
    · exact ensures_fail
  · rw [hk] at hend
    cases hend

theorem leftOpen_primary : (primary g).Ensures i fun _ _ => False := by
  refine ensures_bind.2 (ensures_peek.2 (ensures_bind.2 (ensures_text.2 ?_)))
  rw [hi.1]
  exact leftOpen_parenthesis hi hg.spend.expression

theorem leftOpen_cast : (cast g).Ensures i fun _ _ => False := by
  have hexpect {f : Space → Parser Tree} (h : (bump >>= f).Ensures i fun _ _ => False) :
      (expect .openParen >>= f).Ensures i fun _ _ => False := by
    refine ensures_bind.2 (ensures_bind.2 (ensures_at?.2 ?_))
    rw [hi.1]
    exact ensures_bind.1 h
  exact hexpect (leftOpen_parenthesis hi (spends_type hg.spend))

theorem leftOpen_ternaryExpression : (ternaryExpression g).Ensures i fun _ _ => False := by
  refine ternaryExpression_fails (ensures_bind.2 (ensures_peek.2 ?_))
  rw [hi.1]
  refine ensures_bind.2 (ensures_tokens.2 ?_)
  split
  · exact leftOpen_cast hg hi
  · exact postfixExpression_fails (leftOpen_primary hg hi)

end LeftOpen

/-! ### Values -/

omit hg in
/-- Whether a lambda expression comes shows in both texts, where something else can be read. -/
theorem inside_isLambda {r : Option Space} {p p' p₁ p₁' : Parser Tree} (hp : Inside q s r p p')
    (hp₁ : Inside q s r p₁ p₁')
    (hopen : ∀ i : Input, LeftOpen i.tokens → p₁.Ensures i fun _ _ => False) :
    Inside q s r (tokens >>= fun ts => if isLambda ts then p else p₁)
      (tokens >>= fun ts => if isLambda ts then p' else p₁') := by
  refine fun i i' => persistsAt_tokens fun ts' hts => ?_
  have hlambda : isLambda ts' = isLambda i.tokens ∨
      isLambda i.tokens = false ∧ LeftOpen i.tokens := by
    rcases hts with rfl | hahead
    · exact .inl rfl
    · exact hahead.isLambda
  rcases hlambda with heq | ⟨hfalse, hi⟩
  · rw [heq]
    exact Persists.ite hp hp₁ i i'
  · rw [hfalse]
    exact (hopen i hi).mono fun _ _ => False.elim

theorem inside_ternaryExpression : Inside q s s (ternaryExpression g) (ternaryExpression g') := by
  refine (inside_binaryExpression hg 1).bind fun condition => persists_at? fun _ =>
    .ite ?_ (persists_pure rfl id)
  refine inside_bump.bind fun beforeQuestion => (hg.expression none).bind fun whenTrue =>
    inside_expect.bind fun beforeColon => ?_
  simp only [lift_move]
  refine inside_isLambda ?_ ?_ ?_
  · exact (inside_lambda hg).bind fun _ => inside_node rfl
  · exact (hg.ternary none).bind fun _ => inside_node rfl
  · exact fun i hi => ensures_bind.2 ((hg.leftOpen i hi).mono fun _ _ => False.elim)

theorem inside_expression : Inside q s s (expression g) (expression g') := by
  refine inside_isLambda (inside_lambda hg) ?_ ?_
  · refine (inside_ternaryExpression hg).bind fun target => persists_tokens fun ts ts' hts => ?_
    rw [hts.assignmentAhead]
    split
    · exact persists_pure rfl id
    · next operator width _ =>
      refine inside_takeSpace.bind fun before => (inside_skip width).bind fun _ =>
        (hg.expression none).bind fun value => ?_
      rw [lift_move]
      cases operator with
      | none => exact inside_node rfl
      | some operator => exact inside_node rfl
  · exact fun i hi => ensures_bind.2 ((leftOpen_ternaryExpression hg hi).mono fun _ _ => False.elim)

/-! ### Declarations -/

instance : Moves MemberHead :=
  ⟨fun d s h => ⟨s.getD h.leading, move d none h.annotations, move d none h.modifiers,
    move d none h.typeParameters⟩⟩

instance : Moves ClassHeader :=
  ⟨fun d s h => ⟨s.getD h.beforeKind, move d none h.name, move d none h.typeParameters,
    move d none h.superclass, move d none h.extended⟩⟩

theorem inside_enumValues : Inside q s s (enumValues g) (enumValues g') := by
  refine inside_takeSpace.bind fun leading =>
    (inside_repeating (r := none) (fun c => ?_) (([] : List (Followed Tree)), true)).bind fun c => ?_
  · obtain ⟨values, more⟩ := c
    have hitem (value : Tree) (after : Space) (more : Bool) :
        move q.shift none (some (Followed.mk value after :: values, more)) =
          some (⟨move q.shift none value, after⟩ :: move q.shift none values, more) :=
      congrArg some (Prod.ext (move_cons ..) rfl)
    refine persists_at? fun _ => .ite ?_ (persists_pure rfl id)
    refine inside_takeSpace.bind fun before => inside_identifier.bind fun name =>
      (inside_ifAt (by nofun) (inside_arguments hg)).bind fun o =>
      (inside_node (r := none) rfl).bind fun value => persists_peek fun k => ?_
    split
    · exact inside_bump.bind fun after => persists_pure (hitem ..) id
    · exact inside_takeSpace.bind fun after => persists_pure (hitem ..) id
    · exact persists_pure (hitem ..) id
  · obtain ⟨values, dangling⟩ := c
    dsimp -zeta only
    extract_lets rest behind rest' behind'
    have hrest (values : List (Followed Tree)) :
        Inside q none s (rest values) (rest' (move q.shift none values)) := by
      refine (inside_ifAt (by nofun) inside_bump).bind fun semicolon => ?_
      rw [isSome_move, ← move_reverse]
      exact inside_node rfl
    have hbehind (after : Space) :
        Inside q none s (behind after) (behind' (move q.shift none after)) := by
      refine (inside_node (r := none) rfl).bind fun t => ?_
      exact (persists_pure (move_cons (Followed.mk t after) values) id).bind hrest
    have hmove : move q.shift none (values, dangling) = (move q.shift none values, dangling) := rfl
    rw [hmove, isEmpty_move]
    refine .ite (persists_at? fun _ => .ite ?_ ?_) ((persists_pure rfl id).bind hrest)
    · exact inside_takeSpace.bind hbehind
    · exact (persists_pure rfl id).bind hbehind

theorem persists_enumBody : Persists q s s False C (enumBody g) (enumBody g') := by
  refine inside_expect.bind fun leading => persists_at? fun _ => persists_at? fun _ => ?_
  extract_lets rest rest'
  have hrest (values : List (Followed Tree)) :
      Persists q none s False C (rest values) (rest' (move q.shift none values)) := by
    refine (inside_itemsUntilBrace (hg.member none)).bind fun members =>
      (persists_expect rfl).bind fun _ => persists_node ?_ fun _ _ => trivial
    rw [← move_append]
    rfl
  refine .ite ?_ ((persists_pure rfl id).bind hrest)
  exact (inside_enumValues hg).bind fun t => (persists_pure rfl id).bind hrest

theorem inside_classHeader (kind : ClassKind) :
    Inside q none none (classHeader g kind) (classHeader g' kind) := by
  refine inside_bump.bind fun beforeKind => inside_identifier.bind fun name =>
    (inside_ifAt (by nofun) (inside_typeParameters hg)).bind fun ps => persists_at? fun _ =>
    .ite (inside_bump.bind fun before => .ite ?_ ?_) (persists_pure rfl id)
  · exact (inside_typeList hg before .comma).bind fun xs => persists_pure rfl id
  · exact (inside_type hg).bind fun t => persists_pure rfl id

theorem persists_classRest (kind : ClassKind) (leading : Space) (as ms : List Tree)
    (h : ClassHeader) :
    Persists q none s False C (classRest g kind leading as ms h)
      (classRest g' kind (s.getD leading) (move q.shift none as) (move q.shift none ms)
        (move q.shift none h)) := by
  refine persists_at? fun _ => ?_
  extract_lets rest rest'
  have hrest (interfaces : Option (Series Tree)) :
      Persists q none s False C (rest interfaces) (rest' (move q.shift none interfaces)) := by
    dsimp -zeta only [rest, rest']
    extract_lets last last'
    have hlast (body : Tree) : Persists q none s True C (last body) (last' (move q.shift none body)) :=
      persists_node rfl fun _ _ => trivial
    exact .ite ((persists_enumBody hg).bind hlast) ((persists_classBody hg).bind hlast)
  refine .ite (inside_bump.bind fun before => ?_) ((persists_pure rfl id).bind hrest)
  exact (inside_typeList hg before .comma).bind fun xs => (persists_pure rfl id).bind hrest

theorem persists_classDeclaration (kind : ClassKind) (leading : Space) (as ms : List Tree) :
    Persists q none s False C (classDeclaration g kind leading as ms)
      (classDeclaration g' kind (s.getD leading) (move q.shift none as) (move q.shift none ms)) := by
  rw [classDeclaration_eq, classDeclaration_eq]
  exact (inside_classHeader hg kind).bind fun h => persists_classRest hg kind leading as ms h

theorem persists_method (head : MemberHead) (returnType : Option Tree) :
    Persists q none s False Tree.Ended (method g head returnType)
      (method g' (move q.shift s head) (move q.shift none returnType)) := by
  refine inside_identifier.bind fun name =>
    (inside_delimited (inside_parameter hg)).bind fun parameters => ?_
  refine Persists.bind (inside_ifAt (by nofun) ?_) fun thrown => ?_
  · exact inside_bump.bind fun before => inside_typeList hg before .comma
  -- without a body there is a semicolon to come
  · have hbody : Persists q none none False (fun body : Option Tree => body.isSome)
        (ifAt .openBrace (block g)) (ifAt .openBrace (block g')) :=
      persists_ifAt (by nofun) False.elim nofun (persists_block hg)
    refine hbody.bind fun body => persists_node rfl fun _ hended => ?_
    cases body with
    | none => cases hended
    | some body => rfl

omit hg in
/-- A node that leaves its semicolon to whoever holds it. -/
theorem persists_open_node {front : Space} {x x' : Shape Tree}
    (hx : x.map (move q.shift none) = x') (hneeds : ∀ i, (Tree.node i front x).needsSemicolon) :
    Persists q none s False Tree.Ended (node front x) (node (s.getD front) x') :=
  persists_node hx fun i hended => nomatch hended.symm.trans (hneeds i)

theorem persists_declarators (head : MemberHead) (type : Tree) :
    Persists q none s False Tree.Ended (declarators g head type)
      (declarators g' (move q.shift s head) (move q.shift none type)) :=
  (inside_separatedBy (inside_namedVariable hg true)).bind fun _ =>
    persists_open_node rfl fun _ => rfl

theorem persists_methodOrVariables (head : MemberHead) :
    Persists q none s False Tree.Ended (methodOrVariables g head)
      (methodOrVariables g' (move q.shift s head)) := by
  refine persists_both rfl (persists_method hg head none) ?_
  refine (inside_type hg).bind fun type => persists_both rfl (persists_method hg head (some type)) ?_
  have hps : (move q.shift s head).typeParameters.isSome = head.typeParameters.isSome := isSome_move _
  rw [hps]
  exact .ite persists_fail (persists_declarators hg head type)

omit hg in
theorem inside_modifier? : Inside q none none modifier? modifier? := by
  refine persists_peek fun k => ?_
  split
  · next word _ => exact (inside_modifier word).bind fun t => persists_pure rfl id
  · exact persists_pure rfl id

theorem persists_declaration : Persists q s s False Tree.Ended (declaration g) (declaration g') := by
  refine inside_takeSpace.bind fun leading => (inside_annotations hg).bind fun as =>
    (persists_collecting inside_modifier?).bind fun ms => persists_peek fun k => ?_
  split
  · next kind _ => exact persists_classDeclaration hg kind leading as ms
  · exact (inside_ifAt (by nofun) (inside_typeParameters hg)).bind fun ps =>
      persists_methodOrVariables hg ⟨leading, as, ms, ps⟩

theorem persists_member : Persists q s s False Tree.Ended (member g) (member g') := by
  refine fun i i' => persistsAt_peek ?_
  split
  · exact inside_takeSpace.bind (fun leading => persists_open_node rfl fun _ => rfl) i i'
  · exact persists_block hg i i'
  · next hk =>
    refine persistsAt_peekNext (hk ▸ rfl) fun n => .ite ?_ (persists_declaration hg)
    exact inside_bump.bind fun leading => inside_takeSpace.bind fun after =>
      persists_blockBody hg leading (some after)
  · exact persists_declaration hg i i'

/-! ### Statements -/

theorem persists_terminated {E : Prop} :
    Persists q s s False (fun _ => E) (terminated g) (terminated g') :=
  (hg.statement s).bind fun t => persists_terminate t

theorem inside_controlParentheses :
    Inside q none none (controlParentheses g) (controlParentheses g') :=
  inside_expect.bind fun _ => (inside_followed (hg.expression none)).bind fun _ =>
    inside_expect.bind fun _ => inside_node rfl

omit hg in
theorem inside_jumpLabel : Inside q none none jumpLabel jumpLabel :=
  inside_ifAt (by nofun) inside_identifier

theorem persists_labeled : Persists q s s False Tree.Ended (labeled g) (labeled g') := by
  refine inside_identifier.bind fun name => ?_
  rw [lift_move]
  refine inside_expect.bind fun after => (hg.statement none).bind fun t =>
    persists_node rfl fun i hended => ?_
  exact hended

theorem persists_ifStatement : Persists q s s False C (ifStatement g) (ifStatement g') := by
  have helse : Persists q none none False (fun _ => True)
      (bump >>= fun leading => terminated g >>= fun x => node leading (.elsePart x))
      (bump >>= fun leading => terminated g' >>= fun x => node leading (.elsePart x)) :=
    inside_bump.bind fun leading => (persists_terminated hg (E := True)).bind fun x =>
      persists_node rfl fun _ _ => trivial
  exact inside_expect.bind fun leading => (inside_controlParentheses hg).bind fun condition =>
    (persists_terminated hg).bind fun thenPart =>
    (persists_ifAt_last (by nofun) q.apart.1 helse).bind fun alternative =>
    persists_node rfl fun _ _ => trivial

theorem persists_whileLoop : Persists q s s False C (whileLoop g) (whileLoop g') :=
  inside_expect.bind fun _ => (inside_controlParentheses hg).bind fun _ =>
    (persists_terminated hg (E := True)).bind fun _ => persists_node rfl fun _ _ => trivial

theorem persists_doWhileLoop :
    Persists q s s False Tree.Ended (doWhileLoop g) (doWhileLoop g') :=
  inside_expect.bind fun _ => (persists_terminated hg).bind fun _ =>
    inside_expect.bind fun _ => (inside_controlParentheses hg).bind fun _ =>
    persists_open_node rfl fun _ => rfl

theorem inside_expressionList :
    Inside q none none (expressionList g) (expressionList g') := by
  have hfollowed := inside_followed (hg.expression none)
  refine hfollowed.bind fun first => .bind (inside_whileAt (by nofun) ?_) fun others =>
    persists_pure (move_cons first others) id
  exact inside_bump.bind fun _ => hfollowed

theorem inside_forEachControl :
    Inside q none none (forEachControl g) (forEachControl g') :=
  inside_expect.bind fun _ => (inside_followed (persists_member hg).inside).bind fun _ =>
    inside_expect.bind fun _ => (inside_followed (hg.expression none)).bind fun _ =>
    inside_expect.bind fun _ => inside_node rfl

theorem inside_forControl : Inside q none none (forControl g) (forControl g') := by
  have hexpressions := inside_expressionList hg
  have hcondition := inside_followed (hg.expression none)
  refine inside_expect.bind fun leading => persists_at? fun _ => persists_tokens fun ts ts' hts =>
    persists_at? fun _ => ?_
  rw [hts.isLocalVariable]
  extract_lets behind behind'
  have hbehind (init : List (Followed Tree)) :
      Inside q none none (behind init) (behind' (move q.shift none init)) := by
    refine inside_expect.bind fun _ => persists_at? fun _ => ?_
    extract_lets rest rest'
    have hrest (condition : Followed Tree) :
        Inside q none none (rest condition) (rest' (move q.shift none condition)) := by
      refine inside_expect.bind fun _ => persists_at? fun _ => ?_
      extract_lets last last'
      have hlast (update : List (Followed Tree)) :
          Inside q none none (last update) (last' (move q.shift none update)) :=
        inside_expect.bind fun _ => inside_node rfl
      exact .ite (inside_placeholder.bind fun _ => (persists_pure rfl id).bind hlast)
        (hexpressions.bind hlast)
    exact .ite (inside_placeholder.bind hrest) (hcondition.bind hrest)
  refine .ite ?_ (.ite ?_ (hexpressions.bind hbehind))
  · exact inside_placeholder.bind fun _ => (persists_pure rfl id).bind hbehind
  · exact (inside_followed (persists_member hg).inside).bind fun _ => (persists_pure rfl id).bind hbehind

omit hg in
theorem suffix_expect (k : TokenKind) (i : Input) :
    (expect k).Ensures i fun _ j => j.tokens <:+ i.tokens := by
  refine ensures_bind.2 (ensures_at?.2 ?_)
  split
  · exact ensures_bump (fun t ts _ ht _ => ht ▸ List.suffix_cons t ts)
      fun _ _ j htokens _ => htokens ▸ List.suffix_refl _
  · exact ensures_fail

/-- There is a semicolon in the header of a loop with a counter. -/
theorem forControl_semicolon {i : Input} (hnone : ∀ t ∈ i.tokens, t.kind ≠ .semicolon) :
    (forControl g).Ensures i fun _ _ => False := by
  have hrest {α : Type} {f : Space → Parser α} {j : Input} (hj : j.tokens <:+ i.tokens) :
      (expect .semicolon >>= f).Ensures j fun _ _ => False := by
    refine ensures_bind.2 (ensures_bind.2 (ensures_at?.2 ?_))
    split
    · next hk =>
      cases ht : j.tokens with
      | nil => rw [ht] at hk; cases hk
      | cons t ts =>
        rw [ht] at hk hj
        exact absurd (beq_iff_eq.1 hk) (hnone t (hj.subset (.head _)))
    · exact ensures_fail
  have hbind {β : Type} [Weighs β] {p : Parser β} {f : β → Parser Tree} {j : Input}
      (hj : j.tokens <:+ i.tokens) (hp : p.Spends .parentheses 0 (weight .parentheses))
      (hf : ∀ a k, k.tokens <:+ i.tokens → (f a).Ensures k fun _ _ => False) :
      (p >>= f).Ensures j fun _ _ => False :=
    ensures_bind.2 (Ensures.mono (hp j) fun a k ⟨hsuffix, _⟩ => hf a k (hsuffix.trans hj))
  refine ensures_bind.2 ((suffix_expect .openParen i).mono fun _ j hj => ?_)
  refine ensures_bind.2 (ensures_at?.2 (ensures_bind.2 (ensures_tokens.2 (ensures_bind.2
    (ensures_at?.2 ?_)))))
  extract_lets behind
  have hbehind (init : List (Followed Tree)) (k : Input) (hk : k.tokens <:+ i.tokens) :
      (behind init).Ensures k fun _ _ => False := hrest hk
  split
  · exact hbind hj spends_placeholder fun x k hk => ensures_bind.2 (ensures_pure.2 (hbehind [x] k hk))
  · split
    · exact hbind hj (spends_followed (spends_member hg.spend)) fun x k hk =>
        ensures_bind.2 (ensures_pure.2 (hbehind [x] k hk))
    · exact hbind hj (spends_expressionList hg.spend) hbehind

theorem persists_forLoop : Persists q s s False C (forLoop g) (forLoop g') := by
  have hforEach (leading : Space) : Persists q none s False C
      (forEachControl g >>= fun c => terminated g >>= fun x => node leading (.forEachLoop c x))
      (forEachControl g' >>= fun c => terminated g' >>= fun x =>
        node (s.getD leading) (.forEachLoop c x)) :=
    (inside_forEachControl hg).bind fun _ => (persists_terminated hg (E := True)).bind fun _ =>
      persists_node rfl fun _ _ => trivial
  have hfor (leading : Space) : Persists q none s False C
      (forControl g >>= fun c => terminated g >>= fun x => node leading (.forLoop c x))
      (forControl g' >>= fun c => terminated g' >>= fun x => node (s.getD leading) (.forLoop c x)) :=
    (inside_forControl hg).bind fun _ => (persists_terminated hg (E := True)).bind fun _ =>
      persists_node rfl fun _ _ => trivial
  refine inside_expect.bind fun leading i i' => persistsAt_tokens fun ts' hts => ?_
  have hforEach? : isForEach 0 ts' = isForEach 0 i.tokens ∨
      isForEach 0 i.tokens = false ∧ ∀ t ∈ i.tokens, t.kind ≠ .semicolon := by
    rcases hts with rfl | hahead
    · exact .inl rfl
    · exact hahead.isForEach 0
  rcases hforEach? with heq | ⟨hfalse, hnone⟩
  · rw [heq]
    exact Persists.ite (hforEach leading) (hfor leading) i i'
  · rw [hfalse]
    exact ensures_bind.2 ((forControl_semicolon hg hnone).mono fun _ _ => False.elim)

theorem inside_caughtType : Inside q none none (caughtType g) (caughtType g') := by
  refine (inside_type hg).bind fun first => persists_at? fun _ => .ite ?_ (persists_pure rfl id)
  rw [lift_move]
  refine Persists.bind (inside_whileAt (by nofun) ?_) fun others => inside_node ?_
  · exact inside_bump.bind fun _ => (inside_type hg).bind fun _ => persists_pure rfl id
  · have hafter : (move q.shift none others).map Prod.fst = others.map Prod.fst := by
      rw [move_list, List.map_map]
      rfl
    have htypes : (move q.shift none others).map Prod.snd = move q.shift none (others.map Prod.snd) := by
      rw [move_list, move_list, List.map_map, List.map_map]
      rfl
    rw [hafter, htypes, ← move_cons, ← move_zipWith_followed]
    rfl

theorem persists_catchClause : Persists q none none False C (catchClause g) (catchClause g') :=
  inside_expect.bind fun leading => inside_expect.bind fun beforeOpen =>
    inside_takeSpace.bind fun beforeParameter =>
    (inside_whileAt (by nofun) (inside_modifier .final)).bind fun modifiers =>
    (inside_caughtType hg).bind fun type => (inside_namedVariable hg false).bind fun declared =>
    (inside_node (r := none) rfl).bind fun parameter => inside_takeSpace.bind fun after =>
    inside_expect.bind fun _ => (persists_block hg (C := fun _ => True)).bind fun body =>
    (persists_node (r := none) (C := fun _ => True) rfl fun _ _ => trivial).bind fun header =>
    persists_node rfl fun _ _ => trivial

theorem persists_tryStatement : Persists q s s False C (tryStatement g) (tryStatement g') := by
  have hfinally : Persists q none none False (fun _ => True)
      (bump >>= fun before => block g >>= fun t => pure (Preceded.mk before t))
      (bump >>= fun before => block g' >>= fun t => pure (Preceded.mk before t)) :=
    inside_bump.bind fun _ => (persists_block hg (C := fun _ => True)).bind fun _ =>
      persists_pure rfl id
  refine inside_expect.bind fun leading => (persists_block hg (C := fun _ => True)).bind fun body =>
    (persists_whileAt_last (by nofun) q.apart.2.1 (persists_catchClause hg)).bind fun catches =>
    (persists_ifAt_last (by nofun) q.apart.2.2 hfinally).bind fun finallyBlock => ?_
  rw [isEmpty_move, isNone_move]
  exact .ite persists_fail (persists_node rfl fun _ _ => trivial)

theorem inside_caseClause : Inside q none none (caseClause g) (caseClause g') := by
  refine inside_takeSpace.bind fun leading => persists_at? fun _ => ?_
  extract_lets behind behind'
  have hbehind (value : Option Tree) :
      Inside q none none (behind value) (behind' (move q.shift none value)) := by
    refine inside_expect.bind fun before => .bind (persists_collecting (persists_peek fun k => ?_))
      fun xs => inside_node (congrArg (Shape.caseClause _) (move_series before xs))
    split
    · exact persists_pure rfl id
    · exact persists_pure rfl id
    · exact persists_pure rfl id
    · exact persists_pure rfl id
    · exact (persists_terminated hg).bind fun _ => persists_pure rfl id
  refine .ite (inside_bump.bind fun _ => (persists_pure rfl id).bind hbehind) ?_
  exact inside_expect.bind fun _ => (hg.expression none).bind fun _ => (persists_pure rfl id).bind hbehind

theorem persists_switchStatement :
    Persists q s s False C (switchStatement g) (switchStatement g') := by
  have hcase : Inside q none none (caseClause g >>= fun t => pure (some (Followed.bare t)))
      (caseClause g' >>= fun t => pure (some (Followed.bare t))) :=
    (inside_caseClause hg).bind fun _ => persists_pure rfl id
  exact inside_expect.bind fun leading => (inside_controlParentheses hg).bind fun selector =>
    inside_expect.bind fun beforeOpen =>
    (persists_collecting (persists_at? fun _ => persists_at? fun _ =>
      .ite hcase (persists_pure rfl id))).bind fun cases =>
    (persists_expect rfl (C := fun _ => True)).bind fun beforeClose =>
    (persists_node (r := none) (C := fun _ => True) rfl fun _ _ => trivial).bind fun b =>
    persists_node rfl fun _ _ => trivial

theorem persists_expressionStatement :
    Persists q s s False Tree.Ended (expressionStatement g) (expressionStatement g') := by
  refine persists_tokens fun ts ts' _ => (hg.expression s).bind fun t => ?_
  rw [needsSemicolon_move]
  split
  · next hneeds => exact persists_pure rfl fun hended => nomatch hended.symm.trans hneeds
  · exact persists_failAt

theorem persists_statement : Persists q s s False Tree.Ended (statement g) (statement g') := by
  have hmember := persists_member hg (s := s)
  refine fun i i' => persistsAt_peek ?_
  split
  · exact persists_block hg i i'
  · exact persists_ifStatement hg i i'
  · exact persists_whileLoop hg i i'
  · exact persists_doWhileLoop hg i i'
  · exact persists_forLoop hg i i'
  · exact persists_tryStatement hg i i'
  · exact persists_switchStatement hg i i'
  · refine inside_bump.bind (fun leading => persists_at? fun _ => ?_) i i'
    extract_lets rest rest'
    have hrest (value : Option Tree) : Persists q none s False Tree.Ended (rest value)
        (rest' (move q.shift none value)) := persists_open_node rfl fun _ => rfl
    exact .ite ((persists_pure rfl id).bind hrest)
      ((hg.expression none).bind fun _ => (persists_pure rfl id).bind hrest)
  · exact inside_bump.bind (fun leading => (hg.expression none).bind fun _ =>
      persists_open_node rfl fun _ => rfl) i i'
  · exact inside_bump.bind (fun leading => inside_jumpLabel.bind fun _ =>
      persists_open_node rfl fun _ => rfl) i i'
  · exact inside_bump.bind (fun leading => inside_jumpLabel.bind fun _ =>
      persists_open_node rfl fun _ => rfl) i i'
  · exact inside_takeSpace.bind (fun leading => persists_open_node rfl fun _ => rfl) i i'
  all_goals try exact hmember i i'
  refine persistsAt_peekNext_and (fun hk => ?_) (persists_labeled hg i i') ?_
  · rw [of_decide_eq_true hk]
    rfl
  · exact persists_tokens (fun ts ts' hts => by
      rw [hts.isLocalVariable]
      exact .ite hmember (persists_expressionStatement hg)) i i'

end Grammar

/-- **Lookahead stops at the end**: the productions of every level give from a text that ends with a
statement what they give, moved, from one that goes on behind it, and that has more levels. -/
theorem persist_grammar (q : Sequel) {n n' : Nat} (hn : n ≤ n') :
    (grammar n).Persist q (grammar n') := by
  induction n generalizing n' with
  | zero =>
    have hthrow {s : Option Space} {C : Tree → Prop} {p' : Parser Tree} :
        Parser.Persists q s s False C (throw .outOfBudget) p' := Parser.persists_throw
    exact
      { type := fun _ => hthrow
        expression := fun _ => hthrow
        ternary := fun _ => hthrow
        binary := fun _ _ => hthrow
        unary := fun _ => hthrow
        arrayInitializer := fun _ => hthrow
        statement := fun _ => hthrow
        member := fun _ => hthrow
        spend := spend_grammar _ _
        leftOpen := fun _ _ => Parser.ensures_throw }
  | succ n ih =>
    obtain ⟨n', rfl⟩ := Nat.exists_eq_succ_of_ne_zero (n := n') (by omega)
    have hg := ih (Nat.le_of_succ_le_succ hn)
    exact
      { type := fun _ => Grammar.inside_type hg
        expression := fun _ => Grammar.inside_expression hg
        ternary := fun _ => Grammar.inside_ternaryExpression hg
        binary := fun _ => Grammar.inside_binaryExpression hg
        unary := fun _ => Grammar.inside_unaryExpression hg
        arrayInitializer := fun _ => Grammar.inside_arrayInitializer hg
        statement := fun _ => Grammar.persists_statement hg
        member := fun _ => Grammar.persists_member hg
        spend := spend_grammar _ _
        leftOpen := fun _ => Grammar.leftOpen_ternaryExpression hg }

end JavaSource
