import JavaSource.Proofs.Header
import JavaSource.Proofs.Returning

/-!
# Every production returns within its budget

`return_grammar`: the productions with `n` levels return from every input with fewer than `n` tokens
left, and more levels change nothing.  A statement may be read one level down before any token is,
so statements and members need one token fewer; a statement that costs no token leaves a semicolon
to whoever holds it, and that semicolon is the token of the round.
-/

namespace JavaSource

namespace Parser

/-- A statement costs a token, unless a semicolon has still to be read behind it. -/
def statementCost (t : Tree) : Nat := if t.needsSemicolon then 0 else 1

/-- A production for statements without their semicolons returns within its budget. -/
abbrev Ends (n : Nat) (p p' : Parser Tree) : Prop := Settles n statementCost p p'

variable {n : Nat} {p p' : Parser Tree} {i : Input}

theorem statementCost_le (t : Tree) : statementCost t ≤ 1 := by
  unfold statementCost
  split <;> omega

theorem PassesAt.ends (h : PassesAt n p p' i) : SettlesAt n statementCost p p' i :=
  h.mono statementCost_le

theorem Passes.ends (h : Passes n p p') : Ends n p p' := fun i => PassesAt.ends (h i)

end Parser

open JavaSource.Parser

/-- With `n` levels every production returns, and with more it returns the same. -/
structure Productions.Return (n : Nat) (g g' : Productions) : Prop where
  type : Returns n g.type g'.type
  expression : Returns n g.expression g'.expression
  ternary : Returns n g.ternary g'.ternary
  binary : ∀ least, Returns n (g.binary least) (g'.binary least)
  unary : Returns n g.unary g'.unary
  arrayInitializer : Returns n g.arrayInitializer g'.arrayInitializer
  statement : Ends (n - 1) g.statement g'.statement
  member : Ends (n - 1) g.member g'.member

namespace Grammar

open Lookahead

variable {n : Nat} {g g' : Productions} (hg : g.Return n g') {i : Input}

include hg

/-! ### Types, names and annotations -/

theorem passes_wildcard : Passes (n + 1) (wildcard g) (wildcard g') := by
  refine (passes_expect (by nofun)).bind fun leading => settles_peek fun k => ?_
  split
  · exact returns_bump.bind fun _ => hg.type.bind fun _ => returns_node
  · exact returns_bump.bind fun _ => hg.type.bind fun _ => returns_node
  · exact returns_node

theorem passes_typeArguments : Passes (n + 1) (typeArguments g) (typeArguments g') := by
  refine (passes_expect (by nofun)).bind fun before => settles_at? fun _ => ?_
  extract_lets rest
  have hrest (xs : List (Followed Tree)) : Returns n (rest xs) (rest xs) :=
    (passes_expect (by nofun)).returns.bind fun _ => returns_pure
  refine settles_ite (returns_placeholder.bind fun _ => returns_pure.bind hrest) ?_
  refine Returns.bind hg.type.followed fun _ =>
    Returns.bind (returns_whileAt fun i hi => ?_) fun _ => returns_pure.bind hrest
  exact (passesAt_bump_of hi (by nofun)).bind fun _ => Settles.followed hg.type.later

theorem returns_withTypeArguments (name : Tree) :
    Returns (n + 1) (withTypeArguments g name) (withTypeArguments g' name) :=
  settles_at? fun _ => settles_ite
    ((passes_typeArguments hg).returns.bind fun _ => returns_node) returns_pure

theorem passes_typeWithoutDimensions :
    Passes (n + 1) (typeWithoutDimensions g) (typeWithoutDimensions g') := by
  refine fun i => settlesAt_peek ?_
  split
  · next primitive hk =>
    exact (passesAt_bump fun heof => by rw [heof] at hk; cases hk).bind fun _ => returns_node
  · refine settlesAt_ite (fun _ => passes_wildcard hg i) fun _ => ?_
    refine passes_identifier.bind (fun name =>
      Returns.bind (returns_withTypeArguments hg name).later fun name => ?_) i
    refine returns_repeating (fun target => settles_both (fun i hi => ?_) settles_none) name
    refine SettlesAt.bind (passesAt_bump_of hi (by nofun)) fun before => ?_
    exact passes_identifier.returns.bind fun name => returns_node.bind fun u =>
      Returns.bind (returns_withTypeArguments hg u).later.later fun _ => settles_pure rfl

theorem passes_type : Passes (n + 1) (type g) (type g') := by
  refine (passes_typeWithoutDimensions hg).bind fun t => returns_repeating (fun element => ?_) t
  refine settles_both (fun i hi => ?_) settles_none
  refine SettlesAt.bind (passesAt_bump_of hi (by nofun)) fun beforeOpen => ?_
  exact returns_bump.bind fun beforeClose => returns_node.bind fun _ => settles_pure rfl

theorem passes_typeList (before : Space) {k : TokenKind} (hk : k ≠ .eof) :
    Passes (n + 1) (typeList g before k) (typeList g' before k) :=
  (passes_separatedBy hk (passes_type hg)).bind fun _ => returns_pure

omit hg in
theorem passes_qualifiedName (allowStar : Bool) :
    Passes n (qualifiedName allowStar) (qualifiedName allowStar) := by
  refine passes_identifier.bind fun t => returns_repeating (fun target i => ?_) t
  refine settlesAt_choice (fun hk => ?_) (settles_none i)
  refine SettlesAt.bind (passesAt_bump_of hk (by nofun)) fun before => settles_at? fun _ => ?_
  extract_lets rest
  have hrest {m : Nat} (name : Tree) :
      Settles m (fun o => roundCost o - 1) (rest name) (rest name) :=
    returns_node.bind fun _ => settles_pure rfl
  exact settles_ite (returns_anyName.bind hrest) (passes_identifier.returns.bind hrest)

theorem passes_arguments : Passes (n + 1) (arguments g) (arguments g') :=
  passes_delimited (by nofun) (by nofun) hg.expression

theorem passes_annotationUse : Passes (n + 1) (annotationUse g) (annotationUse g') :=
  (passes_expect (by nofun)).bind fun _ => (passes_qualifiedName false).returns.bind fun _ =>
    Returns.bind (returns_ifAt (passes_arguments hg).later) fun _ => returns_node

theorem returns_annotations : Returns (n + 1) (annotations g) (annotations g') :=
  returns_whileAt fun i _ => passes_annotationUse hg i

omit hg in
theorem passesAt_modifier {word : Modifier} (hk : kindOf i.tokens ≠ .eof) :
    PassesAt n (modifier word) (modifier word) i :=
  (passesAt_bump hk).bind fun _ => returns_node

omit hg in
theorem returns_finalModifiers :
    Returns n (whileAt .finalWord (modifier .final)) (whileAt .finalWord (modifier .final)) :=
  returns_whileAt fun i hk => passesAt_modifier (by rw [hk]; nofun)

theorem returns_typeParameter : Returns (n + 1) (typeParameter g) (typeParameter g') :=
  returns_takeSpace.bind fun _ => (returns_annotations hg).bind fun _ =>
    passes_identifier.returns.bind fun _ => Returns.bind (returns_ifAt (returns_bump.bind fun _ =>
      (passes_typeList hg _ (by nofun)).returns)) fun _ => returns_node

theorem passes_typeParameters : Passes (n + 1) (typeParameters g) (typeParameters g') :=
  passes_delimited (by nofun) (by nofun) (returns_typeParameter hg).later

/-! ### Blocks, variables and class bodies -/

omit hg in
/-- Together a statement and its semicolon cost a token. -/
theorem settles_terminate (t : Tree) :
    Settles n (fun _ => 1 - statementCost t) (terminate t) (terminate t) := by
  unfold terminate statementCost
  split
  · exact (passes_expect (by nofun)).bind fun _ => returns_pure
  · exact settles_pure rfl

omit hg in
theorem passes_terminated {p p' : Parser Tree} (h : Ends n p p') :
    Passes n (p >>= terminate) (p' >>= terminate) :=
  fun i => SettlesAt.bind (h i) fun t => (settles_terminate t)

omit hg in
theorem returns_itemsUntilBrace {item item' : Parser Tree} (h : Ends n item item') :
    Returns n (itemsUntilBrace item) (itemsUntilBrace item') := by
  refine returns_collecting (settles_at? fun _ => settles_at? fun _ => settles_ite settles_none ?_)
  refine fun i => SettlesAt.bind (h i) fun t => ?_
  refine fun j => SettlesAt.bind (settles_terminate t j) fun _ => settles_pure ?_
  rw [roundCost, Option.elim]
  omega

theorem passes_blockBody (leading : Space) (afterStatic : Option Space) :
    Passes n (blockBody g leading afterStatic) (blockBody g' leading afterStatic) :=
  (passes_expect (by nofun)).bind fun _ => (returns_itemsUntilBrace hg.statement).bind fun _ =>
    (passes_expect (by nofun)).returns.bind fun _ => returns_node

theorem passes_block : Passes n (block g) (block g') :=
  returns_takeSpace.bind fun _ => passes_blockBody hg _ _

theorem passes_classBody : Passes n (classBody g) (classBody g') :=
  (passes_expect (by nofun)).bind fun _ => (returns_itemsUntilBrace hg.member).bind fun _ =>
    (passes_expect (by nofun)).returns.bind fun _ => returns_node

theorem passes_arrayValues : Passes (n + 1) (arrayValues g) (arrayValues g') :=
  passes_delimited (by nofun) (by nofun)
    (settles_at? fun _ => settles_ite hg.arrayInitializer hg.expression)

theorem passes_arrayInitializer : Passes (n + 1) (arrayInitializer g) (arrayInitializer g') :=
  returns_takeSpace.bind fun _ => (passes_arrayValues hg).bind fun _ => returns_node

theorem passes_namedVariable (initialized : Bool) :
    Passes (n + 1) (namedVariable g initialized) (namedVariable g' initialized) := by
  refine settles_at? fun _ => settles_ite ?_ settles_fail
  refine returns_takeSpace.bind fun leading => passes_identifier.bind fun name =>
    settles_at? fun _ => ?_
  extract_lets rest
  have hrest (o : Option (Preceded Tree)) : Returns n (rest o) (rest o) := returns_node
  refine settles_ite ?_ (returns_pure.bind hrest)
  refine returns_bump.bind fun before => settles_at? fun _ => ?_
  extract_lets value
  have hvalue (t : Tree) : Returns n (value t) (value t) := returns_pure.bind hrest
  exact settles_ite (Returns.bind (passes_arrayInitializer hg).later hvalue)
    (hg.expression.bind hvalue)

theorem passes_parameter : Passes (n + 1) (parameter g) (parameter g') :=
  returns_takeSpace.bind fun _ => (returns_annotations hg).bind fun _ =>
    returns_finalModifiers.bind fun _ => (passes_type hg).bind fun _ =>
    Returns.bind (returns_ifAt returns_bump) fun _ =>
    Returns.bind (passes_namedVariable hg false).later fun _ => returns_node

/-! ### Expressions -/

theorem passes_arrayDimension : Passes (n + 1) (arrayDimension g) (arrayDimension g') := by
  refine (passes_expect (by nofun)).bind fun leading => settles_at? fun _ => ?_
  extract_lets rest
  have hrest (x : Followed Tree) : Returns n (rest x) (rest x) :=
    (passes_expect (by nofun)).returns.bind fun _ => returns_node
  exact settles_ite (returns_placeholder.bind hrest) (Returns.bind hg.expression.followed hrest)

theorem passes_creation : Passes (n + 1) (creation g) (creation g') := by
  refine (passes_expect (by nofun)).bind fun leading =>
    Returns.bind (passes_typeWithoutDimensions hg).later fun name =>
    settles_at? fun _ => settles_ite ?_ ?_
  · have hdimension := (passes_arrayDimension hg).le n.le_succ
    exact Returns.bind (returns_whileAt fun i _ => hdimension i) fun _ =>
      Returns.bind (returns_ifAt (passes_arrayValues hg).later) fun _ => returns_node
  · exact Returns.bind (passes_arguments hg).later fun _ =>
      Returns.bind (returns_ifAt (passes_classBody hg).returns) fun _ => returns_node

theorem passesAt_nameOrCall (hk : kindOf i.tokens ≠ .eof) :
    PassesAt (n + 1) (nameOrCall g) (nameOrCall g') i :=
  (passesAt_anyName hk).bind fun _ => settles_at? fun _ =>
    settles_ite (Returns.bind (passes_arguments hg).later fun _ => returns_node) returns_pure

theorem returns_primary : Returns (n + 1) (primary g) (primary g') := by
  refine fun i => settlesAt_peek (settlesAt_text fun source => ?_)
  split
  · exact Returns.bind returns_takeSpace (fun _ => settles_text fun _ => returns_bump.bind fun _ =>
      returns_node) i
  · have hname (hk : kindOf i.tokens ≠ .eof) := (passesAt_nameOrCall hg hk).returns
    split
    · next hk => exact hname (by rw [hk]; nofun)
    · next hk => exact hname (by rw [hk]; nofun)
    · next hk => exact hname (by rw [hk]; nofun)
    · next hk =>
      refine PassesAt.returns ((passesAt_bump_of hk (by nofun)).bind fun leading => ?_)
      exact Returns.bind hg.expression.followed fun _ =>
        (passes_expect (by nofun)).returns.bind fun _ => returns_node
    · exact (passes_creation hg).returns i
    · exact (passes_arrayInitializer hg).returns i
    · exact settles_ite (passes_type hg).returns settles_fail i

theorem passes_selection (target : Tree) :
    Passes (n + 1) (selection g target) (selection g' target) := by
  refine (passes_expect (by nofun)).bind fun before =>
    Returns.bind (returns_ifAt (passes_typeArguments hg).later) fun typeArguments =>
    settles_peek fun k => ?_
  extract_lets rest rest'
  have hrest (name : Tree) : Returns n (rest name) (rest' name) :=
    settles_at? fun _ => settles_ite
      (Returns.bind (passes_arguments hg).later fun _ => returns_node) returns_node
  split
  · exact returns_anyName.bind hrest
  · exact returns_anyName.bind hrest
  · exact returns_anyName.bind hrest
  · exact returns_anyName.bind hrest
  · exact Returns.bind settles_fail hrest

omit hg in
theorem passesAt_postfixOperation {operator : UnaryOperator} {operand : Tree}
    (hk : kindOf i.tokens ≠ .eof) :
    PassesAt n (postfixOperation operator operand) (postfixOperation operator operand) i :=
  (passesAt_bump hk).bind fun _ => returns_node

theorem returns_postfixExpression :
    Returns (n + 1) (postfixExpression g) (postfixExpression g') := by
  refine (returns_primary hg).bind fun t => returns_repeating (fun operand i => settlesAt_peek ?_) t
  split
  · exact PassesAt.some (passes_selection hg operand i)
  · refine SettlesAt.bind (passes_arrayDimension hg i) fun dimension => ?_
    exact returns_node.bind fun _ => settles_pure rfl
  · next hk => exact (passesAt_postfixOperation (by rw [hk]; nofun)).some
  · next hk => exact (passesAt_postfixOperation (by rw [hk]; nofun)).some
  · exact settles_none i

theorem passes_cast : Passes (n + 1) (cast g) (cast g') :=
  (passes_expect (by nofun)).bind fun _ =>
    Returns.bind (Settles.followed (passes_type hg).later) fun _ =>
    (passes_expect (by nofun)).returns.bind fun _ => hg.unary.bind fun _ =>
    returns_node.bind fun _ => returns_node

theorem returns_unaryExpression : Returns (n + 1) (unaryExpression g) (unaryExpression g') := by
  refine fun i => settlesAt_peek ?_
  split
  · next operator ho =>
    have heof : kindOf i.tokens ≠ .eof := fun hk => by rw [hk] at ho; cases ho
    exact PassesAt.returns ((passesAt_bump heof).bind fun _ => hg.unary.bind fun _ => returns_node)
  · exact settles_tokens (fun _ => settles_ite (passes_cast hg).returns
      (returns_postfixExpression hg)) i

omit hg in
/-- An operator has a token. -/
theorem width_of_binaryAhead {ts : List Token} {operator : BinaryOperator} {width : Nat}
    (h : binaryAhead ts = some (operator, width)) : kindOf ts ≠ .eof ∧ 0 < width := by
  refine ⟨fun heof => ?_, ?_⟩
  · rw [binaryAhead, heof] at h
    cases h
  · unfold binaryAhead greaterAhead at h
    repeat' split at h
    all_goals cases h <;> decide

omit hg in
theorem width_of_assignmentAhead {ts : List Token} {operator : Option AssignmentOperator}
    {width : Nat} (h : assignmentAhead ts = some (operator, width)) :
    kindOf ts ≠ .eof ∧ 0 < width := by
  refine ⟨fun heof => ?_, ?_⟩
  · rw [assignmentAhead, heof] at h
    cases h
  · unfold assignmentAhead at h
    repeat' split at h
    all_goals cases h <;> decide

theorem returns_binaryExpression (least : Nat) :
    Returns (n + 1) (binaryExpression g least) (binaryExpression g' least) := by
  refine (returns_unaryExpression hg).bind fun t =>
    returns_repeating (fun left i => settlesAt_tokens ?_) t
  split
  · exact settles_none i
  · next operator width hahead =>
    obtain ⟨heof, hpos⟩ := width_of_binaryAhead hahead
    refine settlesAt_ite (fun _ => settles_none i) fun _ => settlesAt_takeSpace fun before => ?_
    refine SettlesAt.bind (passesAt_skip heof hpos) fun _ => ?_
    exact (hg.binary _).bind fun right => returns_node.bind fun _ => settles_pure rfl

theorem returns_lambdaParameter : Returns (n + 1) (lambdaParameter g) (lambdaParameter g') :=
  settles_tokens fun _ => settles_at? fun _ =>
    settles_ite (passes_parameter hg).returns passes_identifier.returns

theorem passes_lambda : Passes (n + 1) (lambda g) (lambda g') := by
  refine returns_takeSpace.bind fun leading => settles_at? fun _ => ?_
  extract_lets rest rest'
  have hrest (c : Space × Bool × List (Followed Tree)) : Returns n (rest c) (rest' c) :=
    (passes_expect (by nofun)).returns.bind fun _ => settles_at? fun _ =>
      settles_ite ((passes_block hg).returns.bind fun _ => returns_node)
        (hg.expression.bind fun _ => returns_node)
  refine settles_ite (passes_identifier.bind fun name => returns_pure.bind hrest) ?_
  exact (passes_delimited (by nofun) (by nofun) (returns_lambdaParameter hg).later).bind fun _ =>
    returns_pure.bind hrest

theorem returns_ternaryExpression :
    Returns (n + 1) (ternaryExpression g) (ternaryExpression g') := by
  refine (returns_binaryExpression hg 1).bind fun condition i =>
    settlesAt_choice (fun hk => ?_) (returns_pure i)
  refine PassesAt.returns ((passesAt_bump_of hk (by nofun)).bind fun beforeQuestion => ?_)
  refine hg.expression.bind fun whenTrue =>
    (passes_expect (by nofun)).returns.bind fun beforeColon => settles_tokens fun _ => ?_
  exact settles_ite (Returns.bind (passes_lambda hg).later fun _ => returns_node)
    (hg.ternary.bind fun _ => returns_node)

theorem returns_expression : Returns (n + 1) (expression g) (expression g') := by
  refine settles_tokens fun _ => settles_ite (passes_lambda hg).returns ?_
  refine (returns_ternaryExpression hg).bind fun target i => settlesAt_tokens ?_
  split
  · exact returns_pure i
  · next operator width hahead =>
    obtain ⟨heof, hpos⟩ := width_of_assignmentAhead hahead
    refine settlesAt_takeSpace fun before => ?_
    refine PassesAt.returns (PassesAt.bind (n := n + 1) (passesAt_skip heof hpos) fun _ =>
      hg.expression.bind fun value => ?_)
    dsimp only
    split
    · exact returns_node
    · exact returns_node

/-! ### Declarations -/

theorem returns_enumValues : Returns (n + 1) (enumValues g) (enumValues g') := by
  refine returns_takeSpace.bind fun leading =>
    Returns.bind (returns_repeating (fun c => ?_) _) fun c => ?_
  · obtain ⟨values, more⟩ := c
    refine settles_at? fun _ => settles_ite ?_ settles_none
    refine returns_takeSpace.bind fun before i =>
      SettlesAt.bind (passes_identifier i) fun name => ?_
    refine Returns.bind (returns_ifAt (passes_arguments hg).later) fun o =>
      returns_node.bind fun value => settles_peek fun k => ?_
    split
    · exact returns_bump.bind fun _ => settles_pure rfl
    · exact returns_takeSpace.bind fun _ => settles_pure rfl
    · exact settles_pure rfl
  · obtain ⟨values, dangling⟩ := c
    have hrest (xs : List (Followed Tree)) : Returns (n + 1)
        (ifAt .semicolon bump >>= fun o => node leading (.enumValueSet xs.reverse o.isSome))
        (ifAt .semicolon bump >>= fun o => node leading (.enumValueSet xs.reverse o.isSome)) :=
      Returns.bind (returns_ifAt returns_bump) fun _ => returns_node
    refine settles_ite (settles_at? fun _ => ?_) (returns_pure.bind hrest)
    have hdangle (after : Space) :=
      (returns_node (n := n + 1) (s := .empty) (x := .empty)).bind fun t =>
        (returns_pure (a := (⟨t, after⟩ : Followed Tree) :: values)).bind hrest
    exact settles_ite (returns_takeSpace.bind hdangle) (returns_pure.bind hdangle)

theorem passes_enumBody : Passes n (enumBody g) (enumBody g') := by
  refine (passes_expect (by nofun)).bind fun leading => settles_at? fun _ => settles_at? fun _ => ?_
  extract_lets rest rest'
  have hrest (values : List (Followed Tree)) : Returns (n - 1) (rest values) (rest' values) :=
    (returns_itemsUntilBrace hg.member).bind fun _ =>
      (passes_expect (by nofun)).returns.bind fun _ => returns_node
  refine settles_ite ?_ (returns_pure.bind hrest)
  exact Returns.bind ((returns_enumValues hg).le (by omega)) fun _ => returns_pure.bind hrest

theorem passesAt_classHeader {kind : ClassKind} (hk : kindOf i.tokens ≠ .eof) :
    PassesAt (n + 1) (classHeader g kind) (classHeader g' kind) i := by
  refine (passesAt_bump hk).bind fun beforeKind => passes_identifier.returns.bind fun name =>
    Returns.bind (returns_ifAt (passes_typeParameters hg).later) fun ps => settles_at? fun _ =>
    settles_ite (returns_bump.bind fun before => settles_ite ?_ ?_) returns_pure
  · exact Returns.bind (passes_typeList hg before (by nofun)).later fun _ => returns_pure
  · exact Returns.bind (passes_type hg).later fun _ => returns_pure

theorem returns_classRest {kind : ClassKind} {leading : Space} {annotations modifiers : List Tree}
    (h : ClassHeader) :
    Returns n (classRest g kind leading annotations modifiers h)
      (classRest g' kind leading annotations modifiers h) := by
  refine settles_at? fun _ => ?_
  extract_lets rest rest'
  have hrest (interfaces : Option (Series Tree)) : Returns n (rest interfaces) (rest' interfaces) :=
    settles_ite ((passes_enumBody hg).returns.bind fun _ => returns_node)
      ((passes_classBody hg).returns.bind fun _ => returns_node)
  refine settles_ite (returns_bump.bind fun before => ?_) (returns_pure.bind hrest)
  exact Returns.bind (passes_typeList hg before (by nofun)).later fun _ => returns_pure.bind hrest

theorem passesAt_classDeclaration {kind : ClassKind} {leading : Space}
    {annotations modifiers : List Tree} (hk : kindOf i.tokens ≠ .eof) :
    PassesAt (n + 1) (classDeclaration g kind leading annotations modifiers)
      (classDeclaration g' kind leading annotations modifiers) i := by
  rw [classDeclaration_eq, classDeclaration_eq]
  exact (passesAt_classHeader hg hk).bind fun h => returns_classRest hg h

theorem passes_method (head : MemberHead) (returnType : Option Tree) :
    Passes (n + 1) (method g head returnType) (method g' head returnType) :=
  passes_identifier.bind fun _ =>
    Returns.bind (passes_delimited (by nofun) (by nofun) (passes_parameter hg).later).later fun _ =>
    Returns.bind (returns_ifAt (returns_bump.bind fun before =>
      (passes_typeList hg before (by nofun)).later)) fun _ =>
    Returns.bind (returns_ifAt (passes_block hg).returns) fun _ => returns_node

theorem passes_declarators (head : MemberHead) (type : Tree) :
    Passes (n + 1) (declarators g head type) (declarators g' head type) :=
  (passes_separatedBy (by nofun) (passes_namedVariable hg true)).bind fun _ => returns_node

theorem passes_methodOrVariables (head : MemberHead) :
    Passes (n + 1) (methodOrVariables g head) (methodOrVariables g' head) := by
  unfold methodOrVariables
  extract_lets atMethodName
  have hname {m : Nat} : Returns m atMethodName atMethodName :=
    settles_at? fun _ => settles_peekNext fun _ => returns_pure
  refine hname.bind fun _ => settles_ite (passes_method hg head none) ?_
  refine (passes_type hg).bind fun t => hname.bind fun _ =>
    settles_ite (passes_method hg head (some t)).later ?_
  exact settles_ite settles_fail (passes_declarators hg head t).later

omit hg in
theorem settles_modifier? : Settles n roundCost modifier? modifier? := by
  refine fun i => settlesAt_peek ?_
  split
  · next word hk =>
    exact PassesAt.some (passesAt_modifier fun heof => by rw [heof] at hk; cases hk)
  · exact settles_none i

theorem passes_declaration : Passes (n + 1) (declaration g) (declaration g') := by
  refine returns_takeSpace.bind fun leading => (returns_annotations hg).bind fun annotations =>
    Returns.bind (returns_collecting settles_modifier?) fun modifiers i => settlesAt_peek ?_
  split
  · next kind hk => exact passesAt_classDeclaration hg fun heof => by rw [heof] at hk; cases hk
  · exact Returns.bind (returns_ifAt (passes_typeParameters hg).returns)
      (fun ps => passes_methodOrVariables hg ⟨leading, annotations, modifiers, ps⟩) i

theorem ends_member : Ends n (member g) (member g') := by
  have hdeclaration : Ends n (declaration g) (declaration g') :=
    Passes.ends ((passes_declaration hg).le n.le_succ)
  refine fun i => settlesAt_peek ?_
  split
  · exact Returns.bind returns_takeSpace (fun _ => settles_node fun _ => rfl) i
  · exact (passes_block hg).ends i
  · next hk =>
    refine settlesAt_peekNext (settlesAt_ite (fun _ => PassesAt.ends ?_) fun _ => hdeclaration i)
    refine (passesAt_bump (by rw [hk]; nofun)).bind fun leading =>
      returns_takeSpace.bind fun after => ?_
    exact (passes_blockBody hg leading (some after)).later
  · exact hdeclaration i

omit hg in
theorem returns_packageDeclaration : Returns n packageDeclaration packageDeclaration :=
  returns_bump.bind fun _ => (passes_qualifiedName false).returns.bind fun _ =>
    (passes_expect (by nofun)).returns.bind fun _ => returns_node.bind fun _ => returns_pure

omit hg in
theorem passesAt_importDeclaration (hk : kindOf i.tokens ≠ .eof) :
    PassesAt n importDeclaration importDeclaration i :=
  (passesAt_bump hk).bind fun _ => Returns.bind (returns_ifAt returns_bump) fun _ =>
    (passes_qualifiedName true).returns.bind fun _ =>
    (passes_expect (by nofun)).returns.bind fun _ => returns_node.bind fun _ => returns_pure

theorem passes_topLevelDeclaration :
    Passes n (topLevelDeclaration g) (topLevelDeclaration g') := by
  refine settles_tokens fun start i => SettlesAt.bind (ends_member hg i) fun t => ?_
  obtain ⟨id, leading, x⟩ := t
  dsimp only [Tree.shape]
  split
  · exact settles_pure rfl
  · exact settles_failAt

theorem returns_compilationUnit : Returns n (compilationUnit g) (compilationUnit g') :=
  returns_takeSpace.bind fun _ => Returns.bind (returns_ifAt returns_packageDeclaration) fun _ =>
    Returns.bind (returns_whileAt fun i hk =>
      passesAt_importDeclaration (by rw [hk]; nofun)) fun _ =>
    Returns.bind (returns_collecting (settles_at? fun _ => settles_ite settles_none fun i =>
      PassesAt.some (passes_topLevelDeclaration hg i))) fun _ =>
    returns_takeSpace.bind fun _ => returns_node

/-! ### Statements -/

theorem passes_terminatedStatement : Passes (n - 1) (terminated g) (terminated g') :=
  passes_terminated hg.statement

theorem passes_controlParentheses :
    Passes (n + 1) (controlParentheses g) (controlParentheses g') :=
  (passes_expect (by nofun)).bind fun _ => Returns.bind hg.expression.followed fun _ =>
    (passes_expect (by nofun)).returns.bind fun _ => returns_node

omit hg in
theorem returns_jumpLabel : Returns n jumpLabel jumpLabel := returns_ifAt passes_identifier.returns

theorem passes_labeled : Passes n (labeled g) (labeled g') :=
  passes_identifier.bind fun _ => (passes_expect (by nofun)).returns.bind fun _ =>
    Returns.bind (hg.statement.mono fun _ => Nat.zero_le _) fun _ => returns_node

theorem passes_ifStatement : Passes n (ifStatement g) (ifStatement g') := by
  have hbody := (passes_terminatedStatement hg).returns
  refine (passes_expect (by nofun)).bind fun leading =>
    Returns.bind (passes_controlParentheses hg).later.later fun condition =>
    hbody.bind fun thenPart => Returns.bind (returns_ifAt ?_) fun alternative => returns_node
  exact returns_bump.bind fun _ => hbody.bind fun _ => returns_node

theorem passes_whileLoop : Passes n (whileLoop g) (whileLoop g') :=
  (passes_expect (by nofun)).bind fun _ =>
    Returns.bind (passes_controlParentheses hg).later.later fun _ =>
    (passes_terminatedStatement hg).returns.bind fun _ => returns_node

theorem passes_doWhileLoop : Passes n (doWhileLoop g) (doWhileLoop g') :=
  (passes_expect (by nofun)).bind fun _ => (passes_terminatedStatement hg).returns.bind fun _ =>
    (passes_expect (by nofun)).returns.bind fun _ =>
    Returns.bind (passes_controlParentheses hg).later.later fun _ => returns_node

theorem returns_expressionList : Returns n (expressionList g) (expressionList g') := by
  refine Returns.bind hg.expression.followed fun _ => Returns.bind (returns_whileAt fun i hk => ?_)
    fun _ => returns_pure
  exact (passesAt_bump_of hk (by nofun)).bind fun _ => Settles.followed hg.expression.later

theorem passes_forEachControl : Passes n (forEachControl g) (forEachControl g') :=
  (passes_expect (by nofun)).bind fun _ =>
    Returns.bind (Settles.followed (ends_member hg).later) fun _ =>
    (passes_expect (by nofun)).returns.bind fun _ =>
    Returns.bind (Settles.followed hg.expression.later) fun _ =>
    (passes_expect (by nofun)).returns.bind fun _ => returns_node

theorem passes_forControl : Passes n (forControl g) (forControl g') := by
  have hexpressions := Settles.later (returns_expressionList hg)
  have hcondition := Settles.followed hg.expression.later
  refine (passes_expect (by nofun)).bind fun leading => settles_at? fun _ => settles_tokens fun _ =>
    settles_at? fun _ => ?_
  extract_lets behind behind'
  have hbehind (init : List (Followed Tree)) : Returns (n - 1) (behind init) (behind' init) := by
    refine (passes_expect (by nofun)).returns.bind fun _ => settles_at? fun _ => ?_
    extract_lets rest rest'
    have hrest (condition : Followed Tree) :
        Returns (n - 1) (rest condition) (rest' condition) := by
      refine (passes_expect (by nofun)).returns.bind fun _ => settles_at? fun _ => ?_
      extract_lets last
      have hlast (update : List (Followed Tree)) : Returns (n - 1) (last update) (last update) :=
        (passes_expect (by nofun)).returns.bind fun _ => returns_node
      exact settles_ite (returns_placeholder.bind fun _ => returns_pure.bind hlast)
        (hexpressions.bind hlast)
    exact settles_ite (returns_placeholder.bind hrest) (hcondition.bind hrest)
  refine settles_ite ?_ (settles_ite ?_ (hexpressions.bind hbehind))
  · exact returns_placeholder.bind fun _ => returns_pure.bind hbehind
  · exact Returns.bind (Settles.followed (ends_member hg).later) fun _ => returns_pure.bind hbehind

theorem passes_forLoop : Passes n (forLoop g) (forLoop g') := by
  have hbody := (passes_terminatedStatement hg).returns
  refine (passes_expect (by nofun)).bind fun _ => settles_tokens fun _ => settles_ite ?_ ?_
  · exact Returns.bind (passes_forEachControl hg).later fun _ => hbody.bind fun _ => returns_node
  · exact Returns.bind (passes_forControl hg).later fun _ => hbody.bind fun _ => returns_node

theorem passes_caughtType : Passes (n + 1) (caughtType g) (caughtType g') := by
  refine (passes_type hg).bind fun first => settles_at? fun _ => settles_ite ?_ returns_pure
  refine Returns.bind (returns_whileAt fun i hk => ?_) fun _ => returns_node
  exact (passesAt_bump_of hk (by nofun)).bind fun _ =>
    Returns.bind (passes_type hg).later.later fun _ => returns_pure

theorem passes_catchClause : Passes n (catchClause g) (catchClause g') :=
  (passes_expect (by nofun)).bind fun _ => (passes_expect (by nofun)).returns.bind fun _ =>
    returns_takeSpace.bind fun _ => returns_finalModifiers.bind fun _ =>
    Returns.bind (passes_caughtType hg).later.later fun _ =>
    Returns.bind (passes_namedVariable hg false).later.later fun _ => returns_node.bind fun _ =>
    returns_takeSpace.bind fun _ => (passes_expect (by nofun)).returns.bind fun _ =>
    Returns.bind (passes_block hg).later fun _ => returns_node.bind fun _ => returns_node

theorem passes_tryStatement : Passes n (tryStatement g) (tryStatement g') := by
  have hblock := (passes_block hg).later
  refine (passes_expect (by nofun)).bind fun leading => hblock.bind fun body =>
    Returns.bind (returns_whileAt fun i _ => (passes_catchClause hg).le n.pred_le i) fun catches =>
    Returns.bind (returns_ifAt (returns_bump.bind fun _ => hblock.bind fun _ => returns_pure))
    fun finallyBlock => ?_
  exact settles_ite settles_fail returns_node

theorem passes_caseClause : Passes n (caseClause g) (caseClause g') := by
  refine returns_takeSpace.bind fun leading i => settlesAt_at? fun b hb => ?_
  extract_lets rest rest'
  have hrest (value : Option Tree) : Returns (n - 1) (rest value) (rest' value) := by
    refine (passes_expect (by nofun)).returns.bind fun before =>
      Returns.bind (returns_collecting (settles_peek fun k => ?_)) fun _ => returns_node
    split
    · exact settles_none
    · exact settles_none
    · exact settles_none
    · exact settles_none
    · exact fun i => PassesAt.some (passes_terminatedStatement hg i)
  refine settlesAt_ite (fun h => ?_) fun _ => ?_
  · exact (passesAt_bump_of (hb h) (by nofun)).bind fun _ => returns_pure.bind hrest
  · exact (passes_expect (by nofun)).bind (fun _ => Returns.bind hg.expression.later fun _ =>
      returns_pure.bind hrest) i

theorem passes_switchStatement : Passes n (switchStatement g) (switchStatement g') := by
  have hcase : Settles (n - 1) roundCost (caseClause g >>= fun t => pure (some (Followed.bare t)))
      (caseClause g' >>= fun t => pure (some (Followed.bare t))) := fun i =>
    SettlesAt.bind ((passes_caseClause hg).le n.pred_le i) fun _ => settles_pure rfl
  exact (passes_expect (by nofun)).bind fun _ =>
    Returns.bind (passes_controlParentheses hg).later.later fun _ =>
    (passes_expect (by nofun)).returns.bind fun _ =>
    Returns.bind (returns_collecting (settles_at? fun _ => settles_at? fun _ =>
      settles_ite hcase settles_none)) fun _ =>
    (passes_expect (by nofun)).returns.bind fun _ => returns_node.bind fun _ => returns_node

theorem ends_expressionStatement : Ends n (expressionStatement g) (expressionStatement g') := by
  refine settles_tokens fun start => hg.expression.bind fun t => ?_
  split
  · next hneeds => exact settles_pure (if_pos hneeds)
  · exact settles_failAt

theorem ends_statement : Ends n (statement g) (statement g') := by
  have hmember := ends_member hg
  have hopen {p p' : Space → Parser Tree} {i : Input} (hk : kindOf i.tokens ≠ .eof)
      (hp : ∀ s, Returns (n - 1) (p s) (p' s)) :
      SettlesAt n statementCost (bump >>= p) (bump >>= p') i :=
    PassesAt.ends ((passesAt_bump hk).bind hp)
  refine fun i => settlesAt_peek ?_
  split
  · exact (passes_block hg).ends i
  · exact (passes_ifStatement hg).ends i
  · exact (passes_whileLoop hg).ends i
  · exact (passes_doWhileLoop hg).ends i
  · exact (passes_forLoop hg).ends i
  · exact (passes_tryStatement hg).ends i
  · exact (passes_switchStatement hg).ends i
  · next hk =>
    refine hopen (by rw [hk]; nofun) fun leading => settles_at? fun _ => ?_
    extract_lets rest
    have hrest (value : Option Tree) : Returns (n - 1) (rest value) (rest value) := returns_node
    exact settles_ite (returns_pure.bind hrest)
      (Returns.bind hg.expression.later fun _ => returns_pure.bind hrest)
  · next hk =>
    exact hopen (by rw [hk]; nofun) fun _ => Returns.bind hg.expression.later fun _ => returns_node
  · next hk => exact hopen (by rw [hk]; nofun) fun _ => returns_jumpLabel.bind fun _ => returns_node
  · next hk => exact hopen (by rw [hk]; nofun) fun _ => returns_jumpLabel.bind fun _ => returns_node
  · exact Returns.bind returns_takeSpace (fun _ => settles_node fun _ => rfl) i
  all_goals try exact hmember i
  refine settlesAt_peekNext (settlesAt_ite (fun _ => (passes_labeled hg).ends i) fun _ => ?_)
  exact settles_tokens (fun _ => settles_ite hmember (ends_expressionStatement hg)) i

end Grammar

/-- With `n` levels every production returns from an input with fewer than `n` tokens left, and with
more levels it returns the same. -/
theorem return_grammar {n n' : Nat} (hn : n ≤ n') : (grammar n).Return n (grammar n') := by
  induction n generalizing n' with
  | zero =>
    have hnone {c : Tree → Nat} {p p' : Parser Tree} : Settles 0 c p p' :=
      fun i hi => absurd hi (Nat.not_lt_zero _)
    exact ⟨hnone, hnone, hnone, fun _ => hnone, hnone, hnone, hnone, hnone⟩
  | succ n ih =>
    obtain ⟨n', rfl⟩ := Nat.exists_eq_succ_of_ne_zero (n := n') (by omega)
    have hg := ih (Nat.le_of_succ_le_succ hn)
    exact
      { type := (Grammar.passes_type hg).returns
        expression := Grammar.returns_expression hg
        ternary := Grammar.returns_ternaryExpression hg
        binary := Grammar.returns_binaryExpression hg
        unary := Grammar.returns_unaryExpression hg
        arrayInitializer := (Grammar.passes_arrayInitializer hg).returns
        statement := Grammar.ends_statement hg
        member := Grammar.ends_member hg }

end JavaSource
