import JavaSource.Proofs.GapSpaces
import JavaSource.Proofs.Header
import Mathlib.Data.List.TakeWhile

/-!
# The spaces of parsed trees

Every production lays out the gaps between the tokens that it reads and puts no other spaces into a
tree, so each space of a parsed tree is empty or the gap before one of the tokens of its source
(`fromGaps_of_parseFrom`).  So its line comments are in one line (`inLine_of_parseFrom`).
-/

namespace JavaSource

/-- Every production lays out gaps between these tokens. -/
structure Productions.Lay (ts : List Token) (g : Productions) : Prop where
  type : g.type.Lays ts
  expression : g.expression.Lays ts
  ternary : g.ternary.Lays ts
  binary : ∀ n, (g.binary n).Lays ts
  unary : g.unary.Lays ts
  arrayInitializer : g.arrayInitializer.Lays ts
  statement : g.statement.Lays ts
  member : g.member.Lays ts

instance : Spaced Grammar.MemberHead :=
  ⟨fun ts h => FromGaps ts h.leading ∧ FromGaps ts h.annotations ∧ FromGaps ts h.modifiers ∧
    FromGaps ts h.typeParameters⟩

instance : Spaced Grammar.ClassHeader :=
  ⟨fun ts h => FromGaps ts h.beforeKind ∧ FromGaps ts h.name ∧ FromGaps ts h.typeParameters ∧
    FromGaps ts h.superclass ∧ FromGaps ts h.extended⟩

namespace Grammar

open JavaSource.Parser Lookahead

variable {ts : List Token} {g : Productions} (hg : g.Lay ts)

/-! ### Types, names and annotations -/

include hg in
theorem lays_wildcard : (wildcard g).Lays ts := by
  have bounded (leading : Space) (hl : FromGaps ts leading) (bound : WildcardBound) :
      Parser.Lays ts (bump >>= fun before => g.type >>= fun type =>
        node leading (.wildcard (some (before, bound)) (some type))) :=
    lays_bump.bind fun _ hs => hg.type.bind fun _ ht =>
      lays_node hl (by simpa [Shape.slots] using ⟨hs, ht⟩)
  refine lays_expect.bind fun leading hl => .look fun kind => ?_
  split
  · exact bounded leading hl .upper
  · exact bounded leading hl .lower
  · exact lays_node hl fromGaps_nil

include hg in
theorem lays_typeArguments : (typeArguments g).Lays ts := by
  have hclose {before : Space} (hs : FromGaps ts before) {xs : List (Followed Tree)}
      (hxs : FromGaps ts xs) :
      Parser.Lays ts (expect .greater >>= fun _ => pure (Series.mk before xs)) :=
    lays_expect.bind fun _ _ => .pure ⟨hs, hxs⟩
  have hfollowed := lays_followed hg.type
  refine lays_expect.bind fun before hs => .look fun close => .ite ?_ ?_
  · exact lays_placeholder.bind fun x hx => hclose hs (fromGaps_cons.2 ⟨hx, fromGaps_nil⟩)
  · refine hfollowed.bind fun x hx => .bind (lays_whileAt (lays_bump.bind fun _ _ => hfollowed))
      fun xs hxs => hclose hs (fromGaps_cons.2 ⟨hx, hxs⟩)

include hg in
theorem lays_withTypeArguments {name : Tree} (hn : FromGaps ts name) :
    (withTypeArguments g name).Lays ts := by
  refine .look fun _ => .ite ?_ (.pure hn)
  refine (lays_typeArguments hg).bind fun s hs => lays_node (fromGaps_leading hn) ?_
  simpa [Shape.slots, Tree.lift] using ⟨fromGaps_lifted hn, hs⟩

include hg in
theorem lays_typeWithoutDimensions : (typeWithoutDimensions g).Lays ts := by
  refine .look fun kind => ?_
  split
  · exact lays_bump.bind fun _ hs => lays_node hs fromGaps_nil
  · refine .ite (lays_wildcard hg) ?_
    refine lays_identifier.bind fun name hn =>
      (lays_withTypeArguments hg hn).bind fun name hn => lays_repeating (fun t ht => ?_) hn
    refine .look fun _ => .look fun _ => .ite ?_ (.pure fromGaps_none)
    refine lays_bump.bind fun before hs => lays_identifier.bind fun name hn =>
      .bind (lays_node (fromGaps_leading ht) ?_) fun u hu =>
        (lays_withTypeArguments hg hu).bind fun v hv => .pure (fromGaps_some.2 hv)
    simpa [Shape.slots] using ⟨fromGaps_lifted ht, hs, hn⟩

include hg in
theorem lays_type : (type g).Lays ts := by
  refine (lays_typeWithoutDimensions hg).bind fun t ht => lays_repeating (fun t ht => ?_) ht
  refine .look fun _ => .look fun _ => .ite ?_ (.pure fromGaps_none)
  refine lays_bump.bind fun _ ho => lays_bump.bind fun _ hc =>
    .bind (lays_node (fromGaps_leading ht) ?_) fun u hu => .pure (fromGaps_some.2 hu)
  simpa [Shape.slots] using ⟨fromGaps_lifted ht, ho, hc⟩

include hg in
theorem lays_typeList {before : Space} (hs : FromGaps ts before) (k : TokenKind) :
    (typeList g before k).Lays ts :=
  (lays_separatedBy (lays_type hg)).bind fun _ hxs => .pure ⟨hs, hxs⟩

/-- Types behind a keyword, and the space before it. -/
theorem lays_keywordList (hg : g.Lay ts) (k : TokenKind) :
    Parser.Lays ts (bump >>= fun before => typeList g before k) :=
  lays_bump.bind fun _ hs => lays_typeList hg hs k

theorem lays_qualifiedName (allowStar : Bool) : (qualifiedName allowStar).Lays ts := by
  refine lays_identifier.bind fun t ht => lays_repeating (fun t ht => ?_) ht
  have hname {before : Space} (hs : FromGaps ts before) {name : Tree} (hn : FromGaps ts name) :
      Parser.Lays ts (node t.leading (.fieldAccess (t.withLeading .empty) ⟨before, name⟩ none) >>=
        fun u => pure (some u)) := by
    refine .bind (lays_node (fromGaps_leading ht) ?_) fun u hu => .pure (fromGaps_some.2 hu)
    simpa [Shape.slots] using ⟨fromGaps_lifted ht, hs, hn⟩
  refine .look fun _ => .ite ?_ (.pure fromGaps_none)
  refine lays_bump.bind fun before hs => .look fun _ => .ite ?_ ?_
  · exact lays_anyName.bind fun _ => hname hs
  · exact lays_identifier.bind fun _ => hname hs

include hg in
theorem lays_arguments : (arguments g).Lays ts := lays_delimited hg.expression

include hg in
theorem lays_annotationUse : (annotationUse g).Lays ts := by
  refine lays_expect.bind fun leading hl => (lays_qualifiedName false).bind fun name hn =>
    (lays_ifAt (lays_arguments hg)).bind fun o ho => lays_node hl ?_
  simpa [Shape.slots] using ⟨hn, ho⟩

include hg in
theorem lays_annotations : (annotations g).Lays ts := lays_whileAt (lays_annotationUse hg)

theorem lays_modifier (word : Modifier) : (modifier word).Lays ts :=
  lays_bump.bind fun _ hs => lays_node hs fromGaps_nil

include hg in
theorem lays_typeParameter : (typeParameter g).Lays ts := by
  refine lays_takeSpace.bind fun leading hl => (lays_annotations hg).bind fun as has =>
    lays_identifier.bind fun name hn => (lays_ifAt (lays_keywordList hg _)).bind fun o ho =>
      lays_node hl ?_
  simpa [Shape.slots] using ⟨has, hn, ho⟩

include hg in
theorem lays_typeParameters : (typeParameters g).Lays ts := lays_delimited (lays_typeParameter hg)

/-! ### Blocks, variables and class bodies -/

theorem lays_terminate {t : Tree} (ht : FromGaps ts t) : (terminate t).Lays ts :=
  .ite (lays_expect.bind fun _ hs => .pure ⟨ht, hs⟩) (.pure (fromGaps_bare.2 ht))

theorem lays_itemsUntilBrace {item : Parser Tree} (h : item.Lays ts) :
    (itemsUntilBrace item).Lays ts := by
  refine lays_collecting (.look fun _ => .look fun _ => .ite (.pure fromGaps_none) ?_)
  exact h.bind fun t ht => (lays_terminate ht).bind fun x hx => .pure (fromGaps_some.2 hx)

include hg in
theorem lays_blockBody {leading : Space} (hl : FromGaps ts leading) {afterStatic : Option Space}
    (ha : FromGaps ts afterStatic) : (blockBody g leading afterStatic).Lays ts :=
  lays_expect.bind fun _ _ => (lays_itemsUntilBrace hg.statement).bind fun _ hxs =>
    lays_expect.bind fun _ hs => lays_node hl (by simpa [Shape.slots] using ⟨ha, hxs, hs⟩)

include hg in
theorem lays_block : (block g).Lays ts :=
  lays_takeSpace.bind fun _ hs => lays_blockBody hg hs fromGaps_none

include hg in
theorem lays_classBody : (classBody g).Lays ts :=
  lays_expect.bind fun _ hl => (lays_itemsUntilBrace hg.member).bind fun _ hxs =>
    lays_expect.bind fun _ hs => lays_node hl (by simpa [Shape.slots] using ⟨hxs, hs⟩)

include hg in
theorem lays_arrayValues : (arrayValues g).Lays ts :=
  lays_delimited (.look fun _ => .ite hg.arrayInitializer hg.expression)

include hg in
theorem lays_arrayInitializer : (arrayInitializer g).Lays ts :=
  lays_takeSpace.bind fun _ hl => (lays_arrayValues hg).bind fun _ hs =>
    lays_node hl (by simpa [Shape.slots] using hs)

include hg in
theorem lays_namedVariable (initialized : Bool) : (namedVariable g initialized).Lays ts := by
  have hnode {leading : Space} (hl : FromGaps ts leading) {name : Tree} (hn : FromGaps ts name)
      {o : Option (Preceded Tree)} (ho : FromGaps ts o) :
      (node leading (.namedVariable name o none)).Lays ts :=
    lays_node hl (by simpa [Shape.slots] using ⟨hn, ho⟩)
  refine .look fun _ => .ite ?_ lays_fail
  refine lays_takeSpace.bind fun leading hl => lays_identifier.bind fun name hn => .look fun _ => ?_
  refine .ite (lays_bump.bind fun before hs => .look fun _ => .ite ?_ ?_)
    (hnode hl hn fromGaps_none)
  · exact (lays_arrayInitializer hg).bind fun t ht => hnode hl hn (fromGaps_some.2 ⟨hs, ht⟩)
  · exact hg.expression.bind fun t ht => hnode hl hn (fromGaps_some.2 ⟨hs, ht⟩)

include hg in
theorem lays_parameter : (parameter g).Lays ts := by
  refine lays_takeSpace.bind fun leading hl => (lays_annotations hg).bind fun as has =>
    (lays_whileAt (lays_modifier _)).bind fun ms hms => (lays_type hg).bind fun t ht =>
    (lays_ifAt lays_bump).bind fun o ho => (lays_namedVariable hg _).bind fun v hv =>
      lays_node hl ?_
  simpa [Shape.slots] using ⟨has, hms, ht, ho, hv⟩

/-! ### Expressions -/

include hg in
theorem lays_arrayDimension : (arrayDimension g).Lays ts := by
  have hnode {leading : Space} (hl : FromGaps ts leading) {x : Followed Tree}
      (hx : FromGaps ts x) :
      Parser.Lays ts (expect .closeBracket >>= fun _ => node leading (.arrayDimension x)) :=
    lays_expect.bind fun _ _ => lays_node hl (by simpa [Shape.slots] using hx)
  refine lays_expect.bind fun leading hl => .look fun _ => .ite ?_ ?_
  · exact lays_placeholder.bind fun x hx => hnode hl hx
  · exact (lays_followed hg.expression).bind fun x hx => hnode hl hx

include hg in
theorem lays_creation : (creation g).Lays ts := by
  refine lays_expect.bind fun leading hl => (lays_typeWithoutDimensions hg).bind fun name hn =>
    .look fun _ => .ite ?_ ?_
  · refine (lays_whileAt (lays_arrayDimension hg)).bind fun ds hds =>
      (lays_ifAt (lays_arrayValues hg)).bind fun o ho => lays_node hl ?_
    simpa [Shape.slots] using ⟨hn, hds, ho⟩
  · refine (lays_arguments hg).bind fun s hs => (lays_ifAt (lays_classBody hg)).bind fun o ho =>
      lays_node hl ?_
    simpa [Shape.slots] using ⟨hn, hs, ho⟩

include hg in
theorem lays_nameOrCall : (nameOrCall g).Lays ts := by
  refine lays_anyName.bind fun name hn => .look fun _ => .ite ?_ (.pure hn)
  refine (lays_arguments hg).bind fun s hs => lays_node (fromGaps_leading hn) ?_
  simpa [Shape.slots, Tree.lift] using ⟨fromGaps_lifted hn, hs⟩

include hg in
theorem lays_primary : (primary g).Lays ts := by
  refine .look fun kind => .look fun _ => ?_
  split
  · exact lays_takeSpace.bind fun _ hs => .look fun _ => lays_bump.bind fun _ _ =>
      lays_node hs fromGaps_nil
  · split
    · exact lays_nameOrCall hg
    · exact lays_nameOrCall hg
    · exact lays_nameOrCall hg
    · refine lays_bump.bind fun leading hl => (lays_followed hg.expression).bind fun x hx =>
        lays_expect.bind fun _ _ => lays_node hl ?_
      simpa [Shape.slots] using hx
    · exact lays_creation hg
    · exact lays_arrayInitializer hg
    · exact .ite (lays_type hg) lays_fail

include hg in
theorem lays_selection {target : Tree} (ht : FromGaps ts target) :
    (selection g target).Lays ts := by
  have hl := fromGaps_leading ht
  have ht := fromGaps_lifted ht
  refine lays_expect.bind fun before hs => (lays_ifAt (lays_typeArguments hg)).bind fun o ho =>
    .look fun _ => ?_
  dsimp only [Tree.lift]
  have hrest (name : Tree) (hn : FromGaps ts name) : Parser.Lays ts (at? .openParen >>= fun b =>
      if o.isSome || b then arguments g >>= fun arguments => node target.leading (.methodInvocation
        ⟨some ⟨target.withLeading .empty, before⟩, o, name, arguments, none⟩)
      else node target.leading (.fieldAccess (target.withLeading .empty) ⟨before, name⟩ none)) := by
    refine .look fun _ => .ite ?_ ?_
    · refine (lays_arguments hg).bind fun as has => lays_node hl ?_
      simpa [Shape.slots] using ⟨⟨ht, hs⟩, ho, hn, has⟩
    · exact lays_node hl (by simpa [Shape.slots] using ⟨ht, hs, hn⟩)
  split
  · exact lays_anyName.bind hrest
  · exact lays_anyName.bind hrest
  · exact lays_anyName.bind hrest
  · exact lays_anyName.bind hrest
  · exact .bind lays_fail hrest

include hg in
theorem lays_lambdaParameter : (lambdaParameter g).Lays ts :=
  .look fun _ => .look fun _ => .ite (lays_parameter hg) lays_identifier

include hg in
theorem lays_lambda : (lambda g).Lays ts := by
  refine lays_takeSpace.bind fun leading hl => .look fun _ => ?_
  extract_lets rest
  have hrest (x : Space × Bool × List (Followed Tree)) (hx : FromGaps ts x) :
      (rest x).Lays ts := by
    have hbody (beforeArrow : Space) (hs : FromGaps ts beforeArrow) (t : Tree)
        (ht : FromGaps ts t) :
        (node leading (.lambda ⟨x.1, x.2.1, x.2.2, beforeArrow, t⟩)).Lays ts :=
      lays_node hl (by simpa [Shape.slots] using ⟨hx.1, hx.2.2, hs, ht⟩)
    exact lays_expect.bind fun _ hs => .look fun _ =>
      .ite ((lays_block hg).bind (hbody _ hs)) (hg.expression.bind (hbody _ hs))
  refine .ite ?_ ?_
  · refine lays_identifier.bind fun t ht => .bind (.pure ?_) hrest
    simpa using ht
  · refine (lays_delimited (lays_lambdaParameter hg)).bind fun s hs => .bind (.pure ?_) hrest
    exact ⟨hs.1, fromGaps_bool, hs.2⟩

/-! ### Operations -/

theorem lays_postfixOperation (operator : UnaryOperator) {t : Tree} (ht : FromGaps ts t) :
    (postfixOperation operator t).Lays ts := by
  refine lays_bump.bind fun before hs => lays_node (fromGaps_leading ht) ?_
  have ht := fromGaps_lifted ht
  by_cases h : operator.isPostfix
  · simpa [Shape.slots, Tree.lift, h] using ⟨ht, hs⟩
  · simpa [Shape.slots, Tree.lift, h] using ⟨hs, ht⟩

include hg in
theorem lays_postfixExpression : (postfixExpression g).Lays ts := by
  refine (lays_primary hg).bind fun t ht => lays_repeating (fun t ht => ?_) ht
  have hsome {p : Parser Tree} (h : p.Lays ts) : Parser.Lays ts (p >>= fun t => pure (some t)) :=
    h.bind fun _ ht => .pure (fromGaps_some.2 ht)
  refine .look fun _ => ?_
  split
  · exact hsome (lays_selection hg ht)
  · refine (lays_arrayDimension hg).bind fun d hd => hsome (lays_node (fromGaps_leading ht) ?_)
    simpa [Shape.slots] using ⟨fromGaps_lifted ht, hd⟩
  · exact hsome (lays_postfixOperation _ ht)
  · exact hsome (lays_postfixOperation _ ht)
  · exact .pure fromGaps_none

include hg in
theorem lays_cast : (cast g).Lays ts := by
  refine lays_expect.bind fun leading hl => (lays_followed (lays_type hg)).bind fun x hx =>
    lays_expect.bind fun _ _ => hg.unary.bind fun t ht =>
    .bind (lays_node fromGaps_empty ?_) fun c hc => lays_node hl ?_
  · simpa [Shape.slots] using hx
  · simpa [Shape.slots] using ⟨hc, ht⟩

include hg in
theorem lays_unaryExpression : (unaryExpression g).Lays ts := by
  refine .look fun _ => ?_
  split
  · refine lays_bump.bind fun leading hl => hg.unary.bind fun t ht => lays_node hl ?_
    rw [Shape.slots]
    split <;> simpa using ht
  · exact .look fun _ => .ite (lays_cast hg) (lays_postfixExpression hg)

include hg in
theorem lays_binaryExpression (least : Nat) : (binaryExpression g least).Lays ts := by
  refine (lays_unaryExpression hg).bind fun t ht => lays_repeating (fun t ht => ?_) ht
  refine .look fun _ => ?_
  split
  · exact .pure fromGaps_none
  · refine .ite (.pure fromGaps_none) (lays_takeSpace.bind fun before hs =>
      (lays_skip _).bind fun _ _ => (hg.binary _).bind fun u hu =>
      .bind (lays_node (fromGaps_leading ht) ?_) fun v hv => .pure (fromGaps_some.2 hv))
    simpa [Shape.slots] using ⟨fromGaps_lifted ht, hs, hu⟩

include hg in
theorem lays_ternaryExpression : (ternaryExpression g).Lays ts := by
  refine (lays_binaryExpression hg 1).bind fun c hc => .look fun _ => .ite ?_ (.pure hc)
  refine lays_bump.bind fun beforeQuestion hq => hg.expression.bind fun t ht =>
    lays_expect.bind fun beforeColon hs => ?_
  have hnode (u : Tree) (hu : FromGaps ts u) : (node c.leading (.ternary (c.withLeading .empty)
      ⟨beforeQuestion, t⟩ ⟨beforeColon, u⟩)).Lays ts :=
    lays_node (fromGaps_leading hc)
      (by simpa [Shape.slots] using ⟨fromGaps_lifted hc, ⟨hq, ht⟩, hs, hu⟩)
  exact .look fun _ => .ite ((lays_lambda hg).bind hnode) (hg.ternary.bind hnode)

include hg in
theorem lays_expression : (expression g).Lays ts := by
  refine .look fun _ => .ite (lays_lambda hg) ?_
  refine (lays_ternaryExpression hg).bind fun t ht => .look fun _ => ?_
  split
  · exact .pure ht
  · refine lays_takeSpace.bind fun before hs => (lays_skip _).bind fun _ _ =>
      hg.expression.bind fun u hu => ?_
    have ht' := fromGaps_lifted ht
    dsimp only
    split <;> exact lays_node (fromGaps_leading ht) (by simpa [Shape.slots] using ⟨ht', hs, hu⟩)

/-! ### Declarations -/

include hg in
theorem lays_enumValues : (enumValues g).Lays ts := by
  refine lays_takeSpace.bind fun leading hl => .bind (lays_repeating (fun a ha => ?_)
    (fromGaps_pair.2 ⟨fromGaps_nil, fromGaps_bool⟩)) fun a ha => ?_
  · refine .look fun _ => .ite ?_ (.pure fromGaps_none)
    refine lays_takeSpace.bind fun before hs => lays_identifier.bind fun name hn =>
      (lays_ifAt (lays_arguments hg)).bind fun o ho =>
        .bind (lays_node hs (by simpa [Shape.slots] using ⟨hn, ho⟩)) fun v hv => .look fun _ => ?_
    have hsome {after : Space} (hs : FromGaps ts after) {b : Bool} :
        FromGaps ts (some ((⟨v, after⟩ : Followed Tree) :: a.1, b)) := by
      simpa using ⟨⟨hv, hs⟩, ha.1⟩
    split
    · exact lays_bump.bind fun _ hs => .pure (hsome hs)
    · exact lays_takeSpace.bind fun _ hs => .pure (hsome hs)
    · exact .pure (hsome fromGaps_empty)
  · have hnode (xs : List (Followed Tree)) (hxs : FromGaps ts xs) : Parser.Lays ts
        (ifAt .semicolon bump >>= fun semicolon =>
          node leading (.enumValueSet xs.reverse semicolon.isSome)) :=
      (lays_ifAt lays_bump).bind fun _ _ => lays_node hl (by simpa [Shape.slots] using hxs)
    have hempty (after : Space) (hs : FromGaps ts after) : Parser.Lays ts
        (node .empty .empty >>= fun t => pure ((⟨t, after⟩ : Followed Tree) :: a.1) >>= fun xs =>
          ifAt .semicolon bump >>= fun semicolon =>
            node leading (.enumValueSet xs.reverse semicolon.isSome)) :=
      (lays_node fromGaps_empty fromGaps_nil).bind fun t ht =>
        .bind (.pure (fromGaps_cons.2 ⟨fromGaps_followed.2 ⟨ht, hs⟩, ha.1⟩)) hnode
    refine .ite (.look fun _ => .ite ?_ ?_) (.bind (.pure ha.1) hnode)
    · exact lays_takeSpace.bind hempty
    · exact .bind (.pure fromGaps_empty) hempty

include hg in
theorem lays_enumBody : (enumBody g).Lays ts := by
  refine lays_expect.bind fun leading hl => ?_
  have hrest (values : List (Followed Tree)) (hvalues : FromGaps ts values) : Parser.Lays ts
      (itemsUntilBrace g.member >>= fun members => expect .closeBrace >>= fun beforeClose =>
        node leading (.block none (values ++ members) beforeClose)) := by
    refine (lays_itemsUntilBrace hg.member).bind fun xs hxs => lays_expect.bind fun _ hs =>
      lays_node hl ?_
    simpa [Shape.slots] using ⟨hvalues, hxs, hs⟩
  refine .look fun _ => .look fun _ => .ite ?_ (.bind (.pure fromGaps_nil) hrest)
  refine (lays_enumValues hg).bind fun t ht => .bind (.pure ?_) hrest
  simpa using ht

include hg in
theorem lays_classHeader (kind : ClassKind) : (classHeader g kind).Lays ts := by
  refine lays_bump.bind fun beforeKind hk => lays_identifier.bind fun name hn =>
    (lays_ifAt (lays_typeParameters hg)).bind fun ps hps => .look fun _ => .ite ?_ ?_
  · refine lays_bump.bind fun before hs => .ite ?_ ?_
    · exact (lays_typeList hg hs _).bind fun s hs =>
        .pure ⟨hk, hn, hps, fromGaps_none, fromGaps_some.2 hs⟩
    · exact (lays_type hg).bind fun t ht =>
        .pure ⟨hk, hn, hps, fromGaps_some.2 ⟨hs, ht⟩, fromGaps_none⟩
  · exact .pure ⟨hk, hn, hps, fromGaps_none, fromGaps_none⟩

include hg in
theorem lays_classDeclaration (kind : ClassKind) {leading : Space} (hl : FromGaps ts leading)
    {annotations modifiers : List Tree} (has : FromGaps ts annotations)
    (hms : FromGaps ts modifiers) :
    (classDeclaration g kind leading annotations modifiers).Lays ts := by
  rw [classDeclaration_eq]
  refine (lays_classHeader hg kind).bind fun h hh => ?_
  obtain ⟨hk, hn, hps, hsuper, hextended⟩ := hh
  have hbody (interfaces : Option (Series Tree)) (hi : FromGaps ts interfaces) (body : Tree)
      (hb : FromGaps ts body) : (node leading (.classDeclaration ⟨annotations, modifiers,
        h.beforeKind, kind, h.name, h.typeParameters, h.superclass, interfaces, body,
        none⟩)).Lays ts :=
    lays_node hl (by simpa [Shape.slots] using ⟨has, hms, hk, hn, hps, hsuper, hi, hb⟩)
  have hrest (interfaces : Option (Series Tree)) (hi : FromGaps ts interfaces) : Parser.Lays ts
      (if kind = .enumeration then enumBody g >>= fun body => node leading (.classDeclaration
        ⟨annotations, modifiers, h.beforeKind, kind, h.name, h.typeParameters, h.superclass,
          interfaces, body, none⟩)
      else classBody g >>= fun body => node leading (.classDeclaration
        ⟨annotations, modifiers, h.beforeKind, kind, h.name, h.typeParameters, h.superclass,
          interfaces, body, none⟩)) :=
    .ite ((lays_enumBody hg).bind (hbody _ hi)) ((lays_classBody hg).bind (hbody _ hi))
  refine .look fun _ => .ite ?_ (.bind (.pure hextended) hrest)
  exact lays_bump.bind fun before hs => (lays_typeList hg hs _).bind fun s hs =>
    .bind (.pure (fromGaps_some.2 hs)) hrest

include hg in
theorem lays_method {head : MemberHead} (hh : FromGaps ts head) {returnType : Option Tree}
    (hr : FromGaps ts returnType) : (method g head returnType).Lays ts := by
  obtain ⟨hl, has, hms, hps⟩ := hh
  refine lays_identifier.bind fun name hn => (lays_delimited (lays_parameter hg)).bind fun s hs =>
    (lays_ifAt (lays_keywordList hg _)).bind fun thrown ht =>
    (lays_ifAt (lays_block hg)).bind fun body hb => lays_node hl ?_
  simpa [Shape.slots] using ⟨has, hms, hps, hr, hn, hs, ht, hb⟩

include hg in
theorem lays_declarators {head : MemberHead} (hh : FromGaps ts head) {type : Tree}
    (ht : FromGaps ts type) : (declarators g head type).Lays ts := by
  obtain ⟨hl, has, hms, -⟩ := hh
  refine (lays_separatedBy (lays_namedVariable hg _)).bind fun xs hxs => lays_node hl ?_
  simpa [Shape.slots] using ⟨has, hms, ht, hxs⟩

include hg in
theorem lays_methodOrVariables {head : MemberHead} (hh : FromGaps ts head) :
    (methodOrVariables g head).Lays ts := by
  refine .look fun _ => .ite (lays_method hg hh fromGaps_none) ?_
  refine (lays_type hg).bind fun t ht => .look fun _ => .ite ?_ (.ite lays_fail ?_)
  · exact lays_method hg hh (fromGaps_some.2 ht)
  · exact lays_declarators hg hh ht

theorem lays_modifier? : modifier?.Lays ts := by
  refine .look fun _ => ?_
  split
  · exact (lays_modifier _).bind fun t ht => .pure (fromGaps_some.2 ht)
  · exact .pure fromGaps_none

include hg in
theorem lays_declaration : (declaration g).Lays ts := by
  refine lays_takeSpace.bind fun leading hl => (lays_annotations hg).bind fun as has =>
    (lays_collecting lays_modifier?).bind fun ms hms => .look fun _ => ?_
  split
  · exact lays_classDeclaration hg _ hl has hms
  · exact (lays_ifAt (lays_typeParameters hg)).bind fun ps hps =>
      lays_methodOrVariables hg ⟨hl, has, hms, hps⟩

include hg in
theorem lays_member : (member g).Lays ts := by
  have hdeclaration := lays_declaration hg
  refine .look fun _ => ?_
  split
  · exact lays_takeSpace.bind fun _ hs => lays_node hs fromGaps_nil
  · exact lays_block hg
  · exact .look fun _ => .ite (lays_bump.bind fun _ hl => lays_takeSpace.bind fun _ hs =>
      lays_blockBody hg hl (fromGaps_some.2 hs)) hdeclaration
  · exact hdeclaration

theorem lays_packageDeclaration : packageDeclaration.Lays ts :=
  lays_bump.bind fun _ hl => (lays_qualifiedName false).bind fun _ hn =>
    lays_expect.bind fun _ hs => (lays_node hl (by simpa [Shape.slots] using hn)).bind
      fun _ ht => .pure ⟨ht, hs⟩

theorem lays_importDeclaration : importDeclaration.Lays ts := by
  refine lays_bump.bind fun leading hl => (lays_ifAt lays_bump).bind fun beforeStatic hb =>
    (lays_qualifiedName true).bind fun name hn => lays_expect.bind fun after hs =>
      .bind (lays_node hl ?_) fun t ht => .pure ⟨ht, hs⟩
  simpa [Shape.slots] using ⟨fromGaps_getD hb, hn⟩

include hg in
theorem lays_topLevelDeclaration : (topLevelDeclaration g).Lays ts := by
  refine .look fun _ => (lays_member hg).bind fun t ht => ?_
  split
  · exact .pure ht
  · exact lays_failAt

include hg in
theorem lays_compilationUnit : (compilationUnit g).Lays ts := by
  refine lays_takeSpace.bind fun leading hl => (lays_ifAt lays_packageDeclaration).bind fun o ho =>
    (lays_whileAt lays_importDeclaration).bind fun is his =>
    .bind (lays_collecting (.look fun _ => .ite (.pure fromGaps_none)
      ((lays_topLevelDeclaration hg).bind fun t ht => .pure (fromGaps_some.2 ht)))) fun ds hds =>
    lays_takeSpace.bind fun _ hs => lays_node hl ?_
  simpa [Shape.slots] using ⟨ho, his, hds, hs⟩

/-! ### Statements -/

include hg in
theorem lays_terminated : (terminated g).Lays ts :=
  hg.statement.bind fun _ ht => lays_terminate ht

include hg in
theorem lays_controlParentheses : (controlParentheses g).Lays ts :=
  lays_expect.bind fun _ hl => (lays_followed hg.expression).bind fun _ hx =>
    lays_expect.bind fun _ _ => lays_node hl (by simpa [Shape.slots] using hx)

theorem lays_jumpLabel : jumpLabel.Lays ts := lays_ifAt lays_identifier

include hg in
theorem lays_labeled : (labeled g).Lays ts :=
  lays_identifier.bind fun _ hn => lays_expect.bind fun _ hs => hg.statement.bind fun _ ht =>
    lays_node (fromGaps_leading hn)
      (by simpa [Shape.slots] using ⟨⟨fromGaps_lifted hn, hs⟩, ht⟩)

include hg in
theorem lays_ifStatement : (ifStatement g).Lays ts := by
  refine lays_expect.bind fun leading hl => (lays_controlParentheses hg).bind fun c hc =>
    (lays_terminated hg).bind fun x hx => .bind (lays_ifAt ?_) fun o ho => lays_node hl ?_
  · exact lays_bump.bind fun _ hs => (lays_terminated hg).bind fun _ hx =>
      lays_node hs (by simpa [Shape.slots] using hx)
  · simpa [Shape.slots] using ⟨hc, hx, ho⟩

include hg in
theorem lays_whileLoop : (whileLoop g).Lays ts :=
  lays_expect.bind fun _ hl => (lays_controlParentheses hg).bind fun _ hc =>
    (lays_terminated hg).bind fun _ hx => lays_node hl (by simpa [Shape.slots] using ⟨hc, hx⟩)

include hg in
theorem lays_doWhileLoop : (doWhileLoop g).Lays ts :=
  lays_expect.bind fun _ hl => (lays_terminated hg).bind fun _ hx => lays_expect.bind fun _ hs =>
    (lays_controlParentheses hg).bind fun _ hc =>
      lays_node hl (by simpa [Shape.slots] using ⟨hx, hs, hc⟩)

include hg in
theorem lays_expressionList : (expressionList g).Lays ts := by
  have hfollowed := lays_followed hg.expression
  exact hfollowed.bind fun x hx => (lays_whileAt (lays_bump.bind fun _ _ => hfollowed)).bind
    fun xs hxs => .pure (fromGaps_cons.2 ⟨hx, hxs⟩)

include hg in
theorem lays_forEachControl : (forEachControl g).Lays ts := by
  refine lays_expect.bind fun leading hl => (lays_followed (lays_member hg)).bind fun x hx =>
    lays_expect.bind fun _ _ => (lays_followed hg.expression).bind fun y hy =>
    lays_expect.bind fun _ _ => lays_node hl ?_
  simpa [Shape.slots] using ⟨hx, hy⟩

include hg in
theorem lays_forControl : (forControl g).Lays ts := by
  have hexpressions := lays_expressionList hg
  have hone (x : Followed Tree) (hx : FromGaps ts x) : FromGaps ts [x] :=
    fromGaps_cons.2 ⟨hx, fromGaps_nil⟩
  refine lays_expect.bind fun leading hl => ?_
  have hupdate (init : List (Followed Tree)) (hinit : FromGaps ts init) (condition : Followed Tree)
      (hc : FromGaps ts condition) : Parser.Lays ts (do
        let _ ← expect .semicolon
        let update ← if ← at? .closeParen then pure [← placeholder] else expressionList g
        let _ ← expect .closeParen
        node leading (.forControl init condition update)) := by
    have hnode (update : List (Followed Tree)) (hu : FromGaps ts update) : Parser.Lays ts (do
        let _ ← expect .closeParen
        node leading (.forControl init condition update)) :=
      lays_expect.bind fun _ _ => lays_node hl (by simpa [Shape.slots] using ⟨hinit, hc, hu⟩)
    refine lays_expect.bind fun _ _ => .look fun _ => .ite ?_ (hexpressions.bind hnode)
    exact lays_placeholder.bind fun x hx => .bind (.pure (hone x hx)) hnode
  have hcondition (init : List (Followed Tree)) (hinit : FromGaps ts init) : Parser.Lays ts (do
        let _ ← expect .semicolon
        let condition ← if ← at? .semicolon then placeholder else followed g.expression
        let _ ← expect .semicolon
        let update ← if ← at? .closeParen then pure [← placeholder] else expressionList g
        let _ ← expect .closeParen
        node leading (.forControl init condition update)) :=
    lays_expect.bind fun _ _ => .look fun _ => .ite (lays_placeholder.bind (hupdate init hinit))
      ((lays_followed hg.expression).bind (hupdate init hinit))
  refine .look fun _ => .look fun _ => .look fun _ => .ite ?_ (.ite ?_ ?_)
  · exact lays_placeholder.bind fun x hx => .bind (.pure (hone x hx)) hcondition
  · exact (lays_followed (lays_member hg)).bind fun x hx => .bind (.pure (hone x hx)) hcondition
  · exact hexpressions.bind hcondition

include hg in
theorem lays_forLoop : (forLoop g).Lays ts := by
  refine lays_expect.bind fun leading hl => .look fun _ => .ite ?_ ?_
  · exact (lays_forEachControl hg).bind fun c hc => (lays_terminated hg).bind fun x hx =>
      lays_node hl (by simpa [Shape.slots] using ⟨hc, hx⟩)
  · exact (lays_forControl hg).bind fun c hc => (lays_terminated hg).bind fun x hx =>
      lays_node hl (by simpa [Shape.slots] using ⟨hc, hx⟩)

include hg in
theorem lays_caughtType : (caughtType g).Lays ts := by
  have htype := lays_type hg
  refine htype.bind fun t ht => .look fun _ => .ite ?_ (.pure ht)
  refine .bind (lays_whileAt (lays_bump.bind fun after hs => htype.bind fun u hu =>
    .pure (fromGaps_pair.2 ⟨hs, hu⟩))) fun others hothers => lays_node (fromGaps_leading ht) ?_
  have htypes : FromGaps ts (t.withLeading .empty :: others.map Prod.snd) :=
    fromGaps_cons.2 ⟨fromGaps_lifted ht, List.forall_mem_map.2 fun c hc => (hothers c hc).2⟩
  have hspaces : FromGaps ts (others.map Prod.fst ++ [Space.empty]) :=
    fromGaps_append.2 ⟨List.forall_mem_map.2 fun c hc => (hothers c hc).1,
      fromGaps_cons.2 ⟨fromGaps_empty, fromGaps_nil⟩⟩
  rw [Shape.slots, fromGaps_map_followed]
  exact fromGaps_zipWith htypes hspaces

include hg in
theorem lays_catchClause : (catchClause g).Lays ts := by
  refine lays_expect.bind fun leading hl => lays_expect.bind fun beforeOpen ho =>
    lays_takeSpace.bind fun beforeParameter hp => (lays_whileAt (lays_modifier _)).bind fun ms hms =>
    (lays_caughtType hg).bind fun t ht => (lays_namedVariable hg _).bind fun v hv =>
    .bind (lays_node hp ?_) fun p hp => lays_takeSpace.bind fun after hs =>
    lays_expect.bind fun _ _ => (lays_block hg).bind fun b hb => .bind (lays_node ho ?_) fun c hc =>
    lays_node hl ?_
  · simpa [Shape.slots] using ⟨hms, ht, hv⟩
  · simpa [Shape.slots] using ⟨hp, hs⟩
  · simpa [Shape.slots] using ⟨hc, hb⟩

include hg in
theorem lays_tryStatement : (tryStatement g).Lays ts := by
  have hblock := lays_block hg
  refine lays_expect.bind fun leading hl => hblock.bind fun b hb =>
    (lays_whileAt (lays_catchClause hg)).bind fun cs hcs =>
    .bind (lays_ifAt (lays_bump.bind fun before hs => hblock.bind fun t ht =>
      .pure (fromGaps_preceded.2 ⟨hs, ht⟩))) fun o ho => .ite lays_fail (lays_node hl ?_)
  simpa [Shape.slots] using ⟨hb, hcs, ho⟩

include hg in
theorem lays_caseClause : (caseClause g).Lays ts := by
  refine lays_takeSpace.bind fun leading hl => .look fun _ => .ite
    (lays_bump.bind fun _ _ => .bind (.pure fromGaps_none) fun value hv => ?_)
    (lays_expect.bind fun _ _ => hg.expression.bind fun t ht =>
      .bind (.pure (fromGaps_some.2 ht)) fun value hv => ?_)
  -- the rest is the same after a value and after the default
  all_goals
    refine lays_expect.bind fun before hs => .bind (lays_collecting (.look fun _ => ?_))
      fun xs hxs => lays_node hl (by simpa [Shape.slots] using ⟨hv, hs, hxs⟩)
    split
    · exact .pure fromGaps_none
    · exact .pure fromGaps_none
    · exact .pure fromGaps_none
    · exact .pure fromGaps_none
    · exact (lays_terminated hg).bind fun x hx => .pure (fromGaps_some.2 hx)

include hg in
theorem lays_switchStatement : (switchStatement g).Lays ts := by
  refine lays_expect.bind fun leading hl => (lays_controlParentheses hg).bind fun c hc =>
    lays_expect.bind fun beforeOpen ho => .bind (lays_collecting (.look fun _ => .look fun _ => .ite
      ((lays_caseClause hg).bind fun t ht => .pure ?_) (.pure fromGaps_none))) fun xs hxs =>
    lays_expect.bind fun beforeClose hs => .bind (lays_node ho ?_) fun b hb => lays_node hl ?_
  · simpa using ht
  · simpa [Shape.slots] using ⟨hxs, hs⟩
  · simpa [Shape.slots] using ⟨hc, hb⟩

include hg in
theorem lays_expressionStatement : (expressionStatement g).Lays ts :=
  .look fun _ => hg.expression.bind fun _ ht => .ite (.pure ht) lays_failAt

include hg in
theorem lays_statement : (statement g).Lays ts := by
  have hmember := lays_member hg
  refine .look fun kind => ?_
  split
  · exact lays_block hg
  · exact lays_ifStatement hg
  · exact lays_whileLoop hg
  · exact lays_doWhileLoop hg
  · exact lays_forLoop hg
  · exact lays_tryStatement hg
  · exact lays_switchStatement hg
  · refine lays_bump.bind fun leading hl => .look fun _ => ?_
    have hnode (o : Option Tree) (ho : FromGaps ts o) :
        (node leading (.returnStatement o)).Lays ts :=
      lays_node hl (by simpa [Shape.slots] using ho)
    exact .ite (.bind (.pure fromGaps_none) hnode)
      (hg.expression.bind fun t ht => .bind (.pure (fromGaps_some.2 ht)) hnode)
  · exact lays_bump.bind fun _ hl => hg.expression.bind fun t ht =>
      lays_node hl (by simpa [Shape.slots] using ht)
  · exact lays_bump.bind fun _ hl => lays_jumpLabel.bind fun o ho =>
      lays_node hl (by simpa [Shape.slots] using ho)
  · exact lays_bump.bind fun _ hl => lays_jumpLabel.bind fun o ho =>
      lays_node hl (by simpa [Shape.slots] using ho)
  · exact lays_takeSpace.bind fun _ hs => lays_node hs fromGaps_nil
  all_goals try exact hmember
  exact .look fun _ => .ite (lays_labeled hg)
    (.look fun _ => .ite hmember (lays_expressionStatement hg))

end Grammar

/-! ### Parsed trees -/

variable {ts : List Token}

theorem lay_grammar (n : Nat) : (grammar n).Lay ts := by
  induction n with
  | zero =>
    have hthrow : Parser.Lays ts (throw .outOfBudget : Parser Tree) := Parser.lays_throw
    exact ⟨hthrow, hthrow, hthrow, fun _ => hthrow, hthrow, hthrow, hthrow, hthrow⟩
  | succ n ih =>
    exact ⟨Grammar.lays_type ih, Grammar.lays_expression ih, Grammar.lays_ternaryExpression ih,
      Grammar.lays_binaryExpression ih, Grammar.lays_unaryExpression ih,
      Grammar.lays_arrayInitializer ih, Grammar.lays_statement ih, Grammar.lays_member ih⟩

theorem lays_endOfInput : endOfInput.Lays ts :=
  .look fun _ => .ite Parser.lays_fail (.pure trivial)

theorem SourceKind.lays_parser {g : Productions} (hg : g.Lay ts) (kind : SourceKind) :
    (kind.parser g).Lays ts := by
  cases kind with
  | unit => exact Grammar.lays_compilationUnit hg
  | expression =>
    exact (Grammar.lays_expression hg).bind fun _ ht => lays_endOfInput.bind fun _ _ => .pure ht
  | statement =>
    exact (Grammar.lays_statement hg).bind fun _ ht => (Grammar.lays_terminate ht).bind fun _ _ =>
      lays_endOfInput.bind fun _ _ => .pure ht

/-- **The spaces of a parsed tree are gaps**: each of them is empty or what is read from the gap
before one of the tokens of the source. -/
theorem fromGaps_of_parseFrom {kind : SourceKind} {source : Text} {firstId nextId : NodeId}
    {t : Tree} (h : parseFrom kind source firstId = .ok (t, nextId)) :
    ∃ ts, lex source = .ok ts ∧
      ∀ p ∈ t.spaces, p.2 = .empty ∨ ∃ k ∈ ts, p.2 = Space.ofText k.gap := by
  obtain ⟨ts, j, hlex, -, hrun⟩ := exists_run_of_parseFrom h
  have hgrammar : (grammar (ts.length + 1)).Lay ts := lay_grammar _
  have hparser := kind.lays_parser hgrammar
  have hinput : Input.Within ts ⟨ts, false, firstId⟩ := List.Subset.refl ts
  exact ⟨ts, hlex, (hparser _ hinput t j hrun).1⟩

/-! ### Line comments -/

theorem splitBlockComment_ne_line (t : Text) : (splitBlockComment t).1 ≠ .line := by
  unfold splitBlockComment
  intro h
  split at h <;> cases h

/-- A line comment is read up to the end of its line. -/
theorem isInLine_of_mem_readComments (t : Text) :
    ∀ c ∈ readComments t, c.style = .line → ∀ d ∈ c.text, isInLine d := by
  fun_induction readComments t with
  | case1 rest after ih =>
    refine List.forall_mem_cons.2 ⟨fun _ d hd => ?_, ih⟩
    exact List.mem_takeWhile_imp hd
  | case2 rest h =>
    refine List.forall_mem_singleton.2 fun hstyle => ?_
    exact absurd hstyle (splitBlockComment_ne_line rest)
  | case3 rest others h after ih =>
    refine List.forall_mem_cons.2 ⟨fun hstyle => ?_, ih⟩
    exact absurd hstyle (splitBlockComment_ne_line rest)
  | case4 => exact fun c hc => absurd hc List.not_mem_nil

/-- The text of a line comment is in one line. -/
def Space.InLine (s : Space) : Prop :=
  ∀ c ∈ s.comments, c.style = .line → ∀ d ∈ c.text, isInLine d

theorem inLine_of_parseFrom {kind : SourceKind} {source : Text} {firstId nextId : NodeId}
    {t : Tree} (h : parseFrom kind source firstId = .ok (t, nextId)) :
    ∀ p ∈ t.spaces, p.2.InLine := by
  obtain ⟨ts, -, hts⟩ := fromGaps_of_parseFrom h
  intro p hp
  rcases hts p hp with hempty | ⟨k, -, hgap⟩
  · rw [hempty]
    exact fun c hc => absurd hc List.not_mem_nil
  · rw [hgap]
    exact isInLine_of_mem_readComments _

end JavaSource
