import JavaSource.Format.BlankLines
import JavaSource.Format.Spacing
import JavaSource.Format.WordGap
import JavaSource.Format.Wrapping
import JavaSource.Proofs.Layer

/-!
# What the local passes change

Each pass that changes nodes one by one changes spaces and nothing else: a layer is related to what
the pass makes of it, as soon as a space is related to what the rule of the pass makes of it.
-/

namespace JavaSource

/-! ### Parts of layers -/

section Parts

variable {α : Type} {P : α → α → Prop}

theorem rel_map_option {f : α → α} (hf : ∀ a, P a (f a)) (o : Option α) :
    Option.Rel P o (o.map f) := by
  cases o with
  | none => exact .none
  | some a => exact .some (hf a)

theorem forall₂_map {f : α → α} (hf : ∀ a, P a (f a)) (as : List α) :
    List.Forall₂ P as (as.map f) := by
  induction as with
  | nil => exact .nil
  | cons a as ih => exact .cons (hf a) ih

theorem forall₂_mapFirst {f : α → α} (hP : ∀ a, P a a) (hf : ∀ a, P a (f a)) (as : List α) :
    List.Forall₂ P as (mapFirst f as) := by
  cases as with
  | nil => exact .nil
  | cons a as => exact .cons (hf a) (List.forall₂_same.2 fun a _ => hP a)

theorem forall₂_mapRest {f : α → α} (hP : ∀ a, P a a) (hf : ∀ a, P a (f a)) (as : List α) :
    List.Forall₂ P as (mapRest f as) := by
  cases as with
  | nil => exact .nil
  | cons a as => exact .cons (hP a) (forall₂_map hf as)

end Parts

variable {R : Tree → Tree → Prop} {S : SpaceSlot → Space → Space → Prop}

namespace Tree.Congruence

variable (C : Congruence R S)

include C

theorem followed_map {l : FollowedSlot} {f : Tree → Tree} (hf : ∀ t, R t (f t))
    (x : Followed Tree) : Followed.Rel R S l x (x.map f) :=
  ⟨hf _, C.space _ _⟩

theorem series_mapBefore {l : SeriesSlot} {f : Space → Space} (hf : ∀ l s, S l s (f s))
    (s : Series Tree) : Series.Rel R S l s (s.mapBefore f) :=
  ⟨hf _ _, C.elements _⟩

theorem series_mapElements {l : SeriesSlot} {f : List (Followed Tree) → List (Followed Tree)}
    (hf : ∀ xs, List.Forall₂ (Followed.Rel R S l.element) xs (f xs)) (s : Series Tree) :
    Series.Rel R S l s (s.mapElements f) :=
  ⟨C.space _ _, hf _⟩

end Tree.Congruence

/-! ### Gaps between words -/

section WordGap

variable (C : Tree.Congruence R S) (hS : ∀ l s, S l s (Space.orSingle s))

include C hS

theorem rel_separated (t : Tree) : R t t.separated := C.mapLeading hS t

theorem rel_separatedIf (preceded : Bool) (t : Tree) : R t (t.separatedIf preceded) := by
  rw [Tree.separatedIf]
  split
  · exact rel_separated C hS t
  · exact C.refl t

theorem rel_separateFirst {l : FollowedSlot} (xs : List (Followed Tree)) :
    List.Forall₂ (Followed.Rel R S l) xs (separateFirst xs) :=
  forall₂_mapFirst C.followed (C.followed_map (rel_separated C hS)) xs

theorem rel_series_separated {l : SeriesSlot} (s : Series Tree) :
    Series.Rel R S l s s.separated :=
  ⟨hS _ _, rel_separateFirst C hS _⟩

theorem rel_separateModifiers (annotations modifiers : List Tree) :
    List.Forall₂ R modifiers (separateModifiers annotations modifiers) := by
  have h := forall₂_map (rel_separated C hS)
  unfold separateModifiers
  split
  · exact .nil
  · exact .cons (C.refl _) (h _)
  · exact h _

/-- Putting blanks between words changes spaces by its rule for empty spaces. -/
theorem Shape.rel_separateWords (x : Shape Tree) : Rel R S x x.separateWords := by
  have hif (b : Bool) (l : SpaceSlot) (s : Space) : S l s (if b then s.orSingle else s) := by
    split
    · exact hS l s
    · exact C.space l s
  have hword := rel_separated C hS
  cases x with
  | packageDeclaration annotations name => exact .packageDeclaration (C.list _) (hword _)
  | importDeclaration beforeStatic isStatic name => exact .importDeclaration (hif _ _ _) (hword _)
  | classDeclaration d =>
    exact .classDeclaration (C.list _) (rel_separateModifiers C hS _ _) (hif _ _ _) rfl (hword _)
      (C.option_series _) (rel_map_option (fun s => ⟨hS _ _, hword _⟩) _)
      (rel_map_option (rel_series_separated C hS) _) (C.refl _) rfl
  | methodDeclaration d =>
    refine .methodDeclaration (C.list _) (rel_separateModifiers C hS _ _)
      (rel_map_option (fun ps => ?_) _) (rel_map_option (rel_separatedIf C hS _) _)
      (rel_separatedIf C hS _ _) (C.series _) (rel_map_option (rel_series_separated C hS) _)
      (C.option _) rfl
    split
    · exact C.series_mapBefore hS ps
    · exact C.series ps
  | variableDeclarations d =>
    refine .variableDeclarations (C.list _) (rel_separateModifiers C hS _ _)
      (rel_map_option (rel_separatedIf C hS _) _) (C.option_space _) ?_
    show List.Forall₂ _ _ (ite _ _ _)
    split
    · exact rel_separateFirst C hS _
    · exact C.elements _
  | typeParameter annotations name bounds =>
    exact .typeParameter (C.list _) (C.refl _) (rel_map_option (rel_series_separated C hS) _)
  | returnStatement value =>
    exact .returnStatement (rel_map_option (fun v => rel_separatedIf C hS _ v) _)
  | throwStatement value => exact .throwStatement (hword _)
  | newClass name arguments body type => exact .newClass (hword _) (C.series _) (C.option _)
  | caseClause value statements => exact .caseClause (rel_map_option hword _) (C.series _)
  | _ => exact C.shape _

end WordGap

/-! ### Blank lines -/

section BlankLines

variable (C : Tree.Congruence R S) (hlimit : ∀ n l s, S l s (Space.limitBlankLines n s))
  (hrequire : ∀ n l s, S l s (Space.requireBlankLines n s))

include C hlimit hrequire

theorem rel_boundBlankLines (limit least : Nat) (t : Tree) : R t (t.boundBlankLines limit least) := by
  cases t with
  | node i s x =>
    exact C.trans (C.mapLeading (hlimit limit) _) (C.mapLeading (hrequire least) (.node i _ x))

theorem rel_boundStatements {l : FollowedSlot} (limit : Nat) (least : Tree → Tree → Nat)
    (previous : Tree) (xs : List (Followed Tree)) :
    List.Forall₂ (Followed.Rel R S l) xs (boundStatements limit least previous xs) := by
  fun_induction boundStatements limit least previous xs with
  | case1 => exact .nil
  | case2 previous x xs ih =>
    exact .cons (C.followed_map (rel_boundBlankLines C hlimit hrequire _ _) x) ih

theorem rel_boundBlock {l : FollowedSlot} (style : BlankLineStyle) (parent : Option NodeKind)
    (xs : List (Followed Tree)) :
    List.Forall₂ (Followed.Rel R S l) xs (style.boundBlock parent xs) := by
  cases xs with
  | nil => exact .nil
  | cons x xs =>
    exact .cons (C.followed_map (rel_boundBlankLines C hlimit hrequire _ _) x)
      (rel_boundStatements C hlimit hrequire _ _ _ _)

/-- Bounding blank lines changes spaces by its two rules. -/
theorem BlankLineStyle.rel_bound (style : BlankLineStyle) (parent : Option NodeKind)
    (x : Shape Tree) : Shape.Rel R S x (style.bound parent x) := by
  cases x with
  | compilationUnit u =>
    have hbound := rel_boundBlankLines C hlimit hrequire
    have hfirst (m n : Nat) (t : Tree) :
        R t ((t.boundBlankLines m 0).mapLeading (Space.requireBlankLines n)) :=
      C.trans (hbound m 0 t) (C.mapLeading (hrequire n) _)
    obtain ⟨package, imports, declarations, beforeEnd⟩ := u
    have hnext (n : Nat) (d : Tree) (ds : List Tree) : List.Forall₂ R (d :: ds)
        (mapFirst (Tree.mapLeading (Space.requireBlankLines n))
          (d.boundBlankLines style.maximumInDeclarations 0 ::
            ds.map (Tree.boundBlankLines style.maximumInDeclarations style.minimumAroundClass))) :=
      .cons (hfirst _ _ d) (forall₂_map (hbound _ _) ds)
    cases imports with
    | nil =>
      cases declarations with
      | nil => exact .compilationUnit (C.option_followed _) .nil .nil (C.space _ _)
      | cons d ds => exact .compilationUnit (C.option_followed _) .nil (hnext _ d ds) (C.space _ _)
    | cons i is =>
      refine .compilationUnit (C.option_followed _)
        (.cons ⟨hfirst _ _ _, C.space _ _⟩ (forall₂_map (C.followed_map (hbound _ _)) is))
        ?_ (C.space _ _)
      cases declarations with
      | nil => exact .nil
      | cons d ds => exact hnext _ d ds
  | block afterStatic statements beforeClose =>
    exact .block (C.option_space _) (rel_boundBlock C hlimit hrequire _ _ _) (hlimit _ _ _)
  | _ => exact C.shape _

end BlankLines

/-! ### Wrapping -/

section Wrapping

variable (C : Tree.Congruence R S) (hS : ∀ l s, S l s (Space.wrapped s))

include C hS

theorem rel_wrapped (t : Tree) : R t t.wrapped := C.mapLeading hS t

theorem ClassDeclaration.rel_wrapAnnotations (d : ClassDeclaration Tree) :
    Shape.Rel R S (.classDeclaration d) (.classDeclaration d.wrapAnnotations) := by
  have hrest := forall₂_mapRest C.refl (rel_wrapped C hS) d.annotations
  rw [wrapAnnotations]
  split
  · exact C.shape _
  · obtain ⟨annotations, modifiers, beforeKind, kind, name, ps, superclass, interfaces, body, type⟩ := d
    cases modifiers with
    | nil =>
      exact .classDeclaration hrest (C.list _) (hS _ _) rfl (C.refl _) (C.option_series _)
        (C.option_preceded _) (C.option_series _) (C.refl _) rfl
    | cons m ms =>
      exact .classDeclaration hrest (.cons (rel_wrapped C hS m) (C.list ms)) (C.space _ _) rfl
        (C.refl _) (C.option_series _) (C.option_preceded _) (C.option_series _) (C.refl _) rfl

theorem MethodDeclaration.rel_wrapAnnotations (d : MethodDeclaration Tree) :
    Shape.Rel R S (.methodDeclaration d) (.methodDeclaration d.wrapAnnotations) := by
  have hrest := forall₂_mapRest C.refl (rel_wrapped C hS) d.annotations
  have hwrapped := rel_wrapped C hS
  rw [wrapAnnotations]
  split
  · exact C.shape _
  · obtain ⟨annotations, modifiers, ps, returnType, name, parameters, thrown, body, type⟩ := d
    cases modifiers with
    | cons m ms =>
      exact .methodDeclaration hrest (.cons (hwrapped m) (C.list ms)) (C.option_series _)
        (C.option _) (C.refl _) (C.series _) (C.option_series _) (C.option _) rfl
    | nil =>
      cases ps with
      | some ps =>
        exact .methodDeclaration hrest .nil (.some (C.series_mapBefore hS ps)) (C.option _)
          (C.refl _) (C.series _) (C.option_series _) (C.option _) rfl
      | none =>
        cases returnType with
        | some r =>
          exact .methodDeclaration hrest .nil .none (.some (hwrapped r)) (C.refl _) (C.series _)
            (C.option_series _) (C.option _) rfl
        | none =>
          exact .methodDeclaration hrest .nil .none .none (hwrapped name) (C.series _)
            (C.option_series _) (C.option _) rfl

/-- Wrapping changes spaces by its rule for what starts a line. -/
theorem Shape.rel_wrapParts (x : Shape Tree) : Rel R S x x.wrapParts := by
  cases x with
  | block afterStatic statements beforeClose =>
    exact .block (C.option_space _)
      (forall₂_mapRest C.followed (C.followed_map (rel_wrapped C hS)) _) (C.space _ _)
  | classDeclaration d => exact d.rel_wrapAnnotations C hS
  | methodDeclaration d => exact d.rel_wrapAnnotations C hS
  | _ => exact C.shape _

end Wrapping

/-! ### Spacing -/

section Spacing

variable (C : Tree.Congruence R S) (hS : ∀ w l s, S l s (Space.padded w s))

include C hS

theorem rel_paddedAfter (w : Bool) (l : SpaceSlot) (s : Space) : S l s (s.paddedAfter w) := by
  rw [Space.paddedAfter]
  split
  · exact hS w l s
  · exact C.space l s

theorem rel_padded (w : Bool) (t : Tree) : R t (t.padded w) := C.mapLeading (hS w) t

theorem rel_paddedWithin {l : FollowedSlot} (w : Bool) (x : Followed Tree) :
    Followed.Rel R S l x (x.paddedWithin w) :=
  ⟨rel_padded C hS w _, rel_paddedAfter C hS w _ _⟩

theorem rel_preceded_padded {l : PrecededSlot} (w : Bool) (x : Preceded Tree) :
    Preceded.Rel R S l x (x.padded w) :=
  ⟨hS w _ _, rel_padded C hS w _⟩

omit hS in
theorem rel_padElements {l : FollowedSlot} {f g h k : Space → Space} (hf : ∀ l s, S l s (f s))
    (hg : ∀ l s, S l s (g s)) (hh : ∀ l s, S l s (h s)) (hk : ∀ l s, S l s (k s))
    (xs : List (Followed Tree)) : List.Forall₂ (Followed.Rel R S l) xs (padElements f g h k xs) := by
  fun_induction padElements f g h k xs with
  | case1 => exact .nil
  | case2 f x => exact .cons ⟨C.mapLeading hf _, hk _ _⟩ .nil
  | case3 f x xs _ ih => exact .cons ⟨C.mapLeading hf _, hh _ _⟩ (ih hg)

theorem rel_padList {l : FollowedSlot} (within afterComma beforeComma : Bool)
    (xs : List (Followed Tree)) :
    List.Forall₂ (Followed.Rel R S l) xs (padList within afterComma beforeComma xs) :=
  rel_padElements C (hS _) (hS _) (rel_paddedAfter C hS _) (rel_paddedAfter C hS _) xs

theorem rel_padAfterCommas {l : FollowedSlot} (within afterComma : Bool)
    (xs : List (Followed Tree)) :
    List.Forall₂ (Followed.Rel R S l) xs (padAfterCommas within afterComma xs) :=
  rel_padElements C (hS _) (hS _) C.space (rel_paddedAfter C hS _) xs

theorem rel_padSeparators {l : FollowedSlot} (afterComma beforeComma : Bool)
    (xs : List (Followed Tree)) :
    List.Forall₂ (Followed.Rel R S l) xs (padSeparators afterComma beforeComma xs) :=
  rel_padElements C C.space (hS _) (rel_paddedAfter C hS _) C.space xs

theorem rel_padArguments {l : FollowedSlot} (emptyWithin within : Bool)
    (separators : AroundSeparators) (xs : List (Followed Tree)) :
    List.Forall₂ (Followed.Rel R S l) xs (padArguments emptyWithin within separators xs) := by
  rw [padArguments]
  split
  · exact forall₂_map (C.followed_map (rel_padded C hS _)) xs
  · exact rel_padList C hS _ _ _ xs

theorem rel_padParentheses (before within : Bool) (t : Tree) :
    R t (t.padParentheses before within) := by
  cases t with
  | node i s x =>
    cases x with
    | controlParentheses inner =>
      exact C.node (hS _ _ _) (.controlParentheses (rel_paddedWithin C hS within inner))
    | _ => exact rel_padded C hS before _

namespace Spacing

variable (style : Spacing)

theorem rel_padClass (d : ClassDeclaration Tree) :
    Shape.Rel R S (.classDeclaration d) (.classDeclaration (style.padClass d)) := by
  refine .classDeclaration (C.list _) (C.list _) (C.space _ _) rfl (C.refl _)
    (rel_map_option (fun ps => ⟨hS _ _ _, rel_padAfterCommas C hS _ _ _⟩) _) (C.option_preceded _)
    (C.option_series _) ?_ rfl
  obtain ⟨annotations, modifiers, beforeKind, kind, name, ps, superclass, interfaces, body, type⟩ := d
  cases body with
  | node i s x =>
    cases x with
    | block afterStatic statements beforeClose =>
      cases statements with
      | nil => exact C.node (hS _ _ _) (.block (C.option_space _) .nil (hS _ _ _))
      | cons => exact rel_padded C hS _ _
    | _ => exact rel_padded C hS _ _

theorem rel_padMethod (d : MethodDeclaration Tree) :
    Shape.Rel R S (.methodDeclaration d) (.methodDeclaration (style.padMethod d)) :=
  .methodDeclaration (C.list _) (C.list _)
    (rel_map_option (C.series_mapElements (rel_padAfterCommas C hS _ _)) _) (C.option _) (C.refl _)
    ⟨hS _ _ _, rel_padArguments C hS _ _ _ _⟩ (C.option_series _)
    (rel_map_option (rel_padded C hS _) _) rfl

theorem rel_padInvocation (i : MethodInvocation Tree) :
    Shape.Rel R S (.methodInvocation i) (.methodInvocation (style.padInvocation i)) := by
  refine .methodInvocation (C.option_followed _) (rel_map_option (fun ps => ⟨hS _ _ _, ?_⟩) _) ?_
    ⟨hS _ _ _, rel_padArguments C hS _ _ _ _⟩ rfl
  · show R _ (ite _ _ _)
    split
    · exact rel_padded C hS _ _
    · exact C.refl _
  · exact forall₂_mapRest C.followed (C.followed_map (rel_padded C hS _)) _

theorem rel_padForInit (styles : Styles) {l : FollowedSlot} (init : List (Followed Tree)) :
    List.Forall₂ (Followed.Rel R S l) init (padForInit styles init) :=
  forall₂_mapFirst C.followed (fun _ => ⟨rel_padded C hS _ _, rel_paddedAfter C hS _ _ _⟩) init

theorem rel_padForUpdate (styles : Styles) {l : FollowedSlot} (update : List (Followed Tree)) :
    List.Forall₂ (Followed.Rel R S l) update (padForUpdate styles update) := by
  have husual := rel_padElements C (l := l) (hS styles.spacing.separators.afterForSemicolon)
    (hS styles.spacing.separators.afterComma)
    (rel_paddedAfter C hS styles.spacing.separators.beforeComma)
    (rel_paddedAfter C hS styles.spacing.within.forHeader) update
  unfold padForUpdate
  dsimp only
  split
  · split
    · exact .cons (C.followed_map (rel_padded C hS _) _) .nil
    · exact husual
  · exact husual

theorem rel_padForControl (styles : Styles) (t : Tree) : R t (padForControl styles t) := by
  cases t with
  | node i s x =>
    cases x with
    | forControl init condition update =>
      exact C.node (hS _ _ _) (.forControl (rel_padForInit C hS styles init)
        ⟨rel_padded C hS _ _, rel_paddedAfter C hS _ _ _⟩ (rel_padForUpdate C hS styles update))
    | _ => exact rel_padded C hS _ _

theorem rel_padForEachControl (t : Tree) : R t (style.padForEachControl t) := by
  cases t with
  | node i s x =>
    cases x with
    | forEachControl declared iterable =>
      exact C.node (hS _ _ _) (.forEachControl ⟨rel_padded C hS _ _, rel_paddedAfter C hS _ _ _⟩
        ⟨C.refl _, rel_paddedAfter C hS _ _ _⟩)
    | _ => exact rel_padded C hS _ _

theorem rel_padAnnotationArguments {l : SeriesSlot} (s : Series Tree) :
    Series.Rel R S l s (style.padAnnotationArguments s) := by
  refine ⟨hS _ _ _, rel_padElements C ?_ C.space C.space (rel_paddedAfter C hS _) _⟩
  intro l s
  split
  · exact hS _ l s
  · exact C.space l s

theorem rel_padArrayValues {l : FollowedSlot} (xs : List (Followed Tree)) :
    List.Forall₂ (Followed.Rel R S l) xs (style.padArrayValues xs) := by
  have hpad := rel_padded C hS
  have hempty := fun ys => forall₂_map (C.followed_map (l := l) (hpad style.within.emptyArrayValues)) ys
  unfold padArrayValues
  split
  · dsimp only
    split
    · cases xs with
      | nil => exact .nil
      | cons x xs =>
        -- the placeholder is padded once, what follows it twice
        refine .cons (C.followed_map (hpad _) x) ?_
        rw [List.map_map]
        exact forall₂_map (fun y => ⟨C.trans (hpad true _) (hpad _ _), C.space _ _⟩) xs
    · exact hempty xs
  · exact rel_padList C hS _ _ _ xs

theorem rel_padDimension (t : Tree) : R t (style.padDimension t) := by
  cases t with
  | node i s x =>
    cases x with
    | arrayDimension index =>
      exact C.withShape (.arrayDimension ⟨rel_padded C hS _ _, hS _ _ _⟩)
    | _ => exact C.refl _

theorem rel_padCastType (t : Tree) : R t (style.padCastType t) := by
  cases t with
  | node i s x =>
    cases x with
    | controlParentheses inner =>
      exact C.withShape (.controlParentheses (rel_paddedWithin C hS _ _))
    | _ => exact C.refl _

theorem rel_padTypeArguments (s : Series Tree) :
    Series.Rel R S .typeParameters s (style.padTypeArguments s) := by
  unfold padTypeArguments
  dsimp only
  split
  · exact C.series_mapBefore (hS _) s
  · exact ⟨hS _ _ _, rel_padAfterCommas C hS _ _ _⟩

end Spacing

/-- Padding changes spaces by its rule for single blanks. -/
theorem Shape.rel_pad (styles : Styles) (annotated : Bool) (x : Shape Tree) :
    Rel R S x (x.pad styles annotated) := by
  have hpad := rel_padded C hS
  cases x with
  | classDeclaration d => exact styles.spacing.rel_padClass C hS d
  | methodDeclaration d => exact styles.spacing.rel_padMethod C hS d
  | methodInvocation i => exact styles.spacing.rel_padInvocation C hS i
  | ifStatement condition thenPart alternative =>
    exact .ifStatement (rel_padParentheses C hS _ _ _) (C.followed_map (hpad _) _) (C.option _)
  | elsePart body => exact .elsePart (C.followed_map (hpad _) _)
  | forLoop control body =>
    exact .forLoop (Spacing.rel_padForControl C hS _ _) (C.followed_map (hpad _) _)
  | forEachLoop control body =>
    exact .forEachLoop (Spacing.rel_padForEachControl C hS _ _) (C.followed_map (hpad _) _)
  | whileLoop condition body =>
    exact .whileLoop (rel_padParentheses C hS _ _ _) (C.followed_map (hpad _) _)
  | doWhileLoop body condition =>
    exact .doWhileLoop (C.followed_map (hpad _) _) ⟨hS _ _ _, rel_padParentheses C hS _ _ _⟩
  | switchStatement selector cases =>
    exact .switchStatement (rel_padParentheses C hS _ _ _) (hpad _ _)
  | tryStatement body catches finallyBlock =>
    exact .tryStatement (hpad _ _) (C.list _)
      (rel_map_option (fun f => ⟨hS _ _ _, hpad _ _⟩) _)
  | catchClause parameter body => exact .catchClause (rel_padParentheses C hS _ _ _) (hpad _ _)
  | annotationUse name arguments =>
    exact .annotationUse (C.refl _)
      (rel_map_option (Spacing.rel_padAnnotationArguments C hS _) _)
  | assignment target value => exact .assignment (C.refl _) (rel_preceded_padded C hS _ _)
  | assignmentOperation target beforeOperator operator value =>
    exact .assignmentOperation (C.refl _) (hS _ _ _) (hpad _ _)
  | namedVariable name initializer type =>
    exact .namedVariable (C.refl _) (rel_map_option (rel_preceded_padded C hS _) _)
  | binary left beforeOperator operator right type =>
    exact .binary (C.refl _) (hS _ _ _) (hpad _ _)
  | unary beforeOperator operator operand =>
    refine .unary (hS _ _ _) ?_
    split
    · exact C.refl _
    · exact hpad _ _
  | lambda l =>
    refine .lambda (C.space _ _) rfl ?_ (hS _ _ _) (hpad _ _)
    show List.Forall₂ _ _ (ite _ _ _)
    split
    · exact C.elements _
    · exact rel_padSeparators C hS _ _ _
  | newArray element dimensions values =>
    refine .newArray (C.option _) (C.list _) (rel_map_option (fun s => ?_) _)
    split
    · exact ⟨C.space _ _, Spacing.rel_padArrayValues C hS _ _⟩
    · exact ⟨hS _ _ _, Spacing.rel_padArrayValues C hS _ _⟩
  | arrayAccess array dimension =>
    exact .arrayAccess (C.refl _) (Spacing.rel_padDimension C hS _ _)
  | parentheses inner => exact .parentheses ⟨hpad _ _, hS _ _ _⟩
  | typeCast type operand => exact .typeCast (Spacing.rel_padCastType C hS _ _) (hpad _ _)
  | parameterizedType name arguments type =>
    exact .parameterizedType (C.refl _) (rel_map_option (Spacing.rel_padTypeArguments C hS _) _)
  | ternary condition whenTrue whenFalse =>
    exact .ternary (C.refl _) ⟨hS _ _ _, hpad _ _⟩ ⟨hS _ _ _, hpad _ _⟩
  | newClass name arguments body type =>
    exact .newClass (C.refl _) ⟨hS _ _ _, rel_padSeparators C hS _ _ _⟩ (C.option _)
  | enumValue name arguments =>
    exact .enumValue (C.refl _)
      (rel_map_option (C.series_mapElements (rel_padSeparators C hS _ _)) _)
  | typeParameter annotations name bounds =>
    exact .typeParameter (C.list _) (C.refl _)
      (rel_map_option (C.series_mapElements (rel_padSeparators C hS _ _)) _)
  | _ => exact C.shape _

theorem Tree.rel_padLeading (style : Spacing) (annotated : Bool) (t : Tree) :
    R t (t.padLeading style annotated) := by
  have hpad := rel_padded C hS
  unfold padLeading
  split
  · exact hpad _ t
  · exact hpad _ t
  · split
    · exact hpad _ t
    · exact C.refl t
  · exact C.refl t

omit C hS in
theorem Tree.shape_padLeading (style : Spacing) (annotated : Bool) (t : Tree) :
    (t.padLeading style annotated).shape = t.shape := by
  have hpadded (w : Bool) : (t.padded w).shape = t.shape := by cases t; rfl
  unfold padLeading
  split
  · exact hpadded _
  · exact hpadded _
  · split
    · exact hpadded _
    · rfl
  · rfl

theorem Tree.rel_pad (styles : Styles) (parent : Option NodeKind) (t : Tree) :
    R t (t.pad styles parent) := by
  refine C.trans (Tree.rel_padLeading C hS styles.spacing _ t) (C.withShape ?_)
  rw [shape_padLeading]
  exact t.shape.rel_pad C hS styles _

end Spacing

end JavaSource
