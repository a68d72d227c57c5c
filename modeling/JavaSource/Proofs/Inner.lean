import JavaSource.Format.Pass
import JavaSource.Proofs.LocalPasses
import JavaSource.Proofs.Rebuilding

/-!
# Local passes beside changes deep in a tree

A change of trees is inner (`Tree.Inner`) if it keeps the kind and the leading space of each tree
and, except at blocks, changes its parts only.  What the local passes do at a node that is not a
block is the same before and after an inner change of its parts.
-/

namespace JavaSource

/-! ### The parts of a layer changed -/

namespace Shape

variable {g : Tree → Tree}

theorem map_classDeclaration (d : ClassDeclaration Tree) :
    (classDeclaration d).map g = classDeclaration
      { d with
        annotations := d.annotations.map g
        modifiers := d.modifiers.map g
        name := g d.name
        typeParameters := d.typeParameters.map (Series.mapElements (List.map (Followed.map g)))
        superclass := d.superclass.map (Preceded.map g)
        interfaces := d.interfaces.map (Series.mapElements (List.map (Followed.map g)))
        body := g d.body } := by
  simp only [map, traverse, SlotActions.ofMap, run_option_mapM, run_list_mapM, Id.run_bind,
    Id.run_pure]
  rfl

theorem map_methodDeclaration (d : MethodDeclaration Tree) :
    (methodDeclaration d).map g = methodDeclaration
      { d with
        annotations := d.annotations.map g
        modifiers := d.modifiers.map g
        typeParameters := d.typeParameters.map (Series.mapElements (List.map (Followed.map g)))
        returnType := d.returnType.map g
        name := g d.name
        parameters := d.parameters.mapElements (List.map (Followed.map g))
        thrown := d.thrown.map (Series.mapElements (List.map (Followed.map g)))
        body := d.body.map g } := by
  simp only [map, traverse, SlotActions.ofMap, run_option_mapM, run_list_mapM, Id.run_bind,
    Id.run_pure]
  rfl

theorem map_variableDeclarations (d : VariableDeclarations Tree) :
    (variableDeclarations d).map g = variableDeclarations
      { d with
        annotations := d.annotations.map g
        modifiers := d.modifiers.map g
        type := d.type.map g
        declarators := d.declarators.map (Followed.map g) } := by
  simp only [map, traverse, SlotActions.ofMap, run_option_mapM, run_list_mapM, Id.run_bind,
    Id.run_pure]
  simp only [Id.run, Option.map_id_fun', id_eq]

theorem map_arrayDimension (index : Followed Tree) :
    (arrayDimension index).map g = arrayDimension (index.map g) := rfl

theorem map_controlParentheses (inner : Followed Tree) :
    (controlParentheses inner).map g = controlParentheses (inner.map g) := rfl

theorem map_forEachControl (declared iterable : Followed Tree) :
    (forEachControl declared iterable).map g =
      forEachControl (declared.map g) (iterable.map g) := rfl

theorem map_forControl (init update : List (Followed Tree)) (condition : Followed Tree) :
    (forControl init condition update).map g =
      forControl (init.map (Followed.map g)) (condition.map g) (update.map (Followed.map g)) := by
  simp only [map, traverse, SlotActions.ofMap, run_list_mapM, Id.run_bind, Id.run_pure]
  rfl

end Shape

/-! ### Inner changes -/

/-- The function changes parts of a tree only, or statements of a block. -/
structure Tree.Inner (g : Tree → Tree) : Prop where
  leading : ∀ t, (g t).leading = t.leading
  kind : ∀ t, (g t).kind = t.kind
  mapLeading : ∀ f t, (g t).mapLeading f = g (t.mapLeading f)
  shape : ∀ t, t.kind ≠ .block → (g t).shape = t.shape.map g
  withShape : ∀ t x, x.kind ≠ .block → (g t).withShape (x.map g) = g (t.withShape x)

/-- The node with the space before its closing brace changed, if it is a block without
statements. -/
def Tree.mapEmptyBlock (f : Space → Space) (t : Tree) : Tree :=
  match t.shape with
  | .block afterStatic [] beforeClose => t.withShape (.block afterStatic [] (f beforeClose))
  | _ => t

theorem Tree.isEmpty_eq_kind (t : Tree) : t.isEmpty = (t.kind == .empty) := by
  obtain ⟨i, s, x⟩ := t
  cases x <;> rfl

theorem Tree.kind_padded (w : Bool) (t : Tree) : (t.padded w).kind = t.kind := by cases t; rfl

section Inner

variable {g : Tree → Tree} (G : Tree.Inner g)

include G

namespace Tree.Inner

theorem isEmpty (t : Tree) : (g t).isEmpty = t.isEmpty := by
  rw [isEmpty_eq_kind, isEmpty_eq_kind, G.kind]

/-- A function that looks at the layers of one kind of node only, and is the same before and after
there, is the same before and after. -/
theorem peek {F : Tree → Tree} (f : Space → Space) (k : NodeKind)
    (other : ∀ t, t.kind ≠ k → F t = t.mapLeading f) (here : ∀ t, t.kind = k → F (g t) = g (F t))
    (t : Tree) : F (g t) = g (F t) := by
  by_cases ht : t.kind = k
  · exact here t ht
  · have hg : (g t).kind ≠ k := by rwa [G.kind]
    rw [other t ht, other _ hg, G.mapLeading]

/-! ### Gaps between words -/

theorem separated (t : Tree) : (g t).separated = g t.separated := G.mapLeading _ _

theorem separatedIf (preceded : Bool) (t : Tree) :
    (g t).separatedIf preceded = g (t.separatedIf preceded) := by
  unfold Tree.separatedIf
  split
  · exact G.separated t
  · rfl

theorem separateFirst (xs : List (Followed Tree)) :
    JavaSource.separateFirst (xs.map (Followed.map g)) =
      (JavaSource.separateFirst xs).map (Followed.map g) := by
  cases xs with
  | nil => rfl
  | cons x xs => simp [JavaSource.separateFirst, mapFirst, Followed.map, G.separated]

theorem separateModifiers (annotations modifiers : List Tree) :
    JavaSource.separateModifiers (annotations.map g) (modifiers.map g) =
      (JavaSource.separateModifiers annotations modifiers).map g := by
  cases annotations <;> cases modifiers <;> simp [JavaSource.separateModifiers, G.separated]

theorem series_separated (s : Series Tree) :
    Series.separated ⟨s.before, s.elements.map (Followed.map g)⟩ =
      ⟨s.separated.before, s.separated.elements.map (Followed.map g)⟩ :=
  congrArg (Series.mk _) (G.separateFirst s.elements)

theorem separateWords (x : Shape Tree) : (x.map g).separateWords = x.separateWords.map g := by
  have hif (c : Prop) [Decidable c] (s : Series Tree) :
      (if c then Series.mapBefore Space.orSingle ⟨s.before, s.elements.map (Followed.map g)⟩
        else ⟨s.before, s.elements.map (Followed.map g)⟩) =
        (⟨(if c then s.mapBefore Space.orSingle else s).before,
          (if c then s.mapBefore Space.orSingle else s).elements.map (Followed.map g)⟩ :
          Series Tree) := by
    split <;> rfl
  cases x
  case unary beforeOperator operator operand => cases operator <;> rfl
  -- each word and each list of words is separated after the change as before it
  all_goals
    simp only [Shape.map, Shape.traverse, SlotActions.ofMap, Shape.separateWords, run_option_mapM,
      run_list_mapM, Id.run_bind, Id.run_pure]
    try simp only [Id.run]
  case variableDeclarations d =>
    simp only [VariableDeclarations.separateWords, Option.isSome_map, List.isEmpty_map,
      Option.map_map, Option.map_id_fun', id_eq, Function.comp_def, G.separatedIf,
      G.separateModifiers, G.separateFirst]
    split <;> rfl
  all_goals
    simp [ClassDeclaration.separateWords, MethodDeclaration.separateWords, Function.comp_def,
      Preceded.map, Preceded.mapBefore, G.kind, G.separated, G.separatedIf,
      G.separateModifiers, G.series_separated, hif]

/-! ### Leading spaces -/

theorem wrapped (t : Tree) : (g t).wrapped = g t.wrapped := G.mapLeading _ _

theorem withLeading (s : Space) (t : Tree) : (g t).withLeading s = g (t.withLeading s) := by
  have h := G.mapLeading (fun _ => s) t
  cases t
  generalize g (.node _ _ _) = u at h ⊢
  cases u
  exact h

theorem wrapParts (x : Shape Tree) (hx : x.kind ≠ .block) :
    (x.map g).wrapParts = x.wrapParts.map g := by
  cases x
  case block => exact absurd rfl hx
  case unary beforeOperator operator operand => cases operator <;> rfl
  all_goals
    simp only [Shape.map, Shape.traverse, SlotActions.ofMap, Shape.wrapParts, run_option_mapM,
      run_list_mapM, Id.run_bind, Id.run_pure]
    try simp only [Id.run]
  case classDeclaration d =>
    obtain ⟨annotations, modifiers, beforeKind, kind, name, typeParameters, superclass, interfaces, body, type⟩ := d
    cases annotations <;> cases modifiers <;> simp [ClassDeclaration.wrapAnnotations, mapRest, G.wrapped]
  case methodDeclaration d =>
    obtain ⟨annotations, modifiers, typeParameters, returnType, name, parameters, thrown, body, type⟩ := d
    cases annotations <;> cases modifiers <;> cases typeParameters <;> cases returnType <;>
      simp [MethodDeclaration.wrapAnnotations, mapRest, G.wrapped, Series.mapBefore]

/-! ### Spacing -/

theorem padded (w : Bool) (t : Tree) : (g t).padded w = g (t.padded w) := G.mapLeading _ _

theorem followed_padded (w : Bool) (x : Followed Tree) :
    (x.map g).map (Tree.padded w) = (x.map (Tree.padded w)).map g :=
  congrArg (Followed.mk · x.after) (G.padded w x.element)

theorem followed_paddedWithin (w : Bool) (x : Followed Tree) :
    (x.map g).paddedWithin w = (x.paddedWithin w).map g :=
  congrArg (Followed.paddedAfter w) (G.followed_padded w x)

omit G in
theorem followed_paddedAfter (w : Bool) (x : Followed Tree) :
    (x.map g).paddedAfter w = (x.paddedAfter w).map g := rfl

omit G in
theorem followed_mapAfter (f : Space → Space) (x : Followed Tree) :
    (x.map g).mapAfter f = (x.mapAfter f).map g := rfl

theorem mapRest_padded (w : Bool) (xs : List (Followed Tree)) :
    mapRest (Followed.map (Tree.padded w)) (xs.map (Followed.map g)) =
      (mapRest (Followed.map (Tree.padded w)) xs).map (Followed.map g) := by
  cases xs with
  | nil => rfl
  | cons x xs => simp [mapRest, G.followed_padded]

theorem padElements (opening afterComma beforeComma closing : Space → Space)
    (xs : List (Followed Tree)) :
    JavaSource.padElements opening afterComma beforeComma closing (xs.map (Followed.map g)) =
      (JavaSource.padElements opening afterComma beforeComma closing xs).map (Followed.map g) := by
  fun_induction JavaSource.padElements opening afterComma beforeComma closing xs with
  | case1 => rfl
  | case2 opening x => simp [JavaSource.padElements, Followed.map, Followed.mapAfter, G.mapLeading]
  | case3 opening x xs hxs ih =>
    cases xs with
    | nil => exact absurd rfl hxs
    | cons y ys =>
      simp_all [JavaSource.padElements, Followed.map, Followed.mapAfter, G.mapLeading]

theorem startsEmpty (xs : List (Followed Tree)) :
    JavaSource.startsEmpty (xs.map (Followed.map g)) = JavaSource.startsEmpty xs := by
  cases xs with
  | nil => rfl
  | cons x xs => exact G.isEmpty x.element

theorem padArguments (emptyWithin within : Bool) (separators : AroundSeparators)
    (xs : List (Followed Tree)) :
    JavaSource.padArguments emptyWithin within separators (xs.map (Followed.map g)) =
      (JavaSource.padArguments emptyWithin within separators xs).map (Followed.map g) := by
  simp only [JavaSource.padArguments, G.startsEmpty, padList, G.padElements]
  split
  · simp [Followed.map, G.padded]
  · rfl

theorem padArrayValues (style : Spacing) (xs : List (Followed Tree)) :
    style.padArrayValues (xs.map (Followed.map g)) =
      (style.padArrayValues xs).map (Followed.map g) := by
  simp only [Spacing.padArrayValues, G.startsEmpty, padList, G.padElements]
  split
  · split <;> simp [G.mapRest_padded, G.followed_padded]
  · rfl

theorem padForInit (styles : Styles) (xs : List (Followed Tree)) :
    Spacing.padForInit styles (xs.map (Followed.map g)) =
      (Spacing.padForInit styles xs).map (Followed.map g) := by
  cases xs with
  | nil => rfl
  | cons x xs =>
    simp [Spacing.padForInit, mapFirst, Followed.map, Followed.paddedAfter, Followed.mapAfter,
      G.padded, G.isEmpty]

theorem padForUpdate (styles : Styles) (xs : List (Followed Tree)) :
    Spacing.padForUpdate styles (xs.map (Followed.map g)) =
      (Spacing.padForUpdate styles xs).map (Followed.map g) := by
  unfold Spacing.padForUpdate
  dsimp only
  rw [G.padElements]
  cases styles.emptyForUpdate with
  | none => rfl
  | some wanted =>
    obtain - | ⟨x, - | ⟨y, ys⟩⟩ := xs
    · rfl
    · simp only [List.map_cons, List.map_nil]
      rw [show (x.map g).element.isEmpty = x.element.isEmpty from G.isEmpty _]
      split
      · simp [G.followed_padded]
      · rfl
    · rfl

/-! ### The parts whose own parts are padded -/

theorem padParentheses (before within : Bool) (t : Tree) :
    (g t).padParentheses before within = g (t.padParentheses before within) := by
  refine G.peek (Space.padded before) .controlParentheses ?_ (fun t ht => ?_) t
  · rintro ⟨i, s, x⟩ ht
    cases x <;> first | rfl | exact absurd rfl ht
  · obtain ⟨inner, hshape⟩ := Tree.exists_controlParentheses ht
    have hg := G.shape t (ht ▸ nofun)
    have hpadded := G.withShape (t.padded before)
      (.controlParentheses (inner.paddedWithin within)) nofun
    rw [hshape] at hg
    simpa only [Tree.padParentheses, hg, hshape, Shape.map_controlParentheses,
      G.followed_paddedWithin, G.padded] using hpadded

theorem padCastType (style : Spacing) (t : Tree) :
    style.padCastType (g t) = g (style.padCastType t) := by
  refine G.peek (fun s => s) .controlParentheses ?_ (fun t ht => ?_) t
  · rintro ⟨i, s, x⟩ ht
    cases x <;> first | rfl | exact absurd rfl ht
  · obtain ⟨inner, hshape⟩ := Tree.exists_controlParentheses ht
    have hg := G.shape t (ht ▸ nofun)
    have hpadded := G.withShape t
      (.controlParentheses (inner.paddedWithin style.within.typeCast)) nofun
    rw [hshape] at hg
    simpa only [Spacing.padCastType, hg, hshape, Shape.map_controlParentheses,
      G.followed_paddedWithin] using hpadded

theorem padDimension (style : Spacing) (t : Tree) :
    style.padDimension (g t) = g (style.padDimension t) := by
  refine G.peek (fun s => s) .arrayDimension ?_ (fun t ht => ?_) t
  · rintro ⟨i, s, x⟩ ht
    cases x <;> first | rfl | exact absurd rfl ht
  · obtain ⟨index, hshape⟩ := Tree.exists_arrayDimension ht
    have hg := G.shape t (ht ▸ nofun)
    have hpadded := G.withShape t (.arrayDimension ((index.map (Tree.padded style.within.brackets)).mapAfter
      (Space.padded style.within.brackets))) nofun
    rw [hshape] at hg
    simpa only [Spacing.padDimension, hg, hshape, Shape.map_arrayDimension,
      G.followed_padded, followed_mapAfter] using hpadded

theorem padForControl (styles : Styles) (t : Tree) :
    Spacing.padForControl styles (g t) = g (Spacing.padForControl styles t) := by
  refine G.peek (Space.padded styles.spacing.beforeParentheses.forHeader) .forControl ?_ (fun t ht => ?_) t
  · rintro ⟨i, s, x⟩ ht
    cases x <;> first | rfl | exact absurd rfl ht
  · have ht : (t.padded styles.spacing.beforeParentheses.forHeader).kind = .forControl :=
      ht ▸ kind_padded _ t
    have hg := G.shape (t.padded styles.spacing.beforeParentheses.forHeader) (ht ▸ nofun)
    obtain ⟨init, condition, update, hshape⟩ := Tree.exists_forControl ht
    have hpadded := G.withShape (t.padded styles.spacing.beforeParentheses.forHeader)
      (.forControl (Spacing.padForInit styles init)
        ((condition.map (Tree.padded styles.spacing.separators.afterForSemicolon)).paddedAfter
          styles.spacing.separators.beforeForSemicolon) (Spacing.padForUpdate styles update)) nofun
    simpa only [Spacing.padForControl, hg, hshape, Shape.map_forControl, G.padForInit, G.padForUpdate,
      G.followed_padded, followed_paddedAfter, G.padded] using hpadded

theorem padForEachControl (style : Spacing) (t : Tree) :
    style.padForEachControl (g t) = g (style.padForEachControl t) := by
  refine G.peek (Space.padded style.beforeParentheses.forHeader) .forEachControl ?_ (fun t ht => ?_) t
  · rintro ⟨i, s, x⟩ ht
    cases x <;> first | rfl | exact absurd rfl ht
  · have ht : (t.padded style.beforeParentheses.forHeader).kind = .forEachControl :=
      ht ▸ kind_padded _ t
    have hg := G.shape (t.padded style.beforeParentheses.forHeader) (ht ▸ nofun)
    obtain ⟨declared, iterable, hshape⟩ := Tree.exists_forEachControl ht
    have hpadded := G.withShape (t.padded style.beforeParentheses.forHeader)
      (.forEachControl ((declared.map (Tree.padded style.within.forHeader)).paddedAfter
        style.separators.beforeForEachColon) (iterable.paddedAfter style.within.forHeader)) nofun
    simpa only [Spacing.padForEachControl, hg, hshape, Shape.map_forEachControl,
      G.followed_padded, followed_paddedAfter, G.padded] using hpadded

/-! ### Padded layers -/

theorem padAnnotationArguments (style : Spacing) (s : Series Tree) :
    style.padAnnotationArguments ⟨s.before, s.elements.map (Followed.map g)⟩ =
      ⟨(style.padAnnotationArguments s).before,
        (style.padAnnotationArguments s).elements.map (Followed.map g)⟩ :=
  congrArg (Series.mk _) (G.padElements _ _ _ _ s.elements)

theorem padTypeArguments (style : Spacing) (s : Series Tree) :
    style.padTypeArguments ⟨s.before, s.elements.map (Followed.map g)⟩ =
      ⟨(style.padTypeArguments s).before,
        (style.padTypeArguments s).elements.map (Followed.map g)⟩ := by
  simp only [Spacing.padTypeArguments, Series.mapBefore, Series.mapElements, G.startsEmpty,
    padAfterCommas, G.padElements]
  by_cases h : JavaSource.startsEmpty s.elements = true <;> simp [h]

theorem pad (styles : Styles) (annotated : Bool) (x : Shape Tree) (hx : x.kind ≠ .block)
    (hbody : ∀ d, x = .classDeclaration d → ∀ f h,
      ((g d.body).mapLeading f).mapEmptyBlock h = g ((d.body.mapLeading f).mapEmptyBlock h)) :
    (x.map g).pad styles annotated = (x.pad styles annotated).map g := by
  cases x
  case block => exact absurd rfl hx
  case unary beforeOperator operator operand =>
    cases operator <;> first | rfl | exact congrArg (Shape.unary _ _) (G.padded _ _)
  all_goals
    simp only [Shape.map, Shape.traverse, SlotActions.ofMap, Shape.pad, run_option_mapM,
      run_list_mapM, Id.run_bind, Id.run_pure]
    try simp only [Id.run]
  case classDeclaration d =>
    simp [Spacing.padClass, Function.comp_def, Series.mapBefore, Series.mapElements,
      padAfterCommas, G.padElements, Tree.padded]
    exact hbody d rfl _ _
  case lambda l =>
    simp only [G.startsEmpty, padSeparators, G.padElements, G.padded]
    split <;> simp_all
  case newArray element dimensions values =>
    cases annotated <;> simp [Function.comp_def, Series.mapBefore, Series.mapElements, G.padArrayValues]
  case methodInvocation i =>
    obtain ⟨receiver, typeArguments, name, arguments, type⟩ := i
    cases typeArguments <;>
      simp [Spacing.padInvocation, Series.mapBefore, Series.mapElements, G.padArguments, G.padded,
        G.mapRest_padded]
  all_goals
    simp [Spacing.padMethod, Series.mapBefore, Series.mapElements, Function.comp_def,
      Preceded.map, Preceded.mapBefore, Preceded.padded, padSeparators, padAfterCommas, G.padded,
      G.padParentheses, G.padCastType, G.padDimension, G.padForControl, G.padForEachControl,
      G.padArguments, G.padAnnotationArguments, G.padTypeArguments, G.followed_padded,
      followed_mapAfter, G.padElements]

theorem padLeading (style : Spacing) (annotated : Bool) (t : Tree) :
    (g t).padLeading style annotated = g (t.padLeading style annotated) := by
  have hkind (t : Tree) : t.padLeading style annotated = match t.kind with
      | .elsePart => t.padded style.beforeKeywords.elseKeyword
      | .catchClause => t.padded style.beforeKeywords.catchKeyword
      | .newArray =>
        if annotated && !style.within.annotationArguments then
          t.padded style.beforeBrace.annotationArrayValues
        else t
      | _ => t := by
    obtain ⟨i, s, x⟩ := t
    cases x <;> rfl
  rw [hkind, hkind, G.kind]
  split
  · exact G.padded _ t
  · exact G.padded _ t
  · split
    · exact G.padded _ t
    · rfl
  · rfl

/-! ### Leading spaces of declarations -/

theorem rebuilt (t : Tree) {f : Space → Space} {x y : Shape Tree} (hx : x.kind ≠ .block)
    (hy : x.map g = y) :
    ((g t).mapLeading f).withShape y = g ((t.mapLeading f).withShape x) := by
  rw [← hy, G.mapLeading, G.withShape _ _ hx]

theorem gather (t part : Tree) {rebuild rebuild' : Tree → Shape Tree}
    (hkind : (rebuild (part.withLeading .empty)).kind ≠ .block)
    (hrebuild : (rebuild (part.withLeading .empty)).map g =
      rebuild' (g (part.withLeading .empty))) :
    (g t).gather (g part) rebuild' = g (t.gather part rebuild) := by
  unfold Tree.gather
  rw [G.leading, G.withLeading]
  exact G.rebuilt t hkind hrebuild

theorem gatherLeading (t : Tree) : (g t).gatherLeading = g t.gatherLeading := by
  have hblock (t : Tree) (ht : t.kind = .block) : t.gatherLeading = t := by
    obtain ⟨i, s, x⟩ := t
    cases x <;> first | rfl | cases ht
  by_cases ht : t.kind = .block
  · rw [hblock t ht, hblock _ ((G.kind t).trans ht)]
  · have hg := G.shape t ht
    unfold Tree.gatherLeading
    rw [hg]
    cases t.shape
    case unary beforeOperator operator operand => cases operator <;> rfl
    case classDeclaration d =>
      obtain ⟨annotations, modifiers, beforeKind, kind, name, typeParameters, superclass,
        interfaces, body, type⟩ := d
      rw [Shape.map_classDeclaration]
      obtain - | ⟨a, annotations⟩ := annotations
      · obtain - | ⟨m, modifiers⟩ := modifiers
        · exact G.rebuilt t nofun (Shape.map_classDeclaration _)
        · exact G.gather t m nofun (Shape.map_classDeclaration _)
      · rfl
    case methodDeclaration d =>
      obtain ⟨annotations, modifiers, typeParameters, returnType, name, parameters, thrown, body, type⟩ := d
      rw [Shape.map_methodDeclaration]
      obtain - | ⟨a, annotations⟩ := annotations
      · obtain - | ⟨m, modifiers⟩ := modifiers
        · obtain - | ps := typeParameters
          · obtain - | r := returnType
            · exact G.gather t name nofun (Shape.map_methodDeclaration _)
            · exact G.gather t r nofun (Shape.map_methodDeclaration _)
          · exact G.rebuilt t nofun (Shape.map_methodDeclaration _)
        · exact G.gather t m nofun (Shape.map_methodDeclaration _)
      · rfl
    case variableDeclarations d =>
      obtain ⟨annotations, modifiers, typ, beforeDots, declarators⟩ := d
      rw [Shape.map_variableDeclarations]
      obtain - | ⟨a, annotations⟩ := annotations
      · obtain - | ⟨m, modifiers⟩ := modifiers
        · obtain - | type := typ
          · rfl
          · exact G.gather t type nofun (Shape.map_variableDeclarations _)
        · exact G.gather t m nofun (Shape.map_variableDeclarations _)
      · rfl
    all_goals
      simp only [Shape.map, Shape.traverse, SlotActions.ofMap, run_option_mapM, run_list_mapM,
        Id.run_bind, Id.run_pure]
      try simp only [Id.run]

/-! ### Blank lines -/

theorem bound (style : BlankLineStyle) (parent : Option NodeKind) (x : Shape Tree)
    (hx : x.kind ≠ .block) : style.bound parent (x.map g) = (style.bound parent x).map g := by
  cases x
  case block => exact absurd rfl hx
  case unary beforeOperator operator operand => cases operator <;> rfl
  all_goals
    simp only [Shape.map, Shape.traverse, SlotActions.ofMap, BlankLineStyle.bound,
      run_option_mapM, run_list_mapM, Id.run_bind, Id.run_pure]
    try simp only [Id.run]
  case compilationUnit u =>
    obtain ⟨package, imports, declarations, beforeEnd⟩ := u
    cases imports <;> cases declarations <;>
      simp [BlankLineStyle.boundUnit, mapFirst, Tree.boundBlankLines, G.mapLeading, Followed.map,
        Function.comp_def]

end Tree.Inner

end Inner

end JavaSource
