import JavaSource.Proofs.GatheredText

/-!
# Blank lines are bounded

`Text.Bounds` says what the blank-line pass owes to a run of white space: it has no more blank lines
than a limit, and it is what stood there, or what followed one of its line breaks, with line breaks
put in front.  A leading space that is first limited and then required to have blank lines keeps to
the larger of the two numbers (`Space.bounds_boundBlankLines`).

The rule of the pass changes leading spaces of parts and no layer below (`map_shape_bound`), so what
it makes of each block can be read at the address of the block (`Pass.bounds_blankLines`).
-/

namespace JavaSource

/-! ### A run of white space -/

namespace Text

variable {limit : Nat} {t u : Text}

/-- The second text has no more blank lines than the limit, and is line feeds in front of the first
or of what follows a line feed of the first. -/
structure Bounds (limit : Nat) (t u : Text) : Prop where
  lineFeeds : u.lineFeeds ≤ limit + 1
  made : ∃ n kept, u = List.replicate n '\n' ++ kept ∧
    (kept = t ∨ ∃ dropped, t = dropped ++ '\n' :: kept)

theorem Bounds.mono {limit' : Nat} (h : t.Bounds limit u) (hle : limit ≤ limit') :
    t.Bounds limit' u :=
  ⟨Nat.le_trans h.lineFeeds (Nat.add_le_add_right hle 1), h.made⟩

theorem dropLines_eq_or {k : Nat} (h : k ≤ t.lineFeeds) :
    t.dropLines k = t ∨ ∃ dropped, t = dropped ++ '\n' :: t.dropLines k := by
  fun_induction dropLines k t with
  | case1 t => exact .inl rfl
  | case2 k => simp [lineFeeds] at h
  | case3 k rest ih =>
    rw [lineFeeds, List.count_cons_self] at h
    rcases ih (Nat.le_of_succ_le_succ h) with heq | ⟨dropped, heq⟩
    · exact .inr ⟨[], by rw [heq, List.nil_append]⟩
    · exact .inr ⟨'\n' :: dropped, by rw [List.cons_append, ← heq]⟩
  | case4 k c rest hc ih =>
    rw [lineFeeds, List.count_cons_of_ne hc] at h
    rcases ih h with heq | ⟨dropped, heq⟩
    · have hdropped := lineFeeds_dropLines (k + 1) rest
      rw [heq] at hdropped
      have hpos : k + 1 ≤ lineFeeds rest := h
      omega
    · exact .inr ⟨c :: dropped, by rw [List.cons_append, ← heq]⟩

theorem bounds_limitBlankLines (limit : Nat) (t : Text) : t.Bounds limit (t.limitBlankLines limit) where
  lineFeeds := by
    rw [lineFeeds_limitBlankLines]
    exact Nat.min_le_right _ _
  made := ⟨0, t.limitBlankLines limit, rfl, dropLines_eq_or (Nat.sub_le _ _)⟩

/-- Line breaks that are required are put in front. -/
theorem Bounds.requireBlankLines (h : t.Bounds limit u) (least : Nat) :
    t.Bounds (max limit least) (u.requireBlankLines least) := by
  unfold Text.requireBlankLines
  split
  · exact h.mono (Nat.le_max_left _ _)
  · obtain ⟨hle, n, kept, heq, hkept⟩ := h
    refine ⟨?_, least + 1 - u.lineFeeds + n, kept, ?_, hkept⟩
    · rw [lineFeeds_append, lineFeeds_replicate]
      omega
    · rw [← List.replicate_append_replicate, List.append_assoc, ← heq]

end Text

/-! ### A space -/

/-- The comment is the same but for the white space after it, which is bounded. -/
structure Comment.Bounds (limit : Nat) (c d : Comment) : Prop where
  style : d.style = c.style
  text : d.text = c.text
  suffix : c.suffix.Bounds limit d.suffix

namespace Space

variable {limit : Nat} {s u : Space}

/-- The white space at the start and after each comment is bounded. -/
structure Bounds (limit : Nat) (s u : Space) : Prop where
  whitespace : s.whitespace.Bounds limit u.whitespace
  comments : List.Forall₂ (Comment.Bounds limit) s.comments u.comments

theorem bounds_limitBlankLines (limit : Nat) (s : Space) :
    s.Bounds limit (s.limitBlankLines limit) :=
  ⟨Text.bounds_limitBlankLines limit _,
    forall₂_map (fun c => ⟨rfl, rfl, Text.bounds_limitBlankLines limit c.suffix⟩) s.comments⟩

theorem Bounds.requireBlankLines (h : s.Bounds limit u) (least : Nat) :
    s.Bounds (max limit least) (u.requireBlankLines least) := by
  have hmono {c d : Comment} (h : c.Bounds limit d) : c.Bounds (max limit least) d :=
    ⟨h.style, h.text, h.suffix.mono (Nat.le_max_left _ _)⟩
  obtain ⟨w, cs⟩ := s
  obtain ⟨w', cs'⟩ := u
  obtain ⟨hw, hcs⟩ := h
  cases hcs with
  | nil => exact ⟨hw.requireBlankLines least, .nil⟩
  | cons hc hrest =>
    have hrest := hrest.imp fun _ _ => hmono
    simp only [Space.requireBlankLines]
    split
    · exact ⟨hw.requireBlankLines least, .cons (hmono hc) hrest⟩
    · exact ⟨hw.mono (Nat.le_max_left _ _),
        .cons ⟨hc.style, hc.text, hc.suffix.requireBlankLines least⟩ hrest⟩

/-- A space that is limited, and then required to have blank lines. -/
theorem bounds_boundBlankLines (limit least : Nat) (s : Space) :
    s.Bounds (max limit least) ((s.limitBlankLines limit).requireBlankLines least) :=
  (s.bounds_limitBlankLines limit).requireBlankLines least

end Space

/-! ### A block -/

namespace BlankLineStyle

/-- The most blank lines that are kept in front of what stands in a block, given the kind of the
node above the block. -/
def kept (style : BlankLineStyle) (parent : Option NodeKind) : Nat :=
  if parent.any NodeKind.hasMembers then style.maximumInDeclarations else style.maximumInCode

/-- The blank lines that are required in front of what stands in a block, behind what stands before
it. -/
def required (style : BlankLineStyle) (parent : Option NodeKind) : Option Tree → Tree → Nat
  | none, _ => if parent == some .methodDeclaration then style.minimumBeforeMethodBody else 0
  | some previous, member =>
    if parent.any NodeKind.hasMembers then style.between previous member else 0

/-- The leading spaces in a block are bounded by a limit, or by what is required where that is
more. -/
inductive BoundsStatements (style : BlankLineStyle) (parent : Option NodeKind) (limit : Nat) :
    Option Tree → List (Followed Tree) → List (Followed Tree) → Prop where
  | nil {previous : Option Tree} : BoundsStatements style parent limit previous [] []
  | cons {previous : Option Tree} {x x' : Followed Tree} {xs xs' : List (Followed Tree)}
      (first : x.element.leading.Bounds (max limit (style.required parent previous x.element))
        x'.element.leading)
      (rest : BoundsStatements style parent limit (some x.element) xs xs') :
      BoundsStatements style parent limit previous (x :: xs) (x' :: xs')

/-- If the first layer is a block, so is the second, and the spaces in it are bounded: those in front
of what stands in it by the limit and by what is required, and that before its end. -/
def BoundsBlock (style : BlankLineStyle) (parent : Option NodeKind) (limit : Nat) :
    Shape Tree → Shape Tree → Prop
  | .block afterStatic statements beforeClose, y =>
    ∃ statements' beforeClose', y = .block afterStatic statements' beforeClose' ∧
      style.BoundsStatements parent limit none statements statements' ∧
        beforeClose.Bounds style.maximumBeforeBlockEnd beforeClose'
  | _, _ => True

variable (style : BlankLineStyle) (parent : Option NodeKind) {g : Tree → Tree}
  (hg : ∀ t, (g t).leading = t.leading)

include hg

theorem leading_boundBlankLines (limit least : Nat) (t : Tree) :
    (g (t.boundBlankLines limit least)).leading =
      (t.leading.limitBlankLines limit).requireBlankLines least := by
  rw [hg]
  cases t
  rfl

theorem boundsStatements_boundStatements (previous : Tree) (xs : List (Followed Tree)) :
    style.BoundsStatements parent (style.kept parent) (some previous) xs
      ((boundStatements (style.kept parent)
        (if parent.any NodeKind.hasMembers then style.between else fun _ _ => 0) previous xs).map
          (Followed.map g)) := by
  induction xs generalizing previous with
  | nil => exact .nil
  | cons x xs ih =>
    refine .cons ?_ (ih x.element)
    rw [Followed.map, Followed.map, leading_boundBlankLines hg, required]
    split <;> exact Space.bounds_boundBlankLines ..

/-- The rule of the pass bounds a block, whatever is made of the layers below. -/
theorem boundsBlock_bound (x : Shape Tree) :
    style.BoundsBlock parent (style.kept parent) x ((style.bound parent x).map g) := by
  cases x with
  | block afterStatic statements beforeClose =>
    refine ⟨(style.boundBlock parent statements).map (Followed.map g),
      beforeClose.limitBlankLines style.maximumBeforeBlockEnd, ?_, ?_,
      Space.bounds_limitBlankLines ..⟩
    · simp only [bound, Shape.map, Shape.traverse, SlotActions.ofMap, run_option_mapM,
        run_list_mapM, Id.run_bind, Id.run_pure]
      simp [Id.run]
    · cases statements with
      | nil => exact .nil
      | cons x xs =>
        refine .cons ?_ (boundsStatements_boundStatements style parent hg x.element xs)
        rw [Followed.map, Followed.map, leading_boundBlankLines hg, required]
        exact Space.bounds_boundBlankLines ..
  | _ => trivial

end BlankLineStyle

/-! ### A tree -/

section Shapes

theorem shape_mapLeading (f : Space → Space) (t : Tree) : (t.mapLeading f).shape = t.shape := by
  cases t
  rfl

theorem shape_boundStatements (limit : Nat) (least : Tree → Tree → Nat) (previous : Tree)
    (xs : List (Followed Tree)) :
    (boundStatements limit least previous xs).map (fun x => x.element.shape) =
      xs.map fun x => x.element.shape := by
  induction xs generalizing previous with
  | nil => rfl
  | cons x xs ih =>
    rw [boundStatements, List.map_cons, List.map_cons, ih, Followed.map, Tree.boundBlankLines,
      shape_mapLeading]

/-- The rule of the pass leaves the layers of the parts. -/
theorem BlankLineStyle.map_shape_bound (style : BlankLineStyle) (parent : Option NodeKind)
    (x : Shape Tree) : (style.bound parent x).children.map Tree.shape = x.children.map Tree.shape := by
  cases x with
  | block afterStatic statements beforeClose =>
    cases statements with
    | nil => rfl
    | cons x xs =>
      simp [bound, boundBlock, Shape.children, items, Followed.map, Tree.boundBlankLines,
        shape_mapLeading, Function.comp_def, shape_boundStatements]
  | compilationUnit u =>
    obtain ⟨package, imports, declarations, beforeEnd⟩ := u
    cases imports <;> cases declarations <;>
      simp [bound, boundUnit, mapFirst, Shape.children, items, Followed.map, Tree.boundBlankLines,
        shape_mapLeading, Function.comp_def]
  | _ => rfl

end Shapes

namespace Tree

/-- The kind of the node above the one at an address; for the root itself as is given. -/
def kindAbove (parent : Option NodeKind) (t : Tree) : List Nat → Option NodeKind
  | [] => parent
  | i :: rest => t.children[i]?.bind fun c => c.kindAbove (some t.kind) rest

/-- The node at an address is the body of a class or of an anonymous class. -/
def isBodyAt (t : Tree) : List Nat → Bool
  | [] => false
  | [i] =>
    match t.shape with
    | .classDeclaration _ => i + 1 == t.children.length
    | .newClass _ _ body _ => body.isSome && i + 1 == t.children.length
    | _ => false
  | i :: rest => t.children[i]?.any fun c => c.isBodyAt rest

section Rewriting

variable {F : Option NodeKind → Shape Tree → Shape Tree}
  {Q : Option NodeKind → Shape Tree → Shape Tree → Prop}

/-- What a rule for layers that leaves the layers of the parts makes of each layer can be read at
every address. -/
theorem rewriteWithin_subtreeAt (hF : Layering F)
    (hchildren : ∀ parent x, (F parent x).children.map shape = x.children.map shape)
    (hQ : ∀ parent x g, Steady g → Q parent x ((F parent x).map g)) (path : List Nat) {n : Nat}
    {parent : Option NodeKind} {t t' : Tree} (hn : t.height ≤ n) (ht : t'.shape = t.shape) :
    Option.Rel (fun v w => Q (t.kindAbove parent path) v.shape w.shape) (t.subtreeAt path)
      ((t'.rewriteWithin (relayer F) (fun _ s => s) n parent).subtreeAt path) := by
  induction path generalizing n parent t t' with
  | nil =>
    obtain - | n := n
    · rw [height_eq] at hn
      omega
    refine .some ?_
    rw [rewriteWithin_relayer, ht]
    exact hQ parent t.shape _ (hF.steady n _)
  | cons i rest ih =>
    obtain - | n := n
    · rw [height_eq] at hn
      omega
    have hkind : t'.kind = t.kind := congrArg Shape.kind ht
    have hparts := congrArg (·[i]?) (hchildren parent t.shape)
    have hrewritten {g : Tree → Tree} : (node t'.id t'.leading
        ((F parent t.shape).map g)).children[i]? = (F parent t.shape).children[i]?.map g := by
      rw [children, shape, Shape.children_map, List.getElem?_map]
    simp only [List.getElem?_map] at hparts
    rw [rewriteWithin_relayer, ht, hkind, subtreeAt, subtreeAt, hrewritten, kindAbove, children]
    cases hc : t.shape.children[i]? with
    | none =>
      rw [hc, Option.map_none, Option.map_eq_none_iff] at hparts
      rw [hparts]
      exact .none
    | some c =>
      rw [hc, Option.map_some, Option.map_eq_some_iff] at hparts
      obtain ⟨c', hc', hshape⟩ := hparts
      rw [hc']
      have hlt : c.height < t.height := height_lt_of_mem_children (List.mem_of_getElem? hc)
      exact ih (by omega) hshape

end Rewriting

theorem Steady.leading {g : Tree → Tree} (hg : Steady g) (t : Tree) :
    (g t).leading = t.leading := by
  have hsame : t.mapLeading (fun _ => t.leading) = t := by cases t; rfl
  have h := hg.mapLeading (fun _ => t.leading) t
  rw [hsame] at h
  rw [h]
  cases g t
  rfl

end Tree

/-! ### The pass -/

namespace Pass

/-- **Blank lines are bounded.** After the pass, what stands in a block has no more blank lines in
front of it than are kept there or required there, and the end of the block no more than are kept
there; and each run of white space is what it was, or what followed one of its line breaks, with
line breaks put in front.  More or fewer are kept right below a class or the creation of an object
than elsewhere. -/
theorem bounds_blankLines (styles : Styles) (t : Tree) :
    ∃ u, run styles none [.root] .blankLines t = .ok u ∧ ∀ path, Option.Rel
      (fun v w => styles.blankLines.BoundsBlock (t.kindAbove none path)
        (styles.blankLines.kept (t.kindAbove none path)) v.shape w.shape)
      (t.subtreeAt path) (u.subtreeAt path) := by
  have hF := layering_bound styles.blankLines
  refine ⟨_, runPlain_eq (Visitor.isLocal_ofNodes _) t, fun path => ?_⟩
  exact Tree.rewriteWithin_subtreeAt hF styles.blankLines.map_shape_bound
    (Q := fun parent x y => styles.blankLines.BoundsBlock parent (styles.blankLines.kept parent) x y)
    (fun parent x g hg => styles.blankLines.boundsBlock_bound parent hg.leading x) path
    (Nat.le_refl _) rfl

/-- A block with blank lines before a statement. -/
def spacedBlock : Tree :=
  .node 2 .empty (.block none [.bare (.node 3 (.blank ['\n', '\n', '\n']) .empty)] .empty)

/-- The creation of an object with a block among its arguments. -/
def blockArgument : Tree :=
  .node 0 .empty (.newClass (.node 1 .single (.identifier ['B'] none))
    ⟨.empty, [.bare spacedBlock]⟩ none none)

/-- A block among the arguments of a creation is not the body of its class, and keeps as many blank
lines as the body does. -/
theorem exists_argument_block : ¬ ∀ (styles : Styles) (t : Tree),
    ∃ u, run styles none [.root] .blankLines t = .ok u ∧ ∀ path, Option.Rel
      (fun v w => styles.blankLines.BoundsBlock (t.kindAbove none path)
        (if t.isBodyAt path then styles.blankLines.maximumInDeclarations
          else styles.blankLines.maximumInCode) v.shape w.shape)
      (t.subtreeAt path) (u.subtreeAt path) := by
  intro hbounds
  let styles : Styles := { blankLines := { maximumInCode := 0 } }
  have hrun : run styles none [.root] .blankLines blockArgument =
      .ok (blockArgument.rewrite (Tree.relayer styles.blankLines.bound) (fun _ s => s) none) :=
    runPlain_eq (Visitor.isLocal_ofNodes _) blockArgument
  rw [Tree.rewrite, show blockArgument.height = 3 by decide +kernel] at hrun
  obtain ⟨u, hu, hat⟩ := hbounds styles blockArgument
  obtain rfl := Except.ok.inj (hrun.symm.trans hu)
  have hblock := hat [1]
  rw [show blockArgument.subtreeAt [1] = some spacedBlock from rfl,
    show Tree.subtreeAt _ [1] = some spacedBlock from rfl] at hblock
  cases hblock with
  | some hblock =>
    obtain ⟨statements, beforeClose, hshape, hstatements, -⟩ := hblock
    cases hshape
    cases hstatements with
    | cons first rest => exact absurd first.whitespace.lineFeeds (by decide)

end Pass

end JavaSource
