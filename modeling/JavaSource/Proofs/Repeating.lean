import JavaSource.Format.Pass
import JavaSource.Proofs.LineBreaks
import JavaSource.Proofs.LocalDeletion

/-!
# Passes that need no repetition

A pass changes each node before it visits the parts, so when it runs again the rule of a node meets
parts that the pass has been to.  The rule may change the layer and the leading spaces of the parts.
Where the pass keeps the leading space of the node that it is at (`Tree.Steady`), the second run of
the rule finds what the first has left, and a pass that has nothing left to do at any layer
(`Tree.Layering.again`) has nothing left to do in the tree (`Tree.Layering.rewrite_rewrite`).

So it is with the gaps between words, the blank lines and the wrapped lines.  Bounded blank lines
stay as they are also where more of them are required than are kept (`Space.boundBlankLines_again`):
what the limit takes away from the required line breaks is put back.
-/

namespace JavaSource

/-! ### A change made again -/

namespace Tree

variable {f : Option NodeKind → Tree → Tree}

theorem Respaced.rewriteWithin (hf : ∀ parent (t : Tree), t.Respaced (f parent t)) (n : Nat)
    (parent : Option NodeKind) (t : Tree) :
    t.Respaced (t.rewriteWithin f (fun _ s => s) n parent) := by
  have C := Respaced.congruence
  induction n generalizing parent t with
  | zero => exact C.refl t
  | succ n ih =>
    rw [Tree.rewriteWithin]
    refine C.trans (hf parent t) ?_
    cases f parent t with
    | node i s x => exact C.node rfl (Shape.rel_respaced (fun c _ => ih _ c) fun _ _ => rfl)

/-- The change keeps the kind and the leading space of each node, whatever that space is, and there
is no more to change when it has been made. -/
structure Steady (g : Tree → Tree) : Prop where
  kind : ∀ t, (g t).kind = t.kind
  mapLeading : ∀ φ t, g (t.mapLeading φ) = (g t).mapLeading φ
  again : ∀ t, g (g t) = g t

/-- A rule that changes the layer of a node, given the kind of the node above, keeps its kind, and
changes nothing more when the parts have changed steadily. -/
structure Layering (F : Option NodeKind → Shape Tree → Shape Tree) : Prop where
  respaced : ∀ parent x, Shape.Respaced x (F parent x)
  again : ∀ {g}, Steady g → ∀ parent x, F parent ((F parent x).map g) = (F parent x).map g

variable {F : Option NodeKind → Shape Tree → Shape Tree}

/-- The change that a rule for layers makes at a node. -/
def relayer (F : Option NodeKind → Shape Tree → Shape Tree) (parent : Option NodeKind) (t : Tree) :
    Tree :=
  t.withShape (F parent t.shape)

theorem Layering.kind (hF : Layering F) (parent : Option NodeKind) (x : Shape Tree) :
    (F parent x).kind = x.kind :=
  (hF.respaced parent x).kind.symm

/-- One round of a rule for layers. -/
theorem rewriteWithin_relayer (n : Nat) (parent : Option NodeKind) (t : Tree) :
    t.rewriteWithin (relayer F) (fun _ s => s) (n + 1) parent =
      .node t.id t.leading ((F parent t.shape).map
        (rewriteWithin (relayer F) (fun _ s => s) n (some t.kind))) := by
  cases t with
  | node i s x => rfl

theorem Layering.steady (hF : Layering F) (n : Nat) (parent : Option NodeKind) :
    Steady (rewriteWithin (relayer F) (fun _ s => s) n parent) := by
  induction n generalizing parent with
  | zero => exact ⟨fun _ => rfl, fun _ _ => rfl, fun _ => rfl⟩
  | succ n ih =>
    have hkind (t : Tree) :
        (t.rewriteWithin (relayer F) (fun _ s => s) (n + 1) parent).kind = t.kind := by
      rw [rewriteWithin_relayer]
      exact (Shape.kind_map _ _).trans (hF.kind parent t.shape)
    refine ⟨hkind, fun φ t => ?_, fun t => ?_⟩
    · rw [rewriteWithin_relayer, rewriteWithin_relayer]
      cases t with
      | node i s x => rfl
    · rw [rewriteWithin_relayer, hkind, rewriteWithin_relayer]
      refine congrArg (node _ _) ?_
      rw [shape, hF.again (ih (some t.kind)), Shape.map_map]
      exact Shape.map_congr fun c _ => (ih (some t.kind)).again c

end Tree

/-! ### Gaps between words -/

theorem Space.orSingle_again (s : Space) : s.orSingle.orSingle = s.orSingle := by
  unfold orSingle
  cases h : s.isEmpty
  · simp [h]
  · rfl

section WordGap

variable {g : Tree → Tree} (G : Tree.Steady g)

include G

theorem Tree.Steady.separated (t : Tree) : (g t.separated).separated = g t.separated := by
  rw [Tree.separated, ← G.mapLeading, Tree.separated]
  cases t with
  | node i s x => exact congrArg (fun s => g (.node i s x)) s.orSingle_again

theorem Tree.Steady.separatedIf (preceded : Bool) (t : Tree) :
    (g (t.separatedIf preceded)).separatedIf preceded = g (t.separatedIf preceded) := by
  cases preceded
  · rfl
  · exact G.separated t

theorem Tree.Steady.separateFirst (xs : List (Followed Tree)) :
    separateFirst ((separateFirst xs).map (Followed.map g)) =
      (separateFirst xs).map (Followed.map g) := by
  cases xs with
  | nil => rfl
  | cons x xs => simp [JavaSource.separateFirst, mapFirst, Followed.map, G.separated]

theorem Tree.Steady.separateModifiers (annotations modifiers : List Tree) :
    separateModifiers (annotations.map g) ((separateModifiers annotations modifiers).map g) =
      (separateModifiers annotations modifiers).map g := by
  cases annotations <;> cases modifiers <;> simp [JavaSource.separateModifiers, G.separated]

theorem Tree.Steady.series_separated (s : Series Tree) :
    (s.separated.mapElements (List.map (Followed.map g))).separated =
      s.separated.mapElements (List.map (Followed.map g)) :=
  congrArg₂ Series.mk s.before.orSingle_again (G.separateFirst s.elements)

end WordGap

theorem Space.wrapped_again (s : Space) : s.wrapped.wrapped = s.wrapped :=
  if_pos s.hasNewline_wrapped

section Wrapping

variable {g : Tree → Tree} (G : Tree.Steady g)

include G

theorem Tree.Steady.wrapped (t : Tree) : (g t.wrapped).wrapped = g t.wrapped := by
  rw [Tree.wrapped, ← G.mapLeading, Tree.wrapped]
  cases t with
  | node i s x => exact congrArg (fun s => g (.node i s x)) s.wrapped_again

end Wrapping

namespace Text

theorem dropLines_replicate_append {k n : Nat} (h : k ≤ n) (t : Text) :
    dropLines k (List.replicate n '\n' ++ t) = List.replicate (n - k) '\n' ++ t := by
  induction k generalizing n with
  | zero => rw [dropLines, Nat.sub_zero]
  | succ k ih =>
    obtain - | n := n
    · omega
    · rw [List.replicate_succ, List.cons_append, dropLines, if_pos rfl, ih (by omega),
        Nat.add_sub_add_right]

theorem lineFeeds_dropLines (k : Nat) (t : Text) :
    (t.dropLines k).lineFeeds = t.lineFeeds - k := by
  fun_induction dropLines k t with
  | case1 t => rfl
  | case2 k => simp [lineFeeds]
  | case3 k rest ih => rw [ih, lineFeeds, lineFeeds, List.count_cons_self, Nat.add_sub_add_right]
  | case4 k c rest hc ih => rw [ih, lineFeeds, lineFeeds, List.count_cons_of_ne hc]

theorem lineFeeds_replicate (n : Nat) : lineFeeds (List.replicate n '\n') = n := by
  simp [lineFeeds]

theorem lineFeeds_limitBlankLines (limit : Nat) (t : Text) :
    (t.limitBlankLines limit).lineFeeds = min t.lineFeeds (limit + 1) := by
  rw [limitBlankLines, lineFeeds_dropLines]
  omega

theorem limitBlankLines_of_le {limit : Nat} {t : Text} (h : t.lineFeeds ≤ limit + 1) :
    t.limitBlankLines limit = t := by
  rw [limitBlankLines, Nat.sub_eq_zero_of_le h, dropLines]

theorem lineFeeds_le_requireBlankLines (least : Nat) (t : Text) :
    t.lineFeeds ≤ (t.requireBlankLines least).lineFeeds := by
  rw [requireBlankLines]
  split
  · exact Nat.le_refl _
  · rw [lineFeeds_append]
    exact Nat.le_add_left _ _

/-- Where no more line breaks stand than the limit keeps, those above the limit that are required go
and come back. -/
theorem requireBlankLines_again {limit : Nat} (least : Nat) {t : Text}
    (h : t.lineFeeds ≤ limit + 1) :
    ((t.requireBlankLines least).limitBlankLines limit).requireBlankLines least =
      t.requireBlankLines least := by
  by_cases hleast : least = 0
  · simp only [requireBlankLines, hleast, if_true]
    exact limitBlankLines_of_le h
  · have hkept : (t.requireBlankLines least).limitBlankLines limit =
        List.replicate (least + 1 - t.lineFeeds - (least - limit)) '\n' ++ t := by
      rw [requireBlankLines, if_neg hleast, limitBlankLines, lineFeeds_append, lineFeeds_replicate,
        dropLines_replicate_append (by omega)]
      congr 2
      omega
    rw [hkept, requireBlankLines, if_neg hleast, lineFeeds_append, lineFeeds_replicate,
      ← List.append_assoc, List.replicate_append_replicate, requireBlankLines, if_neg hleast]
    congr 2
    omega

end Text

namespace Space

/-- No run of white space has more blank lines than the limit. -/
structure Limited (limit : Nat) (s : Space) : Prop where
  whitespace : s.whitespace.lineFeeds ≤ limit + 1
  comments : ∀ c ∈ s.comments, c.suffix.lineFeeds ≤ limit + 1

theorem limited_limitBlankLines (limit : Nat) (s : Space) :
    (s.limitBlankLines limit).Limited limit where
  whitespace := by
    rw [limitBlankLines, map, Text.lineFeeds_limitBlankLines]
    exact Nat.min_le_right _ _
  comments c hc := by
    obtain ⟨d, -, rfl⟩ := List.mem_map.1 hc
    rw [Comment.limitBlankLines, Text.lineFeeds_limitBlankLines]
    exact Nat.min_le_right _ _

variable {limit : Nat} {s : Space}

theorem Limited.limit_comments {cs : List Comment} (h : ∀ c ∈ cs, c.suffix.lineFeeds ≤ limit + 1) :
    cs.map (Comment.limitBlankLines limit) = cs := by
  conv => rhs; rw [← List.map_id cs]
  refine List.map_congr_left fun c hc => ?_
  rw [Comment.limitBlankLines, Text.limitBlankLines_of_le (h c hc), id]

theorem Limited.limitBlankLines (h : s.Limited limit) : s.limitBlankLines limit = s :=
  congrArg₂ Space.mk (Text.limitBlankLines_of_le h.whitespace) (limit_comments h.comments)

theorem Limited.requireBlankLines (h : s.Limited limit) (least : Nat) :
    ((s.requireBlankLines least).limitBlankLines limit).requireBlankLines least =
      s.requireBlankLines least := by
  obtain ⟨w, cs⟩ := s
  obtain ⟨hw, hcs⟩ := h
  cases cs with
  | nil => exact congrArg (Space.mk · []) (Text.requireBlankLines_again least hw)
  | cons c cs =>
    obtain ⟨hc, hrest⟩ := List.forall_mem_cons.1 hcs
    have hlimit : (c :: cs).map (Comment.limitBlankLines limit) = c :: cs := limit_comments hcs
    by_cases hline : w.contains '\n'
    · have hstays : ((w.requireBlankLines least).limitBlankLines limit).contains '\n' := by
        have hpos := Text.contains_newline.1 hline
        have hle := Text.lineFeeds_le_requireBlankLines least w
        rw [Text.contains_newline, Text.lineFeeds_limitBlankLines]
        omega
      simp only [Space.requireBlankLines, if_pos hline, Space.limitBlankLines, map, hlimit,
        if_pos hstays, Text.requireBlankLines_again least hw]
    · simp only [Space.requireBlankLines, if_neg hline, Space.limitBlankLines, map, List.map_cons,
        Text.limitBlankLines_of_le hw, limit_comments hrest, Comment.limitBlankLines,
        Text.requireBlankLines_again least hc]

theorem boundBlankLines_again (limit least : Nat) (s : Space) :
    (((s.limitBlankLines limit).requireBlankLines least).limitBlankLines limit).requireBlankLines
        least =
      (s.limitBlankLines limit).requireBlankLines least :=
  (s.limited_limitBlankLines limit).requireBlankLines least

end Space

section BlankLines

variable {g : Tree → Tree} (G : Tree.Steady g)

include G

theorem Tree.Steady.boundBlankLines (limit least : Nat) (t : Tree) :
    (g (t.boundBlankLines limit least)).boundBlankLines limit least =
      g (t.boundBlankLines limit least) := by
  rw [Tree.boundBlankLines, ← G.mapLeading, Tree.boundBlankLines]
  cases t with
  | node i s x => exact congrArg (fun s => g (.node i s x)) (s.boundBlankLines_again limit least)

omit G in
theorem Tree.boundBlankLines_require (limit least : Nat) (t : Tree) :
    (t.boundBlankLines limit 0).mapLeading (Space.requireBlankLines least) =
      t.boundBlankLines limit least := by
  have hzero (s : Space) : s.requireBlankLines 0 = s := by
    obtain ⟨w, cs⟩ := s
    cases cs <;> simp [Space.requireBlankLines, Text.requireBlankLines]
  cases t with
  | node i s x => simp [boundBlankLines, mapLeading, hzero]

theorem boundStatements_again (limit : Nat) {least : Tree → Tree → Nat}
    (hleast : ∀ {a a' b b' : Tree}, a.kind = a'.kind → b.kind = b'.kind → least a b = least a' b')
    {previous previous' : Tree} (hprevious : previous'.kind = previous.kind)
    (xs : List (Followed Tree)) :
    boundStatements limit least previous'
        ((boundStatements limit least previous xs).map (Followed.map g)) =
      (boundStatements limit least previous xs).map (Followed.map g) := by
  induction xs generalizing previous previous' with
  | nil => rfl
  | cons x xs ih =>
    have hkind (k : Nat) : (g (x.element.boundBlankLines limit k)).kind = x.element.kind := by
      rw [G.kind]
      cases x.element
      rfl
    simp only [boundStatements, List.map_cons, Followed.map, hleast hprevious (hkind _),
      G.boundBlankLines, ih (hkind _)]

theorem boundBlock_again (style : BlankLineStyle) (parent : Option NodeKind)
    (xs : List (Followed Tree)) :
    style.boundBlock parent ((style.boundBlock parent xs).map (Followed.map g)) =
      (style.boundBlock parent xs).map (Followed.map g) := by
  have hbetween {a a' b b' : Tree} (ha : a.kind = a'.kind) (hb : b.kind = b'.kind) :
      style.between a b = style.between a' b' := by
    rw [BlankLineStyle.between, BlankLineStyle.between, ha, hb]
  cases xs with
  | nil => rfl
  | cons x xs =>
    have hkind (m k : Nat) : (g (x.element.boundBlankLines m k)).kind = x.element.kind := by
      rw [G.kind]
      cases x.element
      rfl
    simp only [BlankLineStyle.boundBlock, List.map_cons, Followed.map, G.boundBlankLines]
    split
    · rw [boundStatements_again G _ hbetween (hkind _ _)]
    · rw [boundStatements_again G _ (fun _ _ => rfl) (hkind _ _)]

theorem BlankLineStyle.bound_again (style : BlankLineStyle) (parent : Option NodeKind)
    (x : Shape Tree) :
    style.bound parent ((style.bound parent x).map g) = (style.bound parent x).map g := by
  cases x
  case unary beforeOperator operator operand => cases operator <;> rfl
  all_goals
    simp only [Shape.map, Shape.traverse, SlotActions.ofMap, BlankLineStyle.bound, run_option_mapM,
      run_list_mapM, Id.run_bind, Id.run_pure]
    try simp only [Id.run]
  case block afterStatic statements beforeClose =>
    rw [(beforeClose.limited_limitBlankLines _).limitBlankLines]
    exact congrArg (Shape.block _ · _) (boundBlock_again G style parent statements)
  case compilationUnit u =>
    obtain ⟨package, imports, declarations, beforeEnd⟩ := u
    cases imports <;> cases declarations <;>
      simp [BlankLineStyle.boundUnit, mapFirst, Followed.map, Tree.boundBlankLines_require,
        G.boundBlankLines]

end BlankLines

theorem layering_bound (style : BlankLineStyle) : Tree.Layering style.bound where
  respaced := BlankLineStyle.rel_bound Tree.Respaced.congruence
    (fun limit _ s => (s.ink_limitBlankLines limit).symm)
    (fun least _ s => (s.ink_requireBlankLines least).symm) style
  again G := BlankLineStyle.bound_again G style

end JavaSource
