import JavaSource.Proofs.BlockStructure
import JavaSource.Proofs.GatheredText
import JavaSource.Proofs.Indenting
import JavaSource.Proofs.Nesting
import JavaSource.Proofs.Partition
import JavaSource.Proofs.PassFrames

/-!
# The first line of an indented tree

The indenter moves what starts a line.  So what a tree without comments prints up to its first line
feed stays (`Tree.sharesFirstLine_of_run`), if the tree holds no whole file.  In a parsed tree nothing
but blanks stands there in front of a token (`Tree.isBlankChar_of_parseFrom`).
-/

namespace JavaSource

namespace Text

/-- The text through its first line feed; all of it if there is none. -/
def firstLine : Text → Text
  | [] => []
  | c :: rest => if c = '\n' then [c] else c :: firstLine rest

theorem firstLine_prefix (t : Text) : t.firstLine <+: t := by
  induction t with
  | nil => exact List.prefix_rfl
  | cons c rest ih =>
    rw [firstLine]
    split
    · exact List.cons_prefix_cons.2 ⟨rfl, List.nil_prefix⟩
    · exact List.cons_prefix_cons.2 ⟨rfl, ih⟩

theorem mem_firstLine {t : Text} : '\n' ∈ t.firstLine ↔ '\n' ∈ t := by
  induction t with
  | nil => exact Iff.rfl
  | cons c rest ih =>
    rw [firstLine]
    split
    next hc => simp [hc]
    next hc => simp [ih, Ne.symm hc]

theorem firstLine_append_of_mem {t : Text} (h : '\n' ∈ t) (u : Text) :
    (t ++ u).firstLine = t.firstLine := by
  induction t with
  | nil => cases h
  | cons c rest ih =>
    rw [List.cons_append, firstLine, firstLine]
    split
    · rfl
    next hc =>
      rw [ih ((List.mem_cons.1 h).resolve_left (Ne.symm hc))]

theorem firstLine_append_of_not_mem {t : Text} (h : '\n' ∉ t) (u : Text) :
    (t ++ u).firstLine = t ++ u.firstLine := by
  induction t with
  | nil => rfl
  | cons c rest ih =>
    rw [List.mem_cons, not_or] at h
    rw [List.cons_append, firstLine, if_neg (Ne.symm h.1), ih h.2]
    rfl

theorem firstLine_append {t t' u u' : Text} (ht : t'.firstLine = t.firstLine)
    (hu : u'.firstLine = u.firstLine) : (t' ++ u').firstLine = (t ++ u).firstLine := by
  have hmem : '\n' ∈ t' ↔ '\n' ∈ t := by rw [← mem_firstLine, ht, mem_firstLine]
  by_cases h : '\n' ∈ t
  · rw [firstLine_append_of_mem h, firstLine_append_of_mem (hmem.2 h), ht]
  · have h' : '\n' ∉ t' := fun h' => h (hmem.1 h')
    have hall {t : Text} (h : '\n' ∉ t) : t.firstLine = t := by
      simpa [firstLine] using firstLine_append_of_not_mem h []
    rw [hall h, hall h'] at ht
    rw [ht, firstLine_append_of_not_mem h, firstLine_append_of_not_mem h, hu]

theorem Reindented.firstLine {t t' : Text} (h : t.Reindented t') : t'.firstLine = t.firstLine := by
  have hthrough {t : Text} (ht : '\n' ∈ t) : t.firstLine = t.throughLastLineFeed.firstLine := by
    have hmem : '\n' ∈ t.throughLastLineFeed := by
      rw [← List.count_pos_iff] at ht ⊢
      rwa [show List.count '\n' t.throughLastLineFeed = _ from lineFeeds_throughLastLineFeed t]
    conv => lhs; rw [← throughLastLineFeed_append_lastLine t]
    exact firstLine_append_of_mem hmem _
  by_cases ht : '\n' ∈ t
  · have ht' : '\n' ∈ t' := by
      rw [← List.count_pos_iff] at ht ⊢
      rwa [show List.count '\n' t' = _ from h.lineFeeds]
    rw [hthrough ht, hthrough ht', h.through]
  · rw [h.inLine ht]

end Text

/-! ### Trees without comments -/

theorem Space.toText_of_comments {s : Space} (h : s.comments = []) : s.toText = s.whitespace := by
  rw [toText, h]
  exact List.append_nil _

/-- A space without comments keeps what stands in it through its first line feed, unless a whole file
stands after it. -/
def Space.SharesFirstLine (l : SpaceSlot) (s s' : Space) : Prop :=
  l ≠ .leading .compilationUnit → s.comments = [] →
    s'.comments = [] ∧ s'.whitespace.firstLine = s.whitespace.firstLine

theorem IndentStyle.sharesFirstLine_indentSpace (style : IndentStyle) {l : SpaceSlot} (column : Int)
    {s : Space} (hl : IsIndented l s) : s.SharesFirstLine l (style.indentSpace l column s) := by
  intro hfile hs
  have hinLine : s.InLine := by
    rw [Space.InLine, hs]
    exact List.forall_mem_nil _
  have h := style.reindents_indentSpace column hl hinLine
  refine ⟨h.comments_eq_nil.2 hs, ?_⟩
  rcases h.whitespace with hre | ⟨hslot, -⟩ | ⟨⟨hne, -⟩, -⟩
  · exact hre.firstLine
  · exact absurd hslot hfile
  · exact absurd hs hne

namespace Tree

/-- A tree without comments that holds no whole file. -/
def Quiet (t : Tree) : Prop := ∀ p ∈ t.spaces, p.1 ≠ .leading .compilationUnit ∧ p.2.comments = []

theorem quiet_iff {t : Tree} : t.Quiet ↔
    (t.kind ≠ .compilationUnit ∧ t.leading.comments = []) ∧
    (∀ p ∈ t.shape.unprinted, p.1 ≠ .leading .compilationUnit ∧ p.2.comments = []) ∧
    ∀ p ∈ t.shape.pieces, ∀ q ∈ pieceSpacesWith Shape.unprinted p,
      q.1 ≠ .leading .compilationUnit ∧ q.2.comments = [] := by
  rw [Quiet, spaces_eq_spacesWith, spacesWith_eq, List.forall_mem_append, List.forall_mem_cons,
    List.forall_mem_flatMap, and_assoc]
  simp

/-- The second tree is the first with other spaces, and prints the same through the first line
feed. -/
structure SharesFirstLine (t u : Tree) : Prop where
  differs : t.Differs Space.SharesFirstLine u
  firstLine : t.Quiet → u.toText.firstLine = t.toText.firstLine

namespace SharesFirstLine

variable {t u : Tree}

theorem quiet (h : t.SharesFirstLine u) (ht : t.Quiet) : u.Quiet :=
  h.differs.forall_mem_spaces
    (P := fun l s => l ≠ .leading .compilationUnit ∧ s.comments = [])
    (Q := fun l s => l ≠ .leading .compilationUnit ∧ s.comments = []) ht
    fun _ _ _ hs hP => ⟨hP.1, (hs hP.1 hP.2).1⟩

theorem trans {v : Tree} (h : t.SharesFirstLine u) (h' : u.SharesFirstLine v) :
    t.SharesFirstLine v where
  differs :=
    { bare := h.differs.bare.trans h'.differs.bare
      spaces := by
        refine forall₂_trans (InOneSlot.trans fun l s s' s'' hs hs' hl hcomments => ?_)
          h.differs.spaces h'.differs.spaces
        obtain ⟨hcomments', hline⟩ := hs hl hcomments
        obtain ⟨hcomments'', hline'⟩ := hs' hl hcomments'
        exact ⟨hcomments'', hline'.trans hline⟩ }
  firstLine ht := (h'.firstLine (h.quiet ht)).trans (h.firstLine ht)

theorem pieceText {p q : Piece Tree} (h : Piece.Rel SharesFirstLine Space.SharesFirstLine p q)
    (hp : ∀ r ∈ pieceSpacesWith Shape.unprinted p,
      r.1 ≠ .leading .compilationUnit ∧ r.2.comments = []) :
    (Tree.pieceText q).firstLine = (Tree.pieceText p).firstLine := by
  cases h with
  | word => rfl
  | @space l s s' hs =>
    obtain ⟨hl, hcomments⟩ := hp (l, s) List.mem_cons_self
    obtain ⟨hcomments', hline⟩ := hs hl hcomments
    rw [Tree.pieceText, Tree.pieceText, Space.toText_of_comments hcomments,
      Space.toText_of_comments hcomments', hline]
  | @part a b hab =>
    refine hab.firstLine fun r hr => hp r ?_
    rwa [spaces_eq_spacesWith] at hr
  | @terminator a b hab =>
    rw [Tree.pieceText, Tree.pieceText, ← needsSemicolon_bare a, hab.differs.bare,
      needsSemicolon_bare]

theorem congruence : Congruence SharesFirstLine Space.SharesFirstLine where
  space _ _ _ hs := ⟨hs, rfl⟩
  trans := trans
  node {i s s' x y} hs h :=
    { differs :=
        { bare := bare_node (fun _ _ h => h.differs.bare) h
          spaces := forall₂_spaces_node (fun _ _ h => h.differs.spaces) hs h }
      firstLine := fun ht => by
        obtain ⟨⟨hkind, hcomments⟩, -, hpieces⟩ := quiet_iff.1 ht
        obtain ⟨hcomments', hline⟩ := hs (fun hl => hkind (SpaceSlot.leading.inj hl)) hcomments
        have htexts : Text.firstLine (y.pieces.flatMap Tree.pieceText) =
            Text.firstLine (x.pieces.flatMap Tree.pieceText) := by
          have hps := h.pieces
          have hpieces : ∀ p ∈ x.pieces, _ := hpieces
          generalize x.pieces = ps, y.pieces = qs at hps hpieces ⊢
          induction hps with
          | nil => rfl
          | cons hpq _ ih =>
            rw [List.forall_mem_cons] at hpieces
            rw [List.flatMap_cons, List.flatMap_cons]
            exact Text.firstLine_append (pieceText hpq hpieces.1) (ih hpieces.2)
        have hcomments : s.comments = [] := hcomments
        rw [toText_eq, toText_eq, Tree.leading, Tree.leading, Space.toText_of_comments hcomments,
          Space.toText_of_comments hcomments']
        exact Text.firstLine_append hline htexts }

end SharesFirstLine

/-- Only a whole file has the space in front of one. -/
theorem ne_file_of_mem_spaces {t : Tree} (hn : t.Nested) (ht : t.kind ≠ .compilationUnit) :
    ∀ p ∈ t.spaces, p.1 ≠ .leading .compilationUnit := by
  induction t using Tree.induction with
  | node t ih =>
    obtain ⟨hnested, hn⟩ := nested_iff.1 hn
    rw [spaces_eq, List.forall_mem_cons, List.forall_mem_flatMap]
    refine ⟨fun hl => ht (SpaceSlot.leading.inj hl), fun p hp => ?_⟩
    have hpart {c : Tree} (hc : .part c ∈ p.pieces) :
        ∀ q ∈ c.spaces, q.1 ≠ .leading .compilationUnit := by
      have hc : c ∈ t.children := Shape.mem_children_of_slot hp hc
      exact ih c hc (hn c hc) (hnested c hc).file
    have hfollowed (l : FollowedSlot) (x : Followed Tree) (hx : .part x.element ∈ p.pieces) :
        ∀ q ∈ (Slot.followed l x).spaces, q.1 ≠ .leading .compilationUnit := by
      rw [Slot.spaces_followed, List.forall_mem_append]
      exact ⟨hpart hx, List.forall_mem_singleton.2 (by simp)⟩
    have hfits := t.shape.fits_slots p hp
    cases p with
    | part c =>
      rw [Slot.spaces_part]
      exact hpart List.mem_cons_self
    | space l s =>
      refine List.forall_mem_singleton.2 ?_
      rintro rfl
      revert hfits
      cases t.shape.kind <;> simp [Slot.Fits, NodeKind.spaceSlots]
    | followed l x => exact hfollowed l x List.mem_cons_self
    | preceded l x =>
      have hspaces : (Slot.preceded l x).spaces = (.before l, x.before) :: x.element.spaces := by
        simp [Slot.spaces, Slot.mets, Slot.pieces, pieceMets, Met.space?, spaces]
      rw [hspaces, List.forall_mem_cons]
      exact ⟨by simp, hpart (List.mem_cons_of_mem _ List.mem_cons_self)⟩
    | word l s => exact List.forall_mem_singleton.2 (by simp)
    | series l s =>
      rw [Slot.spaces_series, List.forall_mem_cons, List.forall_mem_flatMap]
      refine ⟨by simp, fun x hx => hfollowed _ x ?_⟩
      exact Shape.mem_pieces_series hx List.mem_cons_self

theorem leading_mem_spaces (t : Tree) : (SpaceSlot.leading t.kind, t.leading) ∈ t.spaces := by
  rw [spaces_eq]
  exact List.mem_cons_self

/-- The spaces of a node are spaces of the tree. -/
theorem spaces_subset {t n : Tree} (hn : n ∈ t.preorder) : n.spaces ⊆ t.spaces := by
  induction t using Tree.induction with
  | node t ih =>
    rw [preorder_eq, List.mem_cons, List.mem_flatMap] at hn
    rcases hn with rfl | ⟨c, hc, hn⟩
    · exact List.Subset.refl _
    · refine List.Subset.trans (ih c hc hn) fun q hq => ?_
      have hc : .part c ∈ t.shape.pieces := by
        rw [children, ← Shape.parts_pieces] at hc
        obtain ⟨p, hp, heq⟩ := List.mem_filterMap.1 hc
        obtain rfl : p = .part c := by
          cases p <;> cases heq
          rfl
        exact hp
      rw [spaces_eq_spacesWith] at hq
      rw [spaces_eq_spacesWith, spacesWith_eq]
      exact List.mem_append_right _ (List.mem_flatMap.2 ⟨_, hc, hq⟩)

/-- The indenter keeps the first line of a tree without comments. -/
theorem sharesFirstLine_of_run {style : IndentStyle} {n : Nat} {t u : Tree}
    {w w' : Traversal IndentNote Unit} (ht : FitsBelow w.trail.values t)
    (h : ((indenter style none).visitWithin n t).run w = .ok (u, w')) : t.SharesFirstLine u := by
  obtain ⟨v, w'', hrun, hv, -⟩ := yields_visitWithin_indenter SharesFirstLine.congruence
    (fun l column _ hl => style.sharesFirstLine_indentSpace column hl) n ht w rfl
  rw [h] at hrun
  cases hrun
  exact hv

/-- Only blanks stand in front of the tokens and the comments of a parsed tree. -/
theorem isBlankChar_of_parseFrom {kind : SourceKind} {source : Text} {firstId nextId : NodeId}
    {t : Tree} (h : parseFrom kind source firstId = .ok (t, nextId)) :
    ∀ p ∈ t.spaces, ∀ c ∈ p.2.whitespace, Lexeme.isBlankChar c := by
  obtain ⟨ts, hlex, hts⟩ := fromGaps_of_parseFrom h
  intro p hp
  rcases hts p hp with hempty | ⟨k, hk, hgap⟩
  · rw [hempty]
    exact List.forall_mem_nil _
  · obtain ⟨rest, htrivia⟩ := (lexed_of_lex hlex).trivia hk
    rw [hgap]
    exact htrivia.spaced.1

end Tree

end JavaSource
