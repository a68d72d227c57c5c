import JavaSource.Indent.Visitor
import JavaSource.Proofs.LineBreaks
import JavaSource.Proofs.Lines
import JavaSource.Proofs.Nesting
import JavaSource.Proofs.Rebuilding

/-!
# Block-structured trees and their columns

In a block-structured tree only statements start lines, and what closes a block or goes on with a
statement (`Tree.BlockStructured`).  `Tree.aligned` moves each of them to the column of its place,
given the column of the line above.  What stands in an expression or a simple statement stays as it
is (`Tree.aligned_of_flat`).
-/

namespace JavaSource

/-! ### Columns of texts and spaces -/

namespace IndentStyle

variable (style : IndentStyle)

theorem foldl_advance_replicate {c : Char} {columns : Nat}
    (hc : ∀ column, style.advance column c = column + columns) (n column : Nat) :
    (List.replicate n c).foldl style.advance column = column + n * columns := by
  induction n generalizing column with
  | zero => simp
  | succ n ih => rw [List.replicate_succ, List.foldl_cons, hc, ih, Nat.succ_mul]; omega

/-- An indentation is as wide as it should be. -/
theorem width_indentation (columns : Nat) : style.width (style.indentation columns) = columns := by
  have hblank (n column : Nat) : (List.replicate n ' ').foldl style.advance column = column + n * 1 :=
    style.foldl_advance_replicate (fun _ => rfl) n column
  have htab (n column : Nat) : (List.replicate n '\t').foldl style.advance column =
      column + n * style.tabColumns :=
    style.foldl_advance_replicate (fun _ => rfl) n column
  rw [width, indentation]
  split
  · rw [List.foldl_append, htab, hblank, Nat.zero_add, Nat.mul_one, Nat.mul_comm]
    exact Nat.div_add_mod columns style.tabColumns
  · rw [hblank, Nat.zero_add, Nat.mul_one]

theorem width_lastLine_reindent (column : Nat) (t : Text) :
    style.width (style.reindent column t).lastLine = column := by
  rw [reindent, Text.lastLine_append (style.not_mem_indentation _),
    Text.lastLine_throughLastLineFeed, List.nil_append, width_indentation, Int.toNat_natCast]

/-- Moves the token after a space to a column, if it starts a line. -/
def moveToken (column : Nat) (slot : SpaceSlot) (s : Space) : Space :=
  if s.hasNewline then style.indentSpace slot column s else s

theorem moveToken_of_inline {column : Nat} {slot : SpaceSlot} {s : Space} (h : s.hasNewline = false) :
    style.moveToken column slot s = s := by
  rw [moveToken, h]
  rfl

theorem hasNewline_moveToken {slot : SpaceSlot} (hslot : slot ≠ .leading .compilationUnit)
    (column : Nat) (s : Space) : (style.moveToken column slot s).hasNewline = s.hasNewline := by
  rw [moveToken]
  split
  case isTrue h => rw [h, (style.keeps_indentSpace hslot column s).hasNewline h]
  case isFalse => rfl

/-- A token that starts a line is moved to its column, or as far to the left as there are columns. -/
theorem columnAfter_indentSpace {l : SpaceSlot} (hl : l ≠ .leading .compilationUnit) (column : Int)
    {s : Space} (hs : s.comments = []) (h : s.hasNewline) :
    style.columnAfter (style.indentSpace l column s) = column.toNat := by
  obtain ⟨w, cs⟩ := s
  obtain rfl : cs = [] := hs
  have hw : w.contains '\n' := h
  have hspace : style.indentSpace l column ⟨w, []⟩ = ⟨style.indentBlank l column w, []⟩ := rfl
  rw [hspace, indentBlank, if_neg (by simp [hl]), hw, Bool.true_and]
  split
  · exact style.width_lastLine_reindent column.toNat w
  · next hcolumn =>
    have hwidth : (style.width w.lastLine : Int) = column := by
      simpa only [ne_eq, decide_not, Bool.not_eq_true', decide_eq_false_iff_not,
        Decidable.not_not] using hcolumn
    exact congrArg Int.toNat hwidth

theorem columnAfter_moveToken {slot : SpaceSlot} (hslot : slot ≠ .leading .compilationUnit)
    (column : Nat) {s : Space} (hs : s.comments = []) (h : s.hasNewline) :
    style.columnAfter (style.moveToken column slot s) = column := by
  rw [moveToken, if_pos h]
  exact style.columnAfter_indentSpace hslot column hs h

/-- White space at the start of a file goes. -/
theorem hasNewline_moveToken_file {s : Space} (hs : s.comments = []) :
    (style.moveToken 0 (.leading .compilationUnit) s).hasNewline = false := by
  obtain ⟨w, cs⟩ := s
  obtain rfl : cs = [] := hs
  rw [moveToken]
  split
  · next h =>
    have hw : w ≠ [] := by
      rintro rfl
      cases h
    simp [indentSpace, indentBlank, hw, Space.hasNewline, Space.lastWhitespace]
  · next h => exact Bool.eq_false_iff.2 h

end IndentStyle

/-! ### Block-structured trees -/

/-- A line may start behind this space. -/
def SpaceSlot.mayBreak : SpaceSlot → Bool
  | .blockEnd | .before .finallyBlock | .endOfUnit => true
  | _ => false

namespace Shape

/-- The parts that go on in the line of what is before them: all but the statements of a block, those
of a case that are no blocks, `else`, `catch`, and what a file holds. -/
def inlineParts : Shape Tree → List Tree
  | block .. | compilationUnit _ => []
  | caseClause value statements =>
    value.toList ++ (items statements.elements).filter fun t => t.kind == .block
  | ifStatement condition thenPart alternative =>
    condition :: thenPart.element :: alternative.toList.filter fun t => t.kind != .elsePart
  | tryStatement body catches finallyBlock =>
    body :: (catches.filter (fun t => t.kind != .catchClause) ++
      (finallyBlock.map Preceded.element).toList)
  | x => x.children

/-- The spaces of a layer with their slots, in the order in which a visit meets them. -/
def spaces (x : Shape Tree) : List (SpaceSlot × Space) :=
  x.met.filterMap fun
    | .space l s => some (l, s)
    | _ => none

/-- A layer without annotations, comments and blocks in expressions, where lines start only with
statements, with what goes on with a statement, and with what closes a block. -/
structure BlockStructured (x : Shape Tree) : Prop where
  kind : x.kind ≠ .annotationUse
  body : x.kind.mayHaveBody → ∀ c ∈ x.children, c.kind ≠ .block
  parts : ∀ c ∈ x.inlineParts, c.leading.hasNewline = false
  spaces : ∀ p ∈ x.spaces, p.2.comments = [] ∧ (p.2.hasNewline → p.1.mayBreak)

instance (x : Shape Tree) : Decidable x.BlockStructured :=
  decidable_of_iff (x.kind ≠ .annotationUse ∧
      (x.kind.mayHaveBody → ∀ c ∈ x.children, c.kind ≠ .block) ∧
      (∀ c ∈ x.inlineParts, c.leading.hasNewline = false) ∧
      ∀ p ∈ x.spaces, p.2.comments = [] ∧ (p.2.hasNewline → p.1.mayBreak))
    ⟨fun ⟨kind, body, parts, spaces⟩ => ⟨kind, body, parts, spaces⟩,
      fun ⟨kind, body, parts, spaces⟩ => ⟨kind, body, parts, spaces⟩⟩

end Shape

/-- A part of this kind may start a line in a node of the other kind. -/
def NodeKind.mayStartIn (k : NodeKind) : NodeKind → Bool
  | .block | .compilationUnit => true
  | .caseClause => k != .block
  | .ifStatement => k == .elsePart
  | .tryStatement => k == .catchClause
  | _ => false

theorem Shape.BlockStructured.mayStartIn {x : Shape Tree} (hx : x.BlockStructured) {c : Tree}
    (hc : c ∈ x.children) (h : c.leading.hasNewline) : c.kind.mayStartIn x.kind := by
  have hparts : c ∉ x.inlineParts := fun hc => by
    rw [hx.parts c hc] at h
    cases h
  cases x
  case block => rfl
  case compilationUnit => rfl
  case caseClause value statements =>
    simp only [children, inlineParts, List.mem_append, List.mem_filter, not_or] at hc hparts
    have hstatement := hc.resolve_left hparts.1
    simpa [NodeKind.mayStartIn, Shape.kind, hstatement] using hparts.2
  case ifStatement condition thenPart alternative =>
    simp only [children, inlineParts, List.mem_cons, List.mem_filter, not_or] at hc hparts
    have helse := (hc.resolve_left hparts.1).resolve_left hparts.2.1
    simpa [NodeKind.mayStartIn, Shape.kind, helse] using hparts.2.2
  case tryStatement body catches finallyBlock =>
    simp only [children, inlineParts, List.cons_append, List.mem_cons, List.mem_append,
      List.mem_filter, not_or] at hc hparts
    have hcatch := (hc.resolve_left hparts.1).resolve_right hparts.2.2
    simpa [NodeKind.mayStartIn, Shape.kind, hcatch] using hparts.2.1
  all_goals exact absurd hc hparts

/-! ### Slots of block-structured layers -/

theorem SpaceSlot.closes_of_mayBreak {l : SpaceSlot} (h : l.mayBreak) :
    l.closes ∨ l = .endOfUnit := by
  unfold mayBreak at h
  split at h
  · exact .inl rfl
  · exact .inl rfl
  · exact .inr rfl
  · cases h

namespace NodeKind

variable {k holder : NodeKind}

theorem mayStartIn_block (h : mayStartIn .block holder) :
    holder = .block ∨ holder = .compilationUnit := by
  revert h
  cases holder <;> decide

theorem mayStartIn_eq_false (h : holder.isInline) : k.mayStartIn holder = false := by
  cases holder <;> first | rfl | cases h

/-- Where parts start lines, there are no elements with a place of their own. -/
theorem followedSlots_of_mayStartIn (h : k.mayStartIn holder) {l : FollowedSlot}
    (hl : l ∈ holder.followedSlots) :
    l ∈ [.blockStatement, .packageDeclaration, .importDeclaration, .thenBody] := by
  refine (?_ : holder.followedSlots ⊆ _) hl
  cases holder <;> first | exact absurd h Bool.false_ne_true | decide

theorem seriesSlots_of_mayStartIn (h : k.mayStartIn holder) {l : SeriesSlot}
    (hl : l ∈ holder.seriesSlots) : l = .caseStatements := by
  cases holder <;> first | exact absurd h Bool.false_ne_true | simp_all [seriesSlots]

theorem precededSlots_of_mayStartIn (h : k.mayStartIn holder) {l : PrecededSlot}
    (hl : l ∈ holder.precededSlots) : l = .finallyBlock := by
  cases holder <;> first | exact absurd h Bool.false_ne_true | simp_all [precededSlots]

theorem ne_before_of_mem_spaceSlots {l : SpaceSlot} (h : l ∈ k.spaceSlots) (w : PrecededSlot) :
    l ≠ .before w := by
  rintro rfl
  cases k <;> simp [spaceSlots] at h

theorem mayBreak_of_mem_spaceSlots (hk : k.isInline) {l : SpaceSlot} (h : l ∈ k.spaceSlots) :
    l.mayBreak = false := by
  revert l
  cases k <;> first | exact absurd hk Bool.false_ne_true | simp [spaceSlots, SpaceSlot.mayBreak]

theorem mayBreak_of_mem_precededSlots (hk : k.isInline) {l : PrecededSlot}
    (h : l ∈ k.precededSlots) : SpaceSlot.mayBreak (.before l) = false := by
  revert l
  cases k <;> first | exact absurd hk Bool.false_ne_true | simp [precededSlots, SpaceSlot.mayBreak]

/-- Only a file has an end. -/
theorem eq_compilationUnit_of_endOfUnit (h : .endOfUnit ∈ k.spaceSlots) : k = .compilationUnit := by
  cases k <;> first | rfl | simp [spaceSlots] at h

end NodeKind

namespace Shape

variable {x : Shape Tree} {p : Slot Tree}

theorem mem_spaces_of_slot (hp : p ∈ x.slots) {l : SpaceSlot} {s : Space}
    (h : .space l s ∈ p.pieces) : (l, s) ∈ x.spaces :=
  List.mem_filterMap.2 ⟨_, List.mem_flatMap.2 ⟨p, hp, h⟩, rfl⟩

theorem exists_slot_of_mem_spaces {l : SpaceSlot} {s : Space} (h : (l, s) ∈ x.spaces) :
    ∃ p ∈ x.slots, .space l s ∈ p.pieces := by
  obtain ⟨q, hq, heq⟩ := List.mem_filterMap.1 h
  cases q <;> cases heq
  exact List.mem_flatMap.1 hq

theorem mem_children_of_slot (hp : p ∈ x.slots) {c : Tree} (h : .part c ∈ p.pieces) :
    c ∈ x.children := by
  rw [children_eq_slots]
  exact List.mem_flatMap.2 ⟨p, hp, Piece.mem_parts h⟩

theorem mem_pieces_series {l : SeriesSlot} {s : Series Tree} {y : Followed Tree}
    (hy : y ∈ s.elements) {q : Piece Tree} (hq : q ∈ Piece.followed l.element y) :
    q ∈ (Slot.series l s).pieces :=
  List.mem_cons_of_mem _ (List.mem_flatMap.2 ⟨y, hy, hq⟩)

/-- No line starts behind a space in an expression or a simple statement. -/
theorem mayBreak_of_isInline (hk : x.kind.isInline) {l : SpaceSlot} {s : Space}
    (h : (l, s) ∈ x.spaces) : l.mayBreak = false := by
  obtain ⟨p, hp, hs⟩ := exists_slot_of_mem_spaces h
  have hfits := x.fits_slots p hp
  cases p with
  | part => simp [Slot.pieces] at hs
  | space =>
    cases List.mem_singleton.1 hs
    exact NodeKind.mayBreak_of_mem_spaceSlots hk hfits
  | followed => simp_all [Slot.pieces, Piece.followed, SpaceSlot.mayBreak]
  | preceded =>
    obtain hs | hs := List.mem_pair.1 hs <;> cases hs
    exact NodeKind.mayBreak_of_mem_precededSlots hk hfits
  | word =>
    cases List.mem_singleton.1 hs
    exact NodeKind.mayBreak_of_mem_precededSlots hk hfits
  | series l s =>
    obtain hs | hs := List.mem_cons.1 hs
    · cases hs
      rfl
    · obtain ⟨y, -, hs⟩ := List.mem_flatMap.1 hs
      simp_all [Piece.followed, SpaceSlot.mayBreak]

/-- A layer stays as it is if its parts and the spaces that are met in it do. -/
theorem respaced_eq_self {h : SpaceSlot → Space → Space} {g : Tree → Tree}
    (hg : ∀ c ∈ x.children, g c = c) (hh : ∀ l s, (l, s) ∈ x.spaces → h l s = s) :
    x.respaced h g = x := by
  -- slot by slot: the spaces that are met in a layer are those of its slots
  have hrel : Rel Eq (fun _ => Eq) x (x.respaced h g) := by
    refine Answers.id.traverse_of_slots fun p hp => ?_
    have hspace {l : SpaceSlot} {s : Space} (hs : .space l s ∈ p.pieces) : s = h l s :=
      (hh l s (mem_spaces_of_slot hp hs)).symm
    have hpart {c : Tree} (hc : .part c ∈ p.pieces) : c = g c :=
      (hg c (mem_children_of_slot hp hc)).symm
    cases p with
    | part c => exact hpart List.mem_cons_self
    | space l s => exact hspace List.mem_cons_self
    | followed l y =>
      exact ⟨hpart List.mem_cons_self, hspace (List.mem_cons_of_mem _ List.mem_cons_self)⟩
    | preceded l y =>
      exact ⟨hspace List.mem_cons_self, hpart (List.mem_cons_of_mem _ List.mem_cons_self)⟩
    | word l s => exact hspace List.mem_cons_self
    | series l s =>
      refine ⟨hspace List.mem_cons_self, ?_⟩
      refine List.forall₂_map_right_iff.2 (List.forall₂_same.2 fun y hy => ⟨?_, ?_⟩)
      · exact hpart (mem_pieces_series hy List.mem_cons_self)
      · exact hspace (mem_pieces_series hy (List.mem_cons_of_mem _ List.mem_cons_self))
  exact hrel.eq.symm

end Shape

namespace Tree

/-- Each layer of the tree is block-structured, and there are no comments before its nodes. -/
def BlockStructured (t : Tree) : Prop :=
  ∀ n ∈ t.preorder, n.leading.comments = [] ∧ n.shape.BlockStructured

instance (t : Tree) : Decidable t.BlockStructured := List.decidableBAll ..

theorem blockStructured_iff {t : Tree} : t.BlockStructured ↔
    (t.leading.comments = [] ∧ t.shape.BlockStructured) ∧ ∀ c ∈ t.children, c.BlockStructured :=
  forall_mem_preorder

end Tree

/-! ### The tree with its lines moved -/

namespace IndentStyle

variable (style : IndentStyle)

/-- The column of the line that a node is on, where the line of what is above it is on `column` and
the parts of that are indented by `step`. -/
def startColumn (column : Nat) (step : IndentStep) (t : Tree) : Nat :=
  if t.leading.hasNewline then
    column + style.columns (if SpaceSlot.closes (.leading t.kind) then .align else step)
  else column

/-- The column that the parts of a node are indented from.  A list of enum values keeps the one from
above. -/
def innerColumn (column : Nat) (step : IndentStep) (t : Tree) : Nat :=
  if t.kind = .enumValueSet then column else style.startColumn column step t

end IndentStyle

namespace Tree

/-- Moves what starts a line in the nodes that are no more than `budget` deep to the column of its
place. -/
def alignWithin (style : IndentStyle) : Nat → Nat → IndentStep → Tree → Tree
  | 0, _, _, t => t
  | budget + 1, column, step, t =>
    let inner := style.innerColumn column step t
    .node t.id (style.moveToken (style.startColumn column step t) (.leading t.kind) t.leading)
      (t.shape.respaced (style.moveToken inner) (alignWithin style budget inner (.ofKind t.kind)))

/-- Moves what starts a line to the column of its place. -/
def aligned (style : IndentStyle) (column : Nat) (step : IndentStep) (t : Tree) : Tree :=
  t.alignWithin style t.height column step

variable {style : IndentStyle} {column : Nat} {step : IndentStep} {t : Tree}

theorem alignWithin_eq {n m : Nat} (hn : t.height ≤ n) (hm : t.height ≤ m) :
    t.alignWithin style n column step = t.alignWithin style m column step := by
  have hpos : 0 < t.height := by rw [height_eq]; omega
  induction n generalizing m t column step with
  | zero => omega
  | succ n ih =>
    obtain - | m := m
    · omega
    · refine congrArg (node _ _) (Shape.respaced_congr fun c hc => ?_)
      have hlt : c.height < t.height := height_lt_of_mem_children hc
      exact ih (by omega) (by omega) (by rw [height_eq]; omega)

theorem aligned_eq (style : IndentStyle) (column : Nat) (step : IndentStep) (t : Tree) :
    t.aligned style column step =
      .node t.id (style.moveToken (style.startColumn column step t) (.leading t.kind) t.leading)
        (t.shape.respaced (style.moveToken (style.innerColumn column step t))
          (aligned style (style.innerColumn column step t) (.ofKind t.kind))) := by
  have hpos : t.height = t.height - 1 + 1 := by rw [height_eq]; omega
  rw [aligned, hpos, alignWithin]
  refine congrArg (node _ _) (Shape.respaced_congr fun c hc => ?_)
  have hlt : c.height < t.height := height_lt_of_mem_children hc
  exact alignWithin_eq (by omega) (Nat.le_refl _)

theorem shape_aligned : (t.aligned style column step).shape =
    t.shape.respaced (style.moveToken (style.innerColumn column step t))
      (aligned style (style.innerColumn column step t) (.ofKind t.kind)) := by
  rw [aligned_eq]
  rfl

theorem leading_aligned : (t.aligned style column step).leading =
    style.moveToken (style.startColumn column step t) (.leading t.kind) t.leading := by
  rw [aligned_eq]
  rfl

theorem kind_aligned : (t.aligned style column step).kind = t.kind := by
  rw [kind, shape_aligned, Shape.kind_respaced]
  rfl

theorem children_aligned : (t.aligned style column step).children =
    t.children.map (aligned style (style.innerColumn column step t) (.ofKind t.kind)) := by
  rw [children, shape_aligned, Shape.children_respaced]
  rfl

/-- A node starts a line after its lines are moved if it did before, unless it is a file. -/
theorem hasNewline_aligned (ht : t.kind ≠ .compilationUnit) :
    (t.aligned style column step).leading.hasNewline = t.leading.hasNewline := by
  rw [leading_aligned]
  exact style.hasNewline_moveToken (fun h => ht (SpaceSlot.leading.inj h)) _ _

theorem columnAfter_aligned (ht : t.kind ≠ .compilationUnit) (hs : t.leading.comments = [])
    (h : t.leading.hasNewline) : style.columnAfter (t.aligned style column step).leading =
      style.startColumn column step t := by
  rw [leading_aligned]
  exact style.columnAfter_moveToken (fun h => ht (SpaceSlot.leading.inj h)) _ hs h

/-- Nothing in the tree starts a line, and it holds no statements. -/
def Flat (t : Tree) : Prop := ∀ n ∈ t.preorder, n.kind.isInline ∧ n.leading.hasNewline = false

theorem flat_iff : t.Flat ↔
    (t.kind.isInline ∧ t.leading.hasNewline = false) ∧ ∀ c ∈ t.children, c.Flat :=
  forall_mem_preorder

/-- What stands in an expression or a simple statement is flat. -/
theorem flat_of_isInline (ht : t.BlockStructured) (hn : t.Nested) (hk : t.kind.isInline) :
    ∀ c ∈ t.children, c.Flat := by
  induction t using Tree.induction with
  | node t ih =>
    intro c hc
    obtain ⟨⟨-, hshape⟩, hparts⟩ := blockStructured_iff.1 ht
    obtain ⟨hnests, hnested⟩ := nested_iff.1 hn
    -- the body of a lambda expression or an anonymous class is no block here
    have hinline : c.kind.isInline := by
      refine ((hnests c hc).inline hk).resolve_right fun ⟨hbody, hblock⟩ => ?_
      exact hshape.body hbody c hc hblock
    have hnewline : c.leading.hasNewline = false := by
      refine Bool.eq_false_iff.2 ?_
      intro h
      have hmay : c.kind.mayStartIn t.kind := hshape.mayStartIn hc h
      rw [NodeKind.mayStartIn_eq_false hk] at hmay
      cases hmay
    exact flat_iff.2 ⟨⟨hinline, hnewline⟩, ih c hc (hparts c hc) (hnested c hc) hinline⟩

/-- What starts a line in the nodes that are no more than `budget` deep is at the column of its
place. -/
def settledWithin (style : IndentStyle) : Nat → Nat → IndentStep → Tree → Bool
  | 0, _, _, _ => true
  | budget + 1, column, step, t =>
    let inner := style.innerColumn column step t
    style.moveToken (style.startColumn column step t) (.leading t.kind) t.leading = t.leading &&
      (t.shape.spaces.all fun p => style.moveToken inner p.1 p.2 = p.2) &&
      t.children.all (settledWithin style budget inner (.ofKind t.kind))

theorem alignWithin_of_settledWithin {n : Nat} (h : t.settledWithin style n column step) :
    t.alignWithin style n column step = t := by
  induction n generalizing t column step with
  | zero => rfl
  | succ n ih =>
    simp only [settledWithin, Bool.and_eq_true, decide_eq_true_eq, List.all_eq_true] at h
    obtain ⟨⟨hleading, hspaces⟩, hparts⟩ := h
    have hlayer :=
      Shape.respaced_eq_self (fun c hc => ih (hparts c hc)) fun l s hs => hspaces (l, s) hs
    rw [alignWithin, hlayer, hleading]
    cases t
    rfl

theorem settledWithin_of_flat {n : Nat} (ht : t.BlockStructured) (hflat : t.Flat) :
    t.settledWithin style n column step := by
  induction n generalizing t column step with
  | zero => rfl
  | succ n ih =>
    obtain ⟨⟨-, hshape⟩, hparts⟩ := blockStructured_iff.1 ht
    obtain ⟨⟨hinline, hnewline⟩, hflats⟩ := flat_iff.1 hflat
    simp only [settledWithin, Bool.and_eq_true, decide_eq_true_eq, List.all_eq_true]
    refine ⟨⟨style.moveToken_of_inline hnewline, fun p hp => ?_⟩, fun c hc =>
      ih (hparts c hc) (hflats c hc)⟩
    refine style.moveToken_of_inline (Bool.eq_false_iff.2 fun h => ?_)
    have hbreak := (hshape.spaces p hp).2 h
    rw [Shape.mayBreak_of_isInline hinline hp] at hbreak
    cases hbreak

/-- A flat tree stays as it is. -/
theorem aligned_of_flat (ht : t.BlockStructured) (hflat : t.Flat) :
    t.aligned style column step = t :=
  alignWithin_of_settledWithin (settledWithin_of_flat ht hflat)

end Tree

end JavaSource
