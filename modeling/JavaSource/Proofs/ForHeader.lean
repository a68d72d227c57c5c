import JavaSource.Indent.Note

/-!
# Headers of `for` loops

The condition and the updates of a `for` loop line up with its first initializer, whose column is
read off the text of the loop.  `Trail.exists_forInitColumn` says that there is such a column
wherever the nearest loop above has a header; `Tree.Housed` says of a tree that its headers stand
only below such loops.
-/

namespace JavaSource

/-- A `for` loop with the header of one. -/
def Tree.HasForHeader (t : Tree) : Prop :=
  ∃ control body, t.shape = .forLoop control body ∧ control.kind = .forControl

/-- Each header of a `for` loop in the tree is below a loop that has one. -/
inductive Tree.Housed : Tree → Prop
  | mk {t : Tree} (here : ∀ c ∈ t.children, c.kind = .forControl → t.HasForHeader)
    (parts : ∀ c ∈ t.children, Housed c) : Housed t

/-- The nearest `for` loop has a header. -/
def InForLoop (values : List FrameValue) : Prop :=
  ∃ loop above, values.dropWhile (fun v => v.kind? != some .forLoop) = .tree loop :: above ∧
    loop.HasForHeader

/-! ### The text of a loop -/

/-- Somewhere after an opening parenthesis there is a semicolon. -/
def Text.Opens (t : Text) : Prop := ∃ before between after, t = before ++ '(' :: (between ++ ';' :: after)

theorem Text.Opens.append_left {t : Text} (h : t.Opens) (s : Text) : Text.Opens (s ++ t) := by
  obtain ⟨before, between, after, rfl⟩ := h
  exact ⟨s ++ before, between, after, by rw [List.append_assoc]⟩

theorem Text.Opens.append_right {t : Text} (h : t.Opens) (s : Text) : Text.Opens (t ++ s) := by
  obtain ⟨before, between, after, rfl⟩ := h
  exact ⟨before, between, after ++ s, by simp⟩

theorem columnInParentheses_opened {lineStart : Int} {offset : Nat} (between after : Text) :
    columnInParentheses lineStart offset true (between ++ ';' :: after) ≠ none := by
  induction between generalizing lineStart offset with
  | nil => nofun
  | cons c between ih =>
    rw [List.cons_append, columnInParentheses]
    split
    · exact ih
    · split
      · nofun
      · exact ih

theorem columnInParentheses_ne_none {lineStart : Int} {offset : Nat} {opened : Bool} {t : Text}
    (h : t.Opens) : columnInParentheses lineStart offset opened t ≠ none := by
  obtain ⟨before, between, after, rfl⟩ := h
  induction before generalizing lineStart offset opened with
  | nil =>
    cases opened with
    | true => exact columnInParentheses_opened ('(' :: between) after
    | false => exact columnInParentheses_opened between after
  | cons c before ih =>
    rw [List.cons_append, columnInParentheses]
    split
    · exact ih
    · split
      · nofun
      · exact ih

namespace Tree

theorem opens_forControl {t : Tree} (h : t.kind = .forControl) : Text.Opens t.toText := by
  cases t with
  | node i s x =>
    cases x with
    | forControl init condition update =>
      rw [toText_eq]
      exact Text.Opens.append_left ⟨[], (Piece.separated .forInit [','] init).flatMap pieceText,
        (Piece.followed .forCondition condition ++ Piece.word [';'] ::
          Piece.separated .forUpdate [','] update ++ [Piece.word [')']]).flatMap pieceText,
        by simp [shape, Shape.pieces, pieceText]⟩ _
    | _ => cases h

theorem opens_of_part {t c : Tree} (h : Piece.part c ∈ t.shape.pieces) (hc : Text.Opens c.toText) :
    Text.Opens t.toText := by
  obtain ⟨ps, qs, hps⟩ := List.append_of_mem h
  rw [toText_eq, hps, List.flatMap_append, List.flatMap_cons]
  exact ((hc.append_right _).append_left _).append_left _

@[simp] theorem shape_withShape (t : Tree) (x : Shape Tree) : (t.withShape x).shape = x := by
  cases t; rfl

@[simp] theorem shape_withLeading (t : Tree) (s : Space) : (t.withLeading s).shape = t.shape := by
  cases t; rfl

@[simp] theorem leading_withShape (t : Tree) (x : Shape Tree) :
    (t.withShape x).leading = t.leading := by
  cases t; rfl

@[simp] theorem leading_withLeading (t : Tree) (s : Space) : (t.withLeading s).leading = s := by
  cases t; rfl

theorem opens_forHeader {label : Option Tree} {loop : Tree} (h : loop.HasForHeader) :
    Text.Opens (forHeader label loop).toText := by
  obtain ⟨control, body, hloop, hc⟩ := h
  have hopens (u : Tree) (hu : u.shape = .forLoop control (.bare (.node 0 .empty .empty))) :
      Text.Opens u.toText :=
    opens_of_part (c := control) (by simp [hu, Shape.pieces]) (opens_forControl hc)
  simp only [forHeader, hloop]
  split
  · split
    · exact opens_of_part (c := loop.withShape (.forLoop control (.bare (.node 0 .empty .empty))))
        (by simp [Shape.pieces]) (hopens _ (by simp))
    · exact hopens _ (by simp)
  · exact hopens _ (by simp)

end Tree

/-- Below a `for` loop with a header, the first initializer has a column. -/
theorem Trail.exists_forInitColumn {trail : Trail IndentNote} (h : InForLoop trail.values) :
    ∃ column, trail.forInitColumn = .ok column := by
  obtain ⟨loop, above, hvalues, hloop⟩ := h
  rw [Trail.values, List.dropWhile_map, List.map_eq_cons_iff] at hvalues
  obtain ⟨frame, frames, hframes, hframe, -⟩ := hvalues
  obtain ⟨value, stopped, note⟩ := frame
  obtain rfl : value = .tree loop := hframe
  have hdrop : trail.dropWhile (fun frame => frame.value.kind? != some .forLoop) =
      ⟨.tree loop, stopped, note⟩ :: frames := hframes
  rw [forInitColumn, hdrop]
  dsimp only
  split
  · exact ⟨_, rfl⟩
  · exact absurd ‹_› (columnInParentheses_ne_none (Tree.opens_forHeader hloop))

end JavaSource
