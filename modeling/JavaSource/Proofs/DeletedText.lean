import JavaSource.Proofs.Deletion

/-!
# The text of a tree without some statements

A deletion changes the text of a tree only behind a brace that opens a block
(`Tree.agrees_without`).  The column that the parts of a `for` header line up with is read off the
text before any such brace, so it stays (`Tree.columnInParentheses_without`).
-/

namespace JavaSource

namespace Text

/-- The texts are equal, or the same through an opening brace. -/
def Agrees (s t : Text) : Prop :=
  s = t ∨ ∃ before a b, s = before ++ '{' :: a ∧ t = before ++ '{' :: b

/-- The texts are the same through an opening parenthesis, and what follows it agrees. -/
def AgreesInside (s t : Text) : Prop :=
  ∃ before a b, s = before ++ '(' :: a ∧ t = before ++ '(' :: b ∧ Agrees a b

variable {s s' t t' : Text}

theorem Agrees.refl (t : Text) : Agrees t t := .inl rfl

theorem Agrees.append_left (h : Agrees s t) (u : Text) : Agrees (u ++ s) (u ++ t) := by
  obtain rfl | ⟨before, a, b, rfl, rfl⟩ := h
  · exact .refl _
  · exact .inr ⟨u ++ before, a, b, by simp, by simp⟩

theorem Agrees.append (h : Agrees s t) (h' : Agrees s' t') : Agrees (s ++ s') (t ++ t') := by
  obtain rfl | ⟨before, a, b, rfl, rfl⟩ := h
  · exact h'.append_left s
  · exact .inr ⟨before, a ++ s', b ++ t', by simp, by simp⟩

theorem AgreesInside.append_left (h : AgreesInside s t) (u : Text) :
    AgreesInside (u ++ s) (u ++ t) := by
  obtain ⟨before, a, b, rfl, rfl, hab⟩ := h
  exact ⟨u ++ before, a, b, by simp, by simp, hab⟩

theorem AgreesInside.append_right (h : AgreesInside s t) (u : Text) :
    AgreesInside (s ++ u) (t ++ u) := by
  obtain ⟨before, a, b, rfl, rfl, hab⟩ := h
  exact ⟨before, a ++ u, b ++ u, by simp, by simp, hab.append (.refl u)⟩

/-- An opening brace is a character whose column is found. -/
theorem Agrees.columnInParentheses (h : Agrees s t) (lineStart : Int) (offset : Nat) :
    columnInParentheses lineStart offset true s = columnInParentheses lineStart offset true t := by
  obtain rfl | ⟨before, a, b, rfl, rfl⟩ := h
  · rfl
  · induction before generalizing lineStart offset with
    | nil => rfl
    | cons c before ih =>
      rw [List.cons_append, List.cons_append, JavaSource.columnInParentheses,
        JavaSource.columnInParentheses]
      split
      · exact ih 0 0
      · split
        · rfl
        · exact ih _ _

theorem AgreesInside.columnInParentheses (h : AgreesInside s t) (lineStart : Int) (offset : Nat)
    (opened : Bool) :
    columnInParentheses lineStart offset opened s =
      columnInParentheses lineStart offset opened t := by
  obtain ⟨before, a, b, rfl, rfl, hab⟩ := h
  induction before generalizing lineStart offset opened with
  | nil =>
    rw [List.nil_append, List.nil_append, JavaSource.columnInParentheses,
      JavaSource.columnInParentheses]
    split
    · contradiction
    · split
      · rfl
      · rw [show (opened || '(' == '(') = true from Bool.or_true opened]
        exact hab.columnInParentheses _ _
  | cons c before ih =>
    rw [List.cons_append, List.cons_append, JavaSource.columnInParentheses,
      JavaSource.columnInParentheses]
    split
    · exact ih 0 0 opened
    · split
      · rfl
      · exact ih _ _ _

end Text

namespace Tree

open Text

variable {p : NodeId → Bool}

/-! ### Agreeing texts -/

/-- The texts of the trees agree, and so does what follows them as statements. -/
structure Agree (t u : Tree) : Prop where
  text : Agrees t.toText u.toText
  needsSemicolon : u.needsSemicolon = t.needsSemicolon

theorem agrees_pieces {ps qs : List (Piece Tree)}
    (h : List.Forall₂ (Piece.Rel Agree fun _ => Eq) ps qs) :
    Agrees (ps.flatMap pieceText) (qs.flatMap pieceText) := by
  induction h with
  | nil => exact .refl _
  | cons hpq _ ih =>
    rw [List.flatMap_cons, List.flatMap_cons]
    refine Agrees.append ?_ ih
    cases hpq with
    | word => exact .refl _
    | space hs => exact hs ▸ .refl _
    | part ht => exact ht.text
    | terminator ht => simp only [pieceText, ht.needsSemicolon, Agrees.refl]

/-- A block's text has nothing of its statements before the brace. -/
theorem agrees_block {t u : Tree} {afterStatic : Option Space} {xs ys : List (Followed Tree)}
    {beforeClose : Space} (ht : t.shape = .block afterStatic xs beforeClose)
    (hu : u.shape = .block afterStatic ys beforeClose) (hleading : u.leading = t.leading) :
    Agrees t.toText u.toText := by
  have htext (v : Tree) {zs : List (Followed Tree)} (hv : v.shape = .block afterStatic zs beforeClose) :
      v.toText = v.leading.toText ++
        ((Piece.ifPresent (fun s => [.word "static".toList, .space .afterStatic s])
          afterStatic).flatMap pieceText) ++
        '{' :: ((zs.flatMap (Piece.statement .blockStatement)).flatMap pieceText ++
          (beforeClose.toText ++ ['}'])) := by
    rw [toText_eq, hv]
    simp [Shape.pieces, pieceText]
  exact .inr ⟨_, _, _, htext t ht, hleading ▸ htext u hu⟩

/-- A tree's text agrees with that of the tree without some statements. -/
theorem agree_without (t : Tree) : t.Agree (t.without p) := by
  induction t using Tree.induction with
  | node t ih =>
    by_cases ht : t.kind = .block
    · obtain ⟨afterStatic, xs, beforeClose, hx⟩ := exists_block ht
      refine ⟨agrees_block hx (shape_without_block hx) (leading_without t), ?_⟩
      have hnone (u : Tree) (hu : u.kind = .block) : u.needsSemicolon = false := by
        obtain ⟨i, s, y⟩ := u
        cases y <;> first | rfl | cases hu
      rw [hnone t ht, hnone _ ((kind_without t).trans ht)]
    · have hrel : Shape.Rel Agree (fun _ => Eq) t.shape (t.shape.map (without p)) :=
        Shape.rel_map ih
      obtain ⟨i, s, x⟩ := t
      rw [without_eq, Shape.without_of_kind ht]
      refine ⟨?_, hrel.needsSemicolon fun _ _ h => h.needsSemicolon⟩
      rw [toText_eq, toText_eq]
      exact (agrees_pieces hrel.pieces).append_left _

/-- The text of the header of a loop agrees behind its parenthesis. -/
theorem agreesInside_forControl {t : Tree} (ht : t.kind = .forControl) :
    AgreesInside t.toText (t.without p).toText := by
  have hblock : t.kind ≠ .block := ht ▸ nofun
  have hrel : Shape.Rel Agree (fun _ => Eq) t.shape (t.shape.map (without p)) :=
    Shape.rel_map fun a _ => agree_without a
  have hstart : t.shape.pieces = .word ['('] :: t.shape.pieces.tail := by
    obtain ⟨init, condition, update, hx⟩ := exists_forControl ht
    rw [hx]
    rfl
  have hpieces := hrel.pieces
  rw [hstart, List.forall₂_cons_left_iff] at hpieces
  obtain ⟨q, qs, hq, hqs, hmap⟩ := hpieces
  cases hq
  rw [toText_eq, toText_eq, shape_without, Shape.without_of_kind hblock, hmap, hstart,
    leading_without]
  exact ⟨t.leading.toText, _, _, rfl, rfl, agrees_pieces hqs⟩

/-! ### The header of a loop -/

theorem toText_forLoop {t control : Tree} {body : Followed Tree}
    (ht : t.shape = .forLoop control body) :
    t.toText = t.leading.toText ++ ("for".toList ++ (control.toText ++
      (Piece.statement .forBody body).flatMap pieceText)) := by
  rw [toText_eq, ht]
  rfl

theorem toText_labeled {t statement : Tree} {label : Followed Tree}
    (ht : t.shape = .labeled label statement) :
    t.toText = t.leading.toText ++
      (label.element.toText ++ label.after.toText ++ ':' :: statement.toText) := by
  rw [toText_eq, ht]
  simp [Shape.pieces, Piece.followed, pieceText]

/-- The column of the first initializer of a loop does not depend on statements inside it. -/
theorem columnInParentheses_without {loop : Tree} (hloop : loop.HasForHeader) {label : Option Tree}
    (hlabel : ∀ l ∈ label, ∃ name body, l.shape = .labeled name body ∧
      name.element.without p = name.element) (lineStart : Int) :
    columnInParentheses lineStart 0 false
        (forHeader (label.map (without p)) (loop.without p)).toText =
      columnInParentheses lineStart 0 false (forHeader label loop).toText := by
  obtain ⟨control, body, hshape, hcontrol⟩ := hloop
  have hshape' : (loop.without p).shape = .forLoop (control.without p) (body.map (without p)) := by
    rw [shape_without, hshape]
    rfl
  have hheader (u u' : Tree) (hu : u.shape = .forLoop control (.bare (.node 0 .empty .empty)))
      (hu' : u'.shape = .forLoop (control.without p) (.bare (.node 0 .empty .empty)))
      (hleading : u'.leading = u.leading) : AgreesInside u.toText u'.toText := by
    rw [toText_forLoop hu, toText_forLoop hu', hleading]
    exact (((agreesInside_forControl hcontrol).append_right _).append_left _).append_left _
  refine (AgreesInside.columnInParentheses ?_ lineStart 0 false).symm
  simp only [forHeader, hshape, hshape']
  cases label with
  | none => exact hheader _ _ (by simp) (by simp) (by simp)
  | some l =>
    obtain ⟨name, statement, hl, hname⟩ := hlabel l rfl
    have hl' : (l.without p).shape = .labeled name (statement.without p) := by
      rw [shape_without, hl]
      exact congrArg (fun t => Shape.labeled ⟨t, name.after⟩ _) hname
    simp only [Option.map_some, hl, hl']
    rw [toText_labeled (shape_withShape ..), toText_labeled (shape_withShape ..)]
    simp only [leading_withShape, leading_withLeading]
    have hinner := hheader (loop.withShape (.forLoop control (.bare (.node 0 .empty .empty))))
      ((loop.without p).withShape (.forLoop (control.without p) (.bare (.node 0 .empty .empty))))
      (by simp) (by simp) (by simp)
    exact ((hinner.append_left [':']).append_left _).append_left _

end Tree

end JavaSource
