import JavaSource.Proofs.RepeatedPasses
import JavaSource.Proofs.Run
import JavaSource.Proofs.SpaceChanges

/-!
# Line ends a second time

Taking something away can bring together what is then taken away in turn.  Of two carriage returns
before a line feed one goes, and the other then stands before the line feed; once the blanks between
a carriage return and a line feed are gone, those before the carriage return stand before a line
end.  Nothing else is left for a second run: `Text.withLineEnds_again_iff` and
`Text.stripLineEnds_again_iff` say so of a text, and `Pass.run_again_iff` of the two passes.
-/

namespace JavaSource

/-! ### Spaces changed again -/

namespace Tree

variable {h : SpaceSlot → Space → Space} {t : Tree}

theorem spaces_respaced (h : SpaceSlot → Space → Space) (t : Tree) :
    (t.respaced h).spaces = t.spaces.map fun p => (p.1, h p.1 p.2) := by
  have hspaces := (differs_respaced h t).spaces
  generalize t.spaces = ps, (t.respaced h).spaces = qs at hspaces ⊢
  induction hspaces with
  | nil => rfl
  | cons hpq _ ih => rw [List.map_cons, ← ih, ← hpq.space, hpq.slot]

/-- A slot stays when its parts and its spaces do. -/
theorem atSlot_respacing {x : Slot Tree}
    (hparts : ∀ a ∈ x.parts, (∀ p ∈ a.spaces, h p.1 p.2 = p.2) → a.respaced h = a)
    (hspaces : ∀ p ∈ x.spaces, h p.1 p.2 = p.2) :
    Answers.id.AtSlot Eq (fun _ => Eq) (.respacing h (respaced h)) x := by
  have hfollowed {l : FollowedSlot} {y : Followed Tree}
      (hy : (∀ p ∈ y.element.spaces, h p.1 p.2 = p.2) → y.element.respaced h = y.element)
      (hs : ∀ p ∈ (Slot.followed l y).spaces, h p.1 p.2 = p.2) :
      Followed.Rel Eq (fun _ => Eq) l y ⟨y.element.respaced h, h (.after l) y.after⟩ := by
    rw [Slot.spaces_followed, List.forall_mem_append, List.forall_mem_singleton] at hs
    exact ⟨(hy hs.1).symm, hs.2.symm⟩
  cases x with
  | part a =>
    rw [Slot.spaces_part] at hspaces
    exact (hparts a List.mem_cons_self hspaces).symm
  | space l s => exact (hspaces (l, s) List.mem_cons_self).symm
  | followed l y => exact hfollowed (hparts y.element List.mem_cons_self) hspaces
  | preceded l y =>
    rw [Slot.spaces_preceded, List.forall_mem_cons] at hspaces
    exact ⟨hspaces.1.symm, (hparts y.element List.mem_cons_self hspaces.2).symm⟩
  | word l s => exact (hspaces (.before l, s) List.mem_cons_self).symm
  | series l s =>
    rw [Slot.spaces_series, List.forall_mem_cons, List.forall_mem_flatMap] at hspaces
    rw [Slot.parts_series] at hparts
    refine ⟨hspaces.1.symm, List.forall₂_map_right_iff.2 (List.forall₂_same.2 fun y hy => ?_)⟩
    exact hfollowed (hparts _ (List.mem_map_of_mem hy)) (hspaces.2 y hy)

/-- Where each space of the tree stays, the tree does. -/
theorem respaced_eq_self (hspaces : ∀ p ∈ t.spaces, h p.1 p.2 = p.2) : t.respaced h = t := by
  induction t using Tree.induction with
  | node t ih =>
    rw [spaces_eq, List.forall_mem_cons, List.forall_mem_flatMap] at hspaces
    have hlayer : Shape.Rel Eq (fun _ => Eq) t.shape (t.shape.respaced h (respaced h)) := by
      refine Answers.traverse_of_slots fun x hx =>
        atSlot_respacing (fun a ha => ih a ?_) (hspaces.2 x hx)
      rw [children, Shape.children_eq_slots]
      exact List.mem_flatMap.2 ⟨x, hx, ha⟩
    rw [respaced_eq, hspaces.1, ← hlayer.eq]
    cases t
    rfl

/-- **A change made again** changes nothing exactly where it has left nothing to change in any
space. -/
theorem respaced_again_iff (h : SpaceSlot → Space → Space) (t : Tree) :
    (t.respaced h).respaced h = t.respaced h ↔
      ∀ p ∈ t.spaces, h p.1 (h p.1 p.2) = h p.1 p.2 := by
  constructor
  · intro hagain p hp
    have hspaces := congrArg spaces hagain
    rw [respaced_respaced, spaces_respaced, spaces_respaced] at hspaces
    exact (Prod.mk.inj (List.map_inj_left.1 hspaces p hp)).2
  · intro hspaces
    refine respaced_eq_self ?_
    rw [spaces_respaced]
    exact List.forall_mem_map.2 hspaces

end Tree

namespace Text

variable {c : Char} {t : Text}

/-! ### Starts of texts -/

theorem startsWithLineEnd_iff :
    startsWithLineEnd t ↔ ['\n'] <+: t ∨ ['\r', '\n'] <+: t := by
  fun_cases startsWithLineEnd t with
  | case1 rest => simp
  | case2 rest => simp
  | case3 t hfeed hreturn =>
    refine iff_of_false Bool.false_ne_true ?_
    rintro (⟨rest, rfl⟩ | ⟨rest, rfl⟩)
    · exact hfeed rest rfl
    · exact hreturn rest rfl

theorem startsWithLineEnd_cons :
    startsWithLineEnd (c :: t) ↔ c = '\n' ∨ c = '\r' ∧ ['\n'] <+: t := by
  rw [startsWithLineEnd_iff, List.cons_prefix_cons, List.cons_prefix_cons, eq_comm (a := c),
    eq_comm (a := c), and_iff_left List.nil_prefix]

/-! ### Line ends made alike -/

theorem lineFeed_prefix_toLineFeeds (t : Text) :
    ['\n'] <+: t.toLineFeeds ↔ t.startsWithLineEnd := by
  fun_cases toLineFeeds t with
  | case1 => decide
  | case2 rest => simp [startsWithLineEnd]
  | case3 c rest h =>
    rw [startsWithLineEnd_cons, List.cons_prefix_cons, and_iff_left List.nil_prefix, eq_comm]
    refine (or_iff_left ?_).symm
    rintro ⟨hc, after, rfl⟩
    exact h after hc rfl

/-- A line end made a line feed is no longer there to be made one. -/
theorem toLineFeeds_eq_self_iff (t : Text) : t.toLineFeeds = t ↔ ¬ ['\r', '\n'] <:+: t := by
  fun_induction toLineFeeds t with
  | case1 => simp
  | case2 rest ih =>
    exact iff_of_false (by simp) fun h => h ⟨[], rest, rfl⟩
  | case3 c rest h ih =>
    have hhere : ¬ ['\r', '\n'] <+: c :: rest := by
      rintro ⟨after, hafter⟩
      exact h _ (List.cons.inj hafter).1.symm (List.cons.inj hafter).2.symm
    rw [List.infix_cons_iff, List.cons_inj_right, ih]
    tauto

theorem infix_toLineFeeds_iff (t : Text) :
    ['\r', '\n'] <:+: t.toLineFeeds ↔ ['\r', '\r', '\n'] <:+: t := by
  fun_induction toLineFeeds t with
  | case1 => simp
  | case2 rest ih =>
    rw [List.infix_cons_iff, List.infix_cons_iff, List.infix_cons_iff, ih]
    simp
  | case3 c rest h ih =>
    have hhere : ['\r', '\n'] <+: c :: toLineFeeds rest ↔ ['\r', '\r', '\n'] <+: c :: rest := by
      rw [List.cons_prefix_cons, List.cons_prefix_cons, lineFeed_prefix_toLineFeeds,
        startsWithLineEnd_iff]
      refine and_congr_right ?_
      rintro rfl
      refine or_iff_right ?_
      rintro ⟨after, hafter⟩
      exact h _ rfl hafter.symm
    rw [List.infix_cons_iff, List.infix_cons_iff, ih, hhere]

theorem not_lineFeed_prefix_toCrlf (t : Text) : ¬ ['\n'] <+: t.toCrlf := by
  cases t with
  | nil => decide
  | cons c t =>
    rw [toCrlf, List.flatMap_cons]
    by_cases hc : c = '\n'
    · simp [hc]
    · simpa [hc] using Ne.symm hc

/-- The carriage returns that are put in are the ones that are taken away. -/
theorem toLineFeeds_toCrlf (t : Text) : t.toCrlf.toLineFeeds = t := by
  induction t with
  | nil => rfl
  | cons c t ih =>
    have hcons : toCrlf (c :: t) = (if c = '\n' then ['\r', '\n'] else [c]) ++ toCrlf t := rfl
    rw [hcons]
    by_cases hc : c = '\n'
    · rw [if_pos hc, hc]
      exact congrArg ('\n' :: ·) ih
    · rw [if_neg hc, List.singleton_append, toLineFeeds, ih]
      exact fun rest _ hrest => not_lineFeed_prefix_toCrlf t ⟨rest, hrest.symm⟩

/-- **Line ends made alike once more.** -/
theorem withLineEnds_again_iff (crlf : Bool) (t : Text) :
    (t.withLineEnds crlf).withLineEnds crlf = t.withLineEnds crlf ↔
      crlf ∨ ¬ ['\r', '\r', '\n'] <:+: t := by
  cases crlf with
  | false =>
    rw [or_iff_right Bool.false_ne_true, ← infix_toLineFeeds_iff]
    exact toLineFeeds_eq_self_iff t.toLineFeeds
  | true =>
    exact iff_of_true (congrArg toCrlf (toLineFeeds_toCrlf t.toLineFeeds)) (.inl rfl)

/-! ### Blanks before line ends -/

/-- A blank stands directly before a line end. -/
def HasTrailingBlank (t : Text) : Prop :=
  ∃ c rest, c :: rest <:+ t ∧ isBlankChar c ∧ startsWithLineEnd rest

/-- Behind a carriage return blanks stand before a line feed. -/
def StartsWithSplitEnd (t : Text) : Prop :=
  ∃ c blanks, (∀ d ∈ c :: blanks, isBlankChar d) ∧ '\r' :: c :: (blanks ++ ['\n']) <+: t

/-- Blanks stand between a carriage return and a line feed, and before the carriage return. -/
def SplitsLineEnd (t : Text) : Prop :=
  ∃ c d blanks, (∀ e ∈ c :: d :: blanks, isBlankChar e) ∧
    c :: '\r' :: d :: (blanks ++ ['\n']) <:+: t

theorem hasTrailingBlank_cons : HasTrailingBlank (c :: t) ↔
    isBlankChar c ∧ startsWithLineEnd t ∨ HasTrailingBlank t := by
  simp only [HasTrailingBlank, List.suffix_cons_iff]
  constructor
  · rintro ⟨d, rest, heq | hsuffix, hd, hends⟩
    · obtain ⟨rfl, rfl⟩ := List.cons.inj heq
      exact .inl ⟨hd, hends⟩
    · exact .inr ⟨d, rest, hsuffix, hd, hends⟩
  · rintro (⟨hc, hends⟩ | ⟨d, rest, hsuffix, hd, hends⟩)
    · exact ⟨c, t, .inl rfl, hc, hends⟩
    · exact ⟨d, rest, .inr hsuffix, hd, hends⟩

theorem splitsLineEnd_cons : SplitsLineEnd (c :: t) ↔
    isBlankChar c ∧ StartsWithSplitEnd t ∨ SplitsLineEnd t := by
  simp only [SplitsLineEnd, StartsWithSplitEnd, List.infix_cons_iff, List.cons_prefix_cons,
    List.forall_mem_cons]
  constructor
  · rintro ⟨e, d, blanks, ⟨he, hd, hblanks⟩, ⟨rfl, hstart⟩ | hwithin⟩
    · exact .inl ⟨he, d, blanks, ⟨hd, hblanks⟩, hstart⟩
    · exact .inr ⟨e, d, blanks, ⟨he, hd, hblanks⟩, hwithin⟩
  · rintro (⟨hc, d, blanks, ⟨hd, hblanks⟩, hstart⟩ | ⟨e, d, blanks, h, hwithin⟩)
    · exact ⟨c, d, blanks, ⟨hc, hd, hblanks⟩, .inl ⟨rfl, hstart⟩⟩
    · exact ⟨e, d, blanks, h, .inr hwithin⟩

/-- A line feed behind blanks. -/
theorem lineFeed_prefix_dropWhile : ['\n'] <+: t.dropWhile isBlankChar ↔
    ∃ blanks, (∀ d ∈ blanks, isBlankChar d) ∧ blanks ++ ['\n'] <+: t := by
  constructor
  · rintro ⟨rest, hrest⟩
    refine ⟨t.takeWhile isBlankChar, fun d hd => List.mem_takeWhile_imp hd, rest, ?_⟩
    rw [List.append_assoc, hrest, List.takeWhile_append_dropWhile]
  · rintro ⟨blanks, hblanks, rest, rfl⟩
    rw [List.append_assoc, List.dropWhile_append_of_pos hblanks]
    exact ⟨rest, rfl⟩

theorem startsWithSplitEnd_cons : StartsWithSplitEnd (c :: t) ↔
    c = '\r' ∧ ¬ ['\n'] <+: t ∧ ['\n'] <+: t.dropWhile isBlankChar := by
  rw [lineFeed_prefix_dropWhile]
  constructor
  · rintro ⟨d, blanks, hblanks, hstart⟩
    obtain ⟨rfl, htail⟩ := List.cons_prefix_cons.1 hstart
    refine ⟨rfl, fun hfeed => ?_, d :: blanks, hblanks, htail⟩
    obtain ⟨rest, rfl⟩ := htail
    obtain ⟨rfl, -⟩ := List.cons_prefix_cons.1 hfeed
    exact absurd (hblanks _ List.mem_cons_self) (by decide)
  · rintro ⟨rfl, hfeed, blanks, hblanks, hstart⟩
    cases blanks with
    | nil => exact absurd hstart hfeed
    | cons d blanks => exact ⟨d, blanks, hblanks, List.cons_prefix_cons.2 ⟨rfl, hstart⟩⟩

theorem dropWhile_of_startsWithLineEnd (h : startsWithLineEnd t) : t.dropWhile isBlankChar = t := by
  cases t with
  | nil => rfl
  | cons c t =>
    refine List.dropWhile_cons_of_neg fun hc => ?_
    rcases startsWithLineEnd_cons.1 h with rfl | ⟨rfl, -⟩ <;> exact absurd hc (by decide)

theorem StartsWithSplitEnd.not_startsWithLineEnd (h : t.StartsWithSplitEnd) :
    ¬ startsWithLineEnd (t.dropWhile isBlankChar) := by
  cases t with
  | nil => exact Bool.false_ne_true
  | cons c t =>
    obtain ⟨rfl, hfeed, -⟩ := startsWithSplitEnd_cons.1 h
    rw [List.dropWhile_cons_of_neg (by decide), startsWithLineEnd_cons]
    rintro (hc | ⟨-, hc⟩)
    · exact absurd hc (by decide)
    · exact hfeed hc

/-- Blanks in front of a line feed are taken away. -/
theorem lineFeed_prefix_stripLineEnds (t : Text) :
    ['\n'] <+: t.stripLineEnds ↔ ['\n'] <+: t.dropWhile isBlankChar := by
  fun_induction stripLineEnds t with
  | case1 => rfl
  | case2 c rest h ih =>
    rw [Bool.and_eq_true] at h
    rw [ih, List.dropWhile_cons_of_pos h.1]
  | case3 c rest h ih =>
    rw [List.cons_prefix_cons, and_iff_left List.nil_prefix]
    by_cases hc : isBlankChar c
    · rw [List.dropWhile_cons_of_pos hc]
      refine iff_of_false ?_ fun hfeed => h ?_
      · rintro rfl
        exact absurd hc (by decide)
      · rw [Bool.and_eq_true]
        exact ⟨hc, startsWithLineEnd_iff.2 (.inl hfeed)⟩
    · rw [List.dropWhile_cons_of_neg hc, List.cons_prefix_cons, and_iff_left List.nil_prefix]

/-- Once blanks are taken away, a text starts with a line end if blanks stood before one, or between
the two characters of one. -/
theorem startsWithLineEnd_stripLineEnds (t : Text) : startsWithLineEnd t.stripLineEnds ↔
    startsWithLineEnd (t.dropWhile isBlankChar) ∨ t.StartsWithSplitEnd := by
  fun_induction stripLineEnds t with
  | case1 => simp [StartsWithSplitEnd]
  | case2 c rest h ih =>
    rw [Bool.and_eq_true] at h
    rw [ih, List.dropWhile_cons_of_pos h.1]
    exact iff_of_true (.inl h.2) (.inl h.2)
  | case3 c rest h ih =>
    rw [Bool.and_eq_true] at h
    rw [startsWithLineEnd_cons, lineFeed_prefix_stripLineEnds, startsWithSplitEnd_cons]
    by_cases hc : isBlankChar c
    · have hbreak : c ≠ '\n' ∧ c ≠ '\r' := by
        constructor <;> rintro rfl <;> exact absurd hc (by decide)
      rw [List.dropWhile_cons_of_pos hc]
      tauto
    · have hfeed (hfeed : ['\n'] <+: rest) : ['\n'] <+: rest.dropWhile isBlankChar := by
        rwa [dropWhile_of_startsWithLineEnd (startsWithLineEnd_iff.2 (.inl hfeed))]
      rw [List.dropWhile_cons_of_neg hc, startsWithLineEnd_cons]
      tauto

theorem hasTrailingBlank_stripLineEnds (t : Text) :
    t.stripLineEnds.HasTrailingBlank ↔ t.SplitsLineEnd := by
  fun_induction stripLineEnds t with
  | case1 => simp [HasTrailingBlank, SplitsLineEnd]
  | case2 c rest h ih =>
    rw [Bool.and_eq_true] at h
    rw [ih, splitsLineEnd_cons]
    exact (or_iff_right fun hsplit => hsplit.2.not_startsWithLineEnd h.2).symm
  | case3 c rest h ih =>
    rw [Bool.and_eq_true] at h
    rw [hasTrailingBlank_cons, splitsLineEnd_cons, ih, startsWithLineEnd_stripLineEnds]
    tauto

theorem stripLineEnds_sublist (t : Text) : t.stripLineEnds.Sublist t := by
  fun_induction stripLineEnds t with
  | case1 => exact .slnil
  | case2 c rest h ih => exact ih.cons c
  | case3 c rest h ih => exact ih.cons_cons c

/-- The last of the blanks before a line end stands directly before it. -/
theorem hasTrailingBlank_of_dropWhile (hc : isBlankChar c)
    (h : startsWithLineEnd (t.dropWhile isBlankChar)) : HasTrailingBlank (c :: t) := by
  induction t generalizing c with
  | nil => exact absurd h Bool.false_ne_true
  | cons d t ih =>
    rw [hasTrailingBlank_cons]
    by_cases hd : isBlankChar d
    · rw [List.dropWhile_cons_of_pos hd] at h
      exact .inr (ih hd h)
    · rw [List.dropWhile_cons_of_neg hd] at h
      exact .inl ⟨hc, h⟩

theorem stripLineEnds_eq_self_iff (t : Text) : t.stripLineEnds = t ↔ ¬ t.HasTrailingBlank := by
  fun_induction stripLineEnds t with
  | case1 => simp [HasTrailingBlank]
  | case2 c rest h ih =>
    rw [Bool.and_eq_true] at h
    refine iff_of_false (fun heq => ?_) (not_not_intro (hasTrailingBlank_of_dropWhile h.1 h.2))
    have hle := (stripLineEnds_sublist rest).length_le
    rw [heq, List.length_cons] at hle
    omega
  | case3 c rest h ih =>
    rw [Bool.and_eq_true] at h
    rw [List.cons_inj_right, ih, hasTrailingBlank_cons]
    refine not_congr (or_iff_right fun hends => h ⟨hends.1, ?_⟩).symm
    rw [dropWhile_of_startsWithLineEnd hends.2]
    exact hends.2

/-- **Blanks taken away once more.** -/
theorem stripLineEnds_again_iff (t : Text) :
    t.stripLineEnds.stripLineEnds = t.stripLineEnds ↔ ¬ t.SplitsLineEnd := by
  rw [stripLineEnds_eq_self_iff, hasTrailingBlank_stripLineEnds]

end Text

/-! ### The texts of a space -/

/-- The texts of a comment in which line ends are looked for. -/
def Comment.lineTexts (c : Comment) : List Text :=
  if c.style.isMultiline then [c.text, c.suffix] else [c.suffix]

/-- The comment with the texts in which line ends are looked for changed by one function, and the
text of a line comment by another. -/
def Comment.mapTexts (f g : Text → Text) (c : Comment) : Comment :=
  { c with
    text := if c.style.isMultiline then f c.text else g c.text
    suffix := f c.suffix }

/-- The last comment in a file without blanks before line ends, and with nothing but line breaks
after it. -/
def Comment.stripLast (c : Comment) : Comment :=
  { c.stripLineEnds with suffix := c.suffix.stripLineEnds.lineBreaksOnly }

namespace Space

/-- The texts of a space in which line ends are looked for, in their order. -/
def lineTexts (s : Space) : List Text := s.whitespace :: s.comments.flatMap Comment.lineTexts

/-- The texts in which blanks before line ends are looked for.  Of the last text in a file only the
line breaks stay. -/
def strippedTexts (slot : SpaceSlot) (s : Space) : List Text :=
  if slot = .endOfUnit then s.lineTexts.dropLast else s.lineTexts

end Space

section Texts

variable {f g : Text → Text} (hg : ∀ t, g (g t) = g t)

include hg

theorem Comment.mapTexts_again_iff (c : Comment) :
    (c.mapTexts f g).mapTexts f g = c.mapTexts f g ↔ ∀ t ∈ c.lineTexts, f (f t) = f t := by
  cases h : c.style.isMultiline <;> simp [mapTexts, lineTexts, h, hg]

theorem Space.map_again_iff (s : Space) :
    (s.map f (.mapTexts f g)).map f (.mapTexts f g) = s.map f (.mapTexts f g) ↔
      ∀ t ∈ s.lineTexts, f (f t) = f t := by
  simp only [map, Space.mk.injEq, List.map_map, List.map_inj_left, lineTexts,
    List.forall_mem_cons, List.forall_mem_flatMap]
  exact and_congr_right fun _ => forall₂_congr fun c _ => Comment.mapTexts_again_iff hg c

end Texts

theorem Text.stripEnd_stripEnd (t : Text) : t.stripEnd.stripEnd = t.stripEnd :=
  List.rdropWhile_idempotent isBlankChar t

namespace Space

theorem withLineEnds_again_iff (crlf : Bool) (s : Space) :
    (s.withLineEnds crlf).withLineEnds crlf = s.withLineEnds crlf ↔
      ∀ t ∈ s.lineTexts, crlf ∨ ¬ ['\r', '\r', '\n'] <:+: t := by
  have hagain := map_again_iff (f := Text.withLineEnds crlf) (g := id) (fun _ => rfl) s
  simp only [Text.withLineEnds_again_iff] at hagain
  exact hagain

theorem mapLastWhitespace_concat (f : Text → Text) (w : Text) (cs : List Comment) (c : Comment) :
    mapLastWhitespace f ⟨w, cs ++ [c]⟩ = ⟨w, cs ++ [{ c with suffix := f c.suffix }]⟩ := by
  have hlast : mapLastSuffix f (cs ++ [c]) = cs ++ [{ c with suffix := f c.suffix }] := by
    induction cs with
    | nil => rfl
    | cons d cs ih =>
      cases cs <;> simp_all [mapLastSuffix]
  rw [← hlast]
  cases cs <;> rfl

/-- Once only line breaks are left there are no blanks before them. -/
theorem lineBreaksOnly_again (t : Text) :
    t.lineBreaksOnly.stripLineEnds.lineBreaksOnly = t.lineBreaksOnly := by
  have hbreaks : ∀ c ∈ t.lineBreaksOnly, c = '\n' ∨ c = '\r' := by
    intro c hc
    simpa using (List.mem_filter.1 hc).2
  have hstays : t.lineBreaksOnly.stripLineEnds = t.lineBreaksOnly := by
    rw [Text.stripLineEnds_eq_self_iff]
    rintro ⟨c, rest, hsuffix, hc, -⟩
    rcases hbreaks c (hsuffix.subset List.mem_cons_self) with rfl | rfl <;>
      exact absurd hc (by decide)
  rw [hstays]
  exact List.filter_eq_self.2 fun c hc => by simpa using hbreaks c hc

theorem stripLast_again_iff (c : Comment) : c.stripLast.stripLast = c.stripLast ↔
    ∀ t ∈ c.lineTexts.dropLast, t.stripLineEnds.stripLineEnds = t.stripLineEnds := by
  cases h : c.style.isMultiline <;>
    simp [Comment.stripLast, Comment.stripLineEnds, Comment.lineTexts, h, lineBreaksOnly_again,
      Text.stripEnd_stripEnd]

theorem stripLineEnds_concat (w : Text) (cs : List Comment) (c : Comment) :
    (⟨w, cs ++ [c]⟩ : Space).stripLineEnds .endOfUnit =
      ⟨w.stripLineEnds, cs.map Comment.stripLineEnds ++ [c.stripLast]⟩ := by
  rw [stripLineEnds, if_pos rfl, map, List.map_append, List.map_singleton]
  exact mapLastWhitespace_concat ..

theorem stripLineEnds_endOfUnit_again_iff (s : Space) :
    (s.stripLineEnds .endOfUnit).stripLineEnds .endOfUnit = s.stripLineEnds .endOfUnit ↔
      ∀ t ∈ s.lineTexts.dropLast, t.stripLineEnds.stripLineEnds = t.stripLineEnds := by
  obtain ⟨w, cs⟩ := s
  rcases List.eq_nil_or_concat cs with rfl | ⟨ds, d, rfl⟩
  · refine iff_of_true ?_ (List.forall_mem_nil _)
    exact congrArg (Space.mk · []) (lineBreaksOnly_again w.stripLineEnds)
  · have htexts : (⟨w, ds ++ [d]⟩ : Space).lineTexts.dropLast =
        w :: ds.flatMap Comment.lineTexts ++ d.lineTexts.dropLast := by
      have hne : d.lineTexts ≠ [] := by
        unfold Comment.lineTexts
        split <;> exact List.cons_ne_nil _ _
      rw [lineTexts, List.flatMap_append, List.flatMap_singleton, ← List.cons_append,
        List.dropLast_append_of_ne_nil hne]
    have hcomment (c : Comment) : c.stripLineEnds.stripLineEnds = c.stripLineEnds ↔
        ∀ t ∈ c.lineTexts, t.stripLineEnds.stripLineEnds = t.stripLineEnds :=
      Comment.mapTexts_again_iff Text.stripEnd_stripEnd c
    rw [List.concat_eq_append, htexts, stripLineEnds_concat, stripLineEnds_concat]
    simp only [Space.mk.injEq, List.append_singleton_inj, List.map_map, List.map_inj_left,
      Function.comp_apply, stripLast_again_iff, hcomment, List.cons_append, List.forall_mem_cons,
      List.forall_mem_append, List.forall_mem_flatMap]

theorem stripLineEnds_again_iff (slot : SpaceSlot) (s : Space) :
    (s.stripLineEnds slot).stripLineEnds slot = s.stripLineEnds slot ↔
      ∀ t ∈ s.strippedTexts slot, ¬ t.SplitsLineEnd := by
  by_cases hslot : slot = .endOfUnit
  · have hagain := stripLineEnds_endOfUnit_again_iff s
    simp only [Text.stripLineEnds_again_iff] at hagain
    rw [hslot, strippedTexts, if_pos rfl]
    exact hagain
  · have hagain := map_again_iff (f := Text.stripLineEnds) Text.stripEnd_stripEnd s
    simp only [Text.stripLineEnds_again_iff] at hagain
    simp only [stripLineEnds, strippedTexts, if_neg hslot]
    exact hagain

end Space

namespace Pass

/-- **A second run** over line ends gives what the first gives, but for two ways in which line ends
can be hidden: a carriage return in front of a carriage return and a line feed, where line ends
become line feeds, and blanks on both sides of a carriage return with a line feed behind them, where
blanks before line ends go.  So it is with texts, and with trees if it is so in any of their
spaces; with a carriage return and a line feed for each line end nothing is hidden. -/
theorem run_again_iff (styles : Styles) (t : Tree) :
    (∀ (crlf : Bool) (w : Text), (w.withLineEnds crlf).withLineEnds crlf = w.withLineEnds crlf ↔
      crlf ∨ ¬ ['\r', '\r', '\n'] <:+: w) ∧
    (∀ w : Text, w.stripLineEnds.stripLineEnds = w.stripLineEnds ↔ ¬ w.SplitsLineEnd) ∧
    (∃ u v, run styles none [.root] lineEnds t = .ok u ∧
      run styles none [.root] lineEnds u = .ok v ∧
      (v = u ↔ ∀ p ∈ t.spaces, ∀ w ∈ p.2.lineTexts,
        styles.useCrlf ∨ ¬ ['\r', '\r', '\n'] <:+: w)) ∧
    ∃ u v, run styles none [.root] trailingBlanks t = .ok u ∧
      run styles none [.root] trailingBlanks u = .ok v ∧
      (v = u ↔ ∀ p ∈ t.spaces, ∀ w ∈ p.2.strippedTexts p.1, ¬ w.SplitsLineEnd) := by
  have hrun (h : SpaceSlot → Space → Space) (t : Tree) :
      runPlain (.ofSpaces none h) [.root] t = .ok (t.respaced h) :=
    (runPlain_eq (Visitor.isLocal_ofSpaces h) t).trans
      (congrArg _ (Tree.rewrite_eq_respaced h none t))
  refine ⟨Text.withLineEnds_again_iff, Text.stripLineEnds_again_iff,
    ⟨_, _, hrun _ t, hrun _ _, ?_⟩, ⟨_, _, hrun _ t, hrun _ _, ?_⟩⟩
  · rw [Tree.respaced_again_iff]
    exact forall₂_congr fun p _ => Space.withLineEnds_again_iff styles.useCrlf p.2
  · rw [Tree.respaced_again_iff]
    exact forall₂_congr fun p _ => Space.stripLineEnds_again_iff p.1 p.2

/-- A carriage return too many at the end of a line, and blanks around a lone one. -/
theorem not_run_again_lineEnds :
    (¬ ∀ w : Text, (w.withLineEnds false).withLineEnds false = w.withLineEnds false) ∧
    (¬ ∀ w : Text, w.stripLineEnds.stripLineEnds = w.stripLineEnds) ∧
    ∀ pass ∈ [lineEnds, trailingBlanks], ¬ ∀ (source : Text) (t u : Tree) (n : NodeId),
      parseFrom .unit source 0 = .ok (t, n) → run .standard none [.root] pass t = .ok u →
        run .standard none [.root] pass u = .ok u := by
  refine ⟨fun h => absurd (h ['\r', '\r', '\n']) (by decide),
    fun h => absurd (h [' ', '\r', ' ', '\n']) (by decide), ?_⟩
  -- the two runs print different texts
  have hdiffers {pass : Pass} (source : Text)
      (h : (parseFrom .unit source 0).toOption.any fun r =>
        (run .standard none [.root] pass r.1).toOption.any fun u =>
          (run .standard none [.root] pass u).toOption.any fun v => v.toText != u.toText) :
      ¬ ∀ (source : Text) (t u : Tree) (n : NodeId), parseFrom .unit source 0 = .ok (t, n) →
        run .standard none [.root] pass t = .ok u → run .standard none [.root] pass u = .ok u := by
    intro hagain
    obtain ⟨t, n, ht, h⟩ := exists_parseFrom (p := fun t =>
      (run .standard none [.root] pass t).toOption.any fun u =>
        (run .standard none [.root] pass u).toOption.any fun v => v.toText != u.toText) h
    obtain ⟨u, hu, h⟩ := exists_of_toOption_any h
    obtain ⟨v, hv, h⟩ := exists_of_toOption_any h
    obtain rfl := Except.ok.inj (hv.symm.trans (hagain source t u n ht hu))
    exact absurd rfl (bne_iff_ne.1 h)
  simp only [List.forall_mem_cons, List.not_mem_nil, false_implies, implies_true, and_true]
  exact ⟨hdiffers "class A \x7b\x7d\r\r\n".toList (by decide +kernel),
    hdiffers "class A \x7b \r \n\x7d".toList (by decide +kernel)⟩

end Pass

end JavaSource
