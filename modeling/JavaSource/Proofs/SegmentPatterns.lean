import JavaSource.Proofs.GlobLanguage
import JavaSource.Proofs.Lines

/-!
# Type patterns by segments

A type pattern is matched character by character, and means segments: between dots stands a segment
in which a star takes any run of characters, and between two dots and the next segment any number of
further segments may stand (`SegmentPattern.Fits`).  That no match crosses or splits a segment is
because a star takes no dot, and two dots take only what ends in a dot
(`SegmentPattern.accepts_iff_fits`).

A pattern that is a star alone, or a known class without its package, means something else.
-/

namespace JavaSource

/-! ### Segments -/

/-- The character can stand in a segment of a name. -/
def isSegmentChar (c : Char) : Bool := isAlphanumeric c || c == '_' || c == '$'

/-- A segment of a name. -/
def IsSegment (t : Text) : Prop := t ≠ [] ∧ ∀ c ∈ t, isSegmentChar c

/-- A segment of a pattern. -/
def IsStarredSegment (t : Text) : Prop := t ≠ [] ∧ ∀ c ∈ t, isSegmentChar c ∨ c = '*'

instance : DecidablePred IsSegment := fun t =>
  decidable_of_iff (t ≠ [] ∧ t.all isSegmentChar) (and_congr_right' List.all_eq_true)

instance : DecidablePred IsStarredSegment := fun t =>
  decidable_of_iff (t ≠ [] ∧ t.all fun c => isSegmentChar c || c == '*') (by simp [IsStarredSegment])

theorem ne_of_isSegmentChar {c d : Char} (hc : isSegmentChar c) (hd : isSegmentChar d = false) :
    c ≠ d := by
  rintro rfl
  rw [hd] at hc
  cases hc

theorem isSegmentChar_dot : isSegmentChar '.' = false := by decide +kernel

theorem isSegmentChar_lineFeed : isSegmentChar '\n' = false := by decide +kernel

theorem IsStarredSegment.not_mem_dot {t : Text} (h : IsStarredSegment t) : '.' ∉ t := fun hdot =>
  (h.2 '.' hdot).elim (fun hc => ne_of_isSegmentChar hc isSegmentChar_dot rfl) (by decide)

/-- What stands between two segments of a pattern. -/
inductive Joint where
  | dot
  /-- Two dots, for any number of segments in between. -/
  | dots
deriving DecidableEq, Repr

/-- The joint as it is written. -/
def Joint.text : Joint → Text
  | dot => ['.']
  | dots => ['.', '.']

/-- A type pattern made of segments: the first one, and the others each behind its joint. -/
structure SegmentPattern where
  first : Text
  later : List (Joint × Text)
  isStarred_first : IsStarredSegment first := by decide +kernel
  isStarred_later : ∀ q ∈ later, IsStarredSegment q.2 := by decide +kernel

namespace SegmentPattern

/-- Segments behind their joints, as they are written. -/
def laterText (later : List (Joint × Text)) : Text := later.flatMap fun q => q.1.text ++ q.2

/-- The pattern as it is written. -/
def toText (p : SegmentPattern) : Text := p.first ++ laterText p.later

/-- A segment of a name is what a segment of a pattern says, each star being any run of
characters. -/
inductive FitsSegment : Text → Text → Prop where
  | nil : FitsSegment [] []
  | char {c : Char} {p s : Text} (hc : c ≠ '*') (h : FitsSegment p s) :
      FitsSegment (c :: p) (c :: s)
  | star {p s : Text} (run : Text) (h : FitsSegment p s) : FitsSegment ('*' :: p) (run ++ s)

/-- Segments of a name are what the later segments of a pattern say: one for each, and any number in
between at two dots. -/
inductive FitsLater : List (Joint × Text) → List Text → Prop where
  | nil : FitsLater [] []
  | dot {q s : Text} {later : List (Joint × Text)} {rest : List Text} (hs : FitsSegment q s)
      (h : FitsLater later rest) : FitsLater ((.dot, q) :: later) (s :: rest)
  | dots {q s : Text} {later : List (Joint × Text)} {rest : List Text} (between : List Text)
      (hs : FitsSegment q s) (h : FitsLater later rest) :
      FitsLater ((.dots, q) :: later) (between ++ s :: rest)

/-- Segments of a name are what the segments of a pattern say. -/
def FitsFrom (first : Text) (later : List (Joint × Text)) (segments : List Text) : Prop :=
  ∃ s rest, segments = s :: rest ∧ FitsSegment first s ∧ FitsLater later rest

/-- The segments of a name fit the pattern. -/
def Fits (p : SegmentPattern) (segments : List Text) : Prop := FitsFrom p.first p.later segments

variable {first q : Text} {later : List (Joint × Text)} {segments : List Text}

theorem fitsFrom_nil : FitsFrom first [] segments ↔ ∃ s, segments = [s] ∧ FitsSegment first s := by
  constructor
  · rintro ⟨s, _, rfl, hs, ⟨⟩⟩
    exact ⟨s, rfl, hs⟩
  · rintro ⟨s, rfl, hs⟩
    exact ⟨s, [], rfl, hs, .nil⟩

theorem fitsFrom_dot : FitsFrom first ((.dot, q) :: later) segments ↔
    ∃ s rest, segments = s :: rest ∧ FitsSegment first s ∧ FitsFrom q later rest := by
  constructor
  · rintro ⟨s, _, rfl, hs, _ | @⟨_, s', _, rest, hs', h⟩⟩
    exact ⟨s, s' :: rest, rfl, hs, s', rest, rfl, hs', h⟩
  · rintro ⟨s, _, rfl, hs, s', rest, rfl, hs', h⟩
    exact ⟨s, s' :: rest, rfl, hs, .dot hs' h⟩

theorem fitsFrom_dots : FitsFrom first ((.dots, q) :: later) segments ↔
    ∃ s between rest, segments = s :: (between ++ rest) ∧ FitsSegment first s ∧
      FitsFrom q later rest := by
  constructor
  · rintro ⟨s, _, rfl, hs, _ | _ | @⟨_, s', _, rest, between, hs', h⟩⟩
    exact ⟨s, between, s' :: rest, rfl, hs, s', rest, rfl, hs', h⟩
  · rintro ⟨s, between, _, rfl, hs, s', rest, rfl, hs', h⟩
    exact ⟨s, between ++ s' :: rest, rfl, hs, .dots between hs' h⟩

theorem FitsFrom.ne_nil (h : FitsFrom first later segments) : segments ≠ [] := by
  obtain ⟨s, rest, rfl, -⟩ := h
  exact List.cons_ne_nil s rest

end SegmentPattern

/-! ### Cutting a text in two -/

namespace Text

variable {c : Char} {t : Text} {before after : List Text}

theorem exists_mem_split {d : Char} (hd : d ∈ t) (hne : d ≠ c) : ∃ s ∈ split c t, d ∈ s := by
  fun_induction split c t with
  | case1 => cases hd
  | case2 rest ih =>
    obtain ⟨s, hs, hmem⟩ := ih ((List.mem_cons.1 hd).resolve_left hne)
    exact ⟨s, .tail _ hs, hmem⟩
  | case3 e rest he h => exact absurd h (split_ne_nil c rest)
  | case4 e rest he first later h ih =>
    rcases List.mem_cons.1 hd with rfl | hd
    · exact ⟨d :: first, .head _, .head _⟩
    · obtain ⟨s, hs, hmem⟩ := ih hd
      rw [h] at hs
      rcases List.mem_cons.1 hs with rfl | hs
      · exact ⟨e :: s, .head _, .tail _ hmem⟩
      · exact ⟨s, .tail _ hs, hmem⟩

/-- Between two parts of a text is the separator. -/
theorem cut_of_split (h : split c t = before ++ after) (hb : before ≠ []) (ha : after ≠ []) :
    t = join [c] before ++ c :: join [c] after ∧ split c (join [c] after) = after := by
  refine ⟨?_, split_join ha fun s hs => ?_⟩
  · rw [← join_split c t, h, join_append hb ha, List.append_assoc, List.singleton_append]
  · exact not_mem_of_mem_split c t s (h ▸ List.mem_append_right _ hs)

end Text

/-! ### The language of a pattern -/

namespace Glob

open SegmentPattern

variable {p t : Text} {later : List (Joint × Text)}

theorem wildcards_dot {rest : Text} (h : rest.head? ≠ some '.') :
    wildcards ('.' :: rest) = seq (char '.') (wildcards rest) :=
  wildcards.eq_4 '.' rest (by rintro rest _ rfl; exact h rfl) (by decide)

theorem wildcards_char {c : Char} (hdot : c ≠ '.') (hstar : c ≠ '*') (rest : Text) :
    wildcards (c :: rest) = seq (char c) (wildcards rest) :=
  wildcards.eq_4 c rest (fun _ h => absurd h hdot) hstar

/-- A segment of a pattern describes texts that fit it and have no dots. -/
theorem mem_language_wildcards_append (hp : '.' ∉ p) (rest : Text) :
    t ∈ (wildcards (p ++ rest)).language ↔
      ∃ u v, u ++ v = t ∧ '.' ∉ u ∧ FitsSegment p u ∧ v ∈ (wildcards rest).language := by
  induction p generalizing t with
  | nil =>
    constructor
    · exact fun h => ⟨[], t, rfl, List.not_mem_nil, .nil, h⟩
    · rintro ⟨_, v, rfl, -, ⟨⟩, hv⟩
      exact hv
  | cons c p ih =>
    obtain ⟨hc, hp'⟩ := List.ne_and_not_mem_of_not_mem_cons hp
    have ih {t : Text} := ih (t := t) hp'
    by_cases hstar : c = '*'
    · -- what a star takes has no dot, so the run is the start of the same segment
      subst hstar
      rw [List.cons_append, wildcards, segmentPart, mem_language_seq]
      simp only [mem_language_many_one, CharSet.contains, bne_iff_ne]
      constructor
      · rintro ⟨run, hrun, _, hrest, rfl⟩
        obtain ⟨u, v, rfl, hu, hfits, hv⟩ := ih.1 hrest
        refine ⟨run ++ u, v, List.append_assoc .., ?_, .star run hfits, hv⟩
        exact fun hdot => (List.mem_append.1 hdot).elim (fun h => hrun _ h rfl) hu
      · rintro ⟨_, v, rfl, hdot, hfits, hv⟩
        cases hfits with
        | char hne => exact absurd rfl hne
        | @star _ u run hfits =>
          rw [List.mem_append, not_or] at hdot
          exact ⟨run, fun d hd hdot' => hdot.1 (hdot' ▸ hd), u ++ v,
            ih.2 ⟨u, v, rfl, hdot.2, hfits, hv⟩, (List.append_assoc ..).symm⟩
    · rw [List.cons_append, wildcards_char (Ne.symm hc) hstar, mem_char_seq]
      constructor
      · rintro ⟨_, hrest, rfl⟩
        obtain ⟨u, v, rfl, hu, hfits, hv⟩ := ih.1 hrest
        exact ⟨c :: u, v, rfl, List.not_mem_cons_of_ne_of_not_mem hc hu, .char hstar hfits, hv⟩
      · rintro ⟨_, v, rfl, hdot, hfits, hv⟩
        cases hfits with
        | @char _ _ u _ hfits =>
          exact ⟨u ++ v, ih.2 ⟨u, v, rfl, List.not_mem_of_not_mem_cons hdot, hfits, hv⟩, rfl⟩
        | star => exact absurd rfl hstar

/-- Two dots describe a dot, or what stands between two dots in one line. -/
theorem mem_language_manySegments :
    t ∈ manySegments.language ↔ t = ['.'] ∨ ∃ y, y ≠ [] ∧ '\n' ∉ y ∧ t = '.' :: (y ++ ['.']) := by
  have hline {y : Text} : y ∈ (atLeastOne (one (.except '\n'))).language ↔ y ≠ [] ∧ '\n' ∉ y := by
    simp only [mem_language_atLeastOne_one, CharSet.contains, bne_iff_ne]
    exact and_congr_right fun _ => ⟨fun h hmem => h _ hmem rfl, fun h c hc heq => h (heq ▸ hc)⟩
  rw [manySegments, mem_char_seq]
  simp only [mem_language_optional, mem_language_seq, mem_language_char, hline]
  constructor
  · rintro ⟨_, rfl | ⟨y, ⟨hne, hy⟩, _, rfl, rfl⟩, rfl⟩
    · exact .inl rfl
    · exact .inr ⟨y, hne, hy, rfl⟩
  · rintro (rfl | ⟨y, hne, hy, rfl⟩)
    · exact ⟨[], .inl rfl, rfl⟩
    · exact ⟨y ++ ['.'], .inr ⟨y, ⟨hne, hy⟩, ['.'], rfl, rfl⟩, rfl⟩

section Cut

/-! A glob `g` that describes what `Q` says of the segments, wherever in the text a dot is before
it. -/

variable {g : Glob} {P : Text → Prop} {Q : List Text → Prop}
  (hg : ∀ x y, t = x ++ '.' :: y → (y ∈ g.language ↔ Q (Text.split '.' y)))
  (hQ : ∀ segments, Q segments → segments ≠ [])

include hg hQ

/-- Behind one dot the next segment starts. -/
theorem exists_dot_iff :
    (∃ u v, u ++ v = t ∧ '.' ∉ u ∧ P u ∧ v ∈ (seq (char '.') g).language) ↔
      ∃ s rest, Text.split '.' t = s :: rest ∧ P s ∧ Q rest := by
  constructor
  · rintro ⟨u, v, rfl, hu, hP, hv⟩
    obtain ⟨w, hw, rfl⟩ := mem_char_seq.1 hv
    exact ⟨u, Text.split '.' w, Text.split_append hu w, hP, (hg u w rfl).1 hw⟩
  · rintro ⟨s, rest, hsplit, hP, hrest⟩
    have hcut : Text.split '.' t = [s] ++ rest := hsplit
    obtain ⟨heq, hs⟩ := Text.cut_of_split hcut (by simp) (hQ rest hrest)
    have hdot : '.' ∉ s := Text.not_mem_of_mem_split '.' t s (hsplit ▸ .head _)
    have hw := (hg _ _ heq).2 (hs.symm ▸ hrest)
    exact ⟨s, _, heq.symm, hdot, hP, mem_char_seq.2 ⟨_, hw, rfl⟩⟩

/-- Behind two dots the next segment starts or a later one, unless the text has more than one line or
an empty segment. -/
theorem exists_dots_iff (hline : '\n' ∉ t) (ht : ∀ s ∈ Text.split '.' t, s ≠ []) :
    (∃ u v, u ++ v = t ∧ '.' ∉ u ∧ P u ∧ v ∈ (seq manySegments g).language) ↔
      ∃ s between rest, Text.split '.' t = s :: (between ++ rest) ∧ P s ∧ Q rest := by
  constructor
  · rintro ⟨u, v, rfl, hu, hP, hv⟩
    obtain ⟨m, hm, w, hw, rfl⟩ := mem_language_seq.1 hv
    rcases mem_language_manySegments.1 hm with rfl | ⟨y, -, -, rfl⟩
    · exact ⟨u, [], Text.split '.' w, Text.split_append hu w, hP, (hg u w rfl).1 hw⟩
    · refine ⟨u, Text.split '.' y, Text.split '.' w, ?_, hP, (hg (u ++ '.' :: y) w (by simp)).1 hw⟩
      rw [List.cons_append, List.append_assoc, Text.split_append hu]
      exact congrArg (u :: ·) (Text.split_append_cons '.' y w)
  · rintro ⟨s, between, rest, hsplit, hP, hrest⟩
    have hcut : Text.split '.' t = (s :: between) ++ rest := hsplit
    obtain ⟨heq, hs⟩ := Text.cut_of_split hcut (by simp) (hQ rest hrest)
    have hdot : '.' ∉ s := Text.not_mem_of_mem_split '.' t s (hsplit ▸ .head _)
    have hw := (hg _ _ heq).2 (hs.symm ▸ hrest)
    cases between with
    | nil =>
      have hone : ['.'] ∈ manySegments.language := mem_language_manySegments.2 (.inl rfl)
      exact ⟨s, _, heq.symm, hdot, hP, mem_language_seq.2 ⟨_, hone, _, hw, rfl⟩⟩
    | cons s' between =>
      -- the segments in between, joined again, are what the two dots take between their own dots
      let y := Text.join ['.'] (s' :: between)
      have hy : y ≠ [] := by
        have hs' : s' ≠ [] := ht s' (hsplit ▸ .tail _ (.head _))
        cases between <;> simp [y, Text.join, hs']
      have hmany : '.' :: (y ++ ['.']) ∈ manySegments.language := by
        refine mem_language_manySegments.2 (.inr ⟨y, hy, fun hmem => hline ?_, rfl⟩)
        rw [heq]
        exact List.mem_append_left _ (List.mem_append_right _ hmem)
      refine ⟨s, _, ?_, hdot, hP, mem_language_seq.2 ⟨_, hmany, _, hw, rfl⟩⟩
      rw [heq]
      simp [Text.join, y]

end Cut

/-- Segments of a pattern describe the names whose segments fit them. -/
theorem mem_language_segments (hp : '.' ∉ p) (hlater : ∀ q ∈ later, IsStarredSegment q.2)
    (hline : '\n' ∉ t) (ht : ∀ s ∈ Text.split '.' t, s ≠ []) :
    t ∈ (wildcards (p ++ laterText later)).language ↔ FitsFrom p later (Text.split '.' t) := by
  induction later generalizing p t with
  | nil =>
    rw [mem_language_wildcards_append hp, fitsFrom_nil]
    constructor
    · rintro ⟨u, _, rfl, hu, hfits, rfl⟩
      exact ⟨u, by rw [List.append_nil, Text.split_of_not_mem hu], hfits⟩
    · rintro ⟨s, hsplit, hfits⟩
      have hs : '.' ∉ s := Text.not_mem_of_mem_split '.' t s (hsplit ▸ .head _)
      rw [← Text.join_split '.' t, hsplit]
      exact ⟨s, [], List.append_nil s, hs, hfits, rfl⟩
  | cons q later ih =>
    obtain ⟨joint, q⟩ := q
    obtain ⟨hq, hlater⟩ := List.forall_mem_cons.1 hlater
    -- behind any dot the name is cut as it was, so that a match of the rest cannot split a segment
    have hbehind (x y : Text) (h : t = x ++ '.' :: y) :
        y ∈ (wildcards (q ++ laterText later)).language ↔ FitsFrom q later (Text.split '.' y) := by
      refine ih hq.not_mem_dot hlater (fun hy => hline (by simp [h, hy])) fun s hs => ht s ?_
      rw [h, Text.split_append_cons]
      exact List.mem_append_right _ hs
    rw [mem_language_wildcards_append hp]
    cases joint with
    | dot =>
      have hhead : (q ++ laterText later).head? ≠ some '.' := by
        obtain ⟨c, q, rfl⟩ := List.exists_cons_of_ne_nil hq.1
        intro hdot
        exact hq.not_mem_dot (Option.some.inj hdot ▸ .head q)
      have hwildcards : wildcards (laterText ((.dot, q) :: later)) =
        seq (char '.') (wildcards (q ++ laterText later)) := wildcards_dot hhead
      rw [hwildcards, fitsFrom_dot]
      exact exists_dot_iff hbehind fun _ h => h.ne_nil
    | dots =>
      have hwildcards : wildcards (laterText ((.dots, q) :: later)) =
        seq manySegments (wildcards (q ++ laterText later)) := rfl
      rw [hwildcards, fitsFrom_dots]
      exact exists_dots_iff hbehind (fun _ h => h.ne_nil) hline ht

theorem withoutBrackets_of_not_mem (h : ']' ∉ t) : withoutBrackets t = t := by
  have hstrip : withoutBrackets.strip t.reverse = t.reverse := by
    cases hr : t.reverse with
    | nil => rfl
    | cons c rest =>
      have hc : c ≠ ']' := fun hc => h (List.mem_reverse.1 (hr ▸ hc ▸ .head rest))
      exact withoutBrackets.strip.eq_2 (c :: rest) fun rest heq => hc (List.cons.inj heq).1
  rw [withoutBrackets, hstrip, List.reverse_reverse]

end Glob

namespace SegmentPattern

/-- What stands in a pattern. -/
theorem not_mem_toText (p : SegmentPattern) {c : Char} (hc : isSegmentChar c = false)
    (hstar : c ≠ '*') (hdot : c ≠ '.') : c ∉ p.toText := by
  have hsegment {t : Text} (h : IsStarredSegment t) : c ∉ t := fun hmem =>
    (h.2 c hmem).elim (fun hc' => ne_of_isSegmentChar hc' hc rfl) hstar
  have hjoint (joint : Joint) : c ∉ joint.text := by
    cases joint <;> simp [Joint.text, hdot]
  simp only [toText, laterText, List.mem_append, List.mem_flatMap, not_or, not_exists, not_and]
  exact ⟨hsegment p.isStarred_first, fun q hq => ⟨hjoint q.1, hsegment (p.isStarred_later q hq)⟩⟩

/-- **Type patterns mean segments.**  A pattern made of segments, in which stars may stand, with one
dot or two between each two of them accepts a name just if its segments fit in order: each segment of
the pattern takes one segment of the name, each star in it any run of characters, and two dots any
number of segments in between.  The pattern is no star alone and no known class without its
package. -/
theorem accepts_iff_fits (p : SegmentPattern) (hstar : p.toText ≠ ['*'])
    (hknown : ∀ c ∈ knownClasses, p.toText ≠ c.toList) {name : Text}
    (hname : ∀ s ∈ Text.split '.' name, IsSegment s) :
    (Glob.ofTypePattern p.toText).accepts name ↔ p.Fits (Text.split '.' name) := by
  have hplain : isKnownClass p.toText = false := by
    have hbrackets := p.not_mem_toText (c := ']') (by decide +kernel) (by decide) (by decide)
    have hnone : (knownClasses.any fun c => c.toList == withoutBrackets p.toText) = false := by
      rw [List.any_eq_false, Glob.withoutBrackets_of_not_mem hbrackets]
      exact fun c hc heq => hknown c hc (eq_of_beq heq).symm
    rw [isKnownClass, hnone, Bool.and_false]
  have hline : '\n' ∉ name := fun hmem => by
    obtain ⟨s, hs, hmem⟩ := Text.exists_mem_split (c := '.') hmem (by decide)
    exact ne_of_isSegmentChar ((hname s hs).2 _ hmem) isSegmentChar_lineFeed rfl
  rw [Glob.accepts_iff, Glob.ofTypePattern, if_neg hstar, hplain, if_neg Bool.false_ne_true]
  exact Glob.mem_language_segments p.isStarred_first.not_mem_dot p.isStarred_later hline
    fun s hs => (hname s hs).1

/-- Two dots stand for two segments, and a star for the part of one. -/
theorem accepts_iff_fits_service :
    let p : SegmentPattern := ⟨"com".toList, [(.dots, "*Service".toList), (.dot, "$*".toList)],
      by decide +kernel, by decide +kernel⟩
    let name := "com.acme.web.LoginService.$1".toList
    p.toText = "com..*Service.$*".toList ∧ (∀ c ∈ knownClasses, p.toText ≠ c.toList) ∧
      (∀ s ∈ Text.split '.' name, IsSegment s) ∧ p.Fits (Text.split '.' name) ∧
        ¬ p.Fits ["com".toList, "LoginService".toList, "web".toList, "$1".toList] := by
  intro p name
  have hstar : p.toText ≠ ['*'] := by decide
  have hknown : ∀ c ∈ knownClasses, p.toText ≠ c.toList := by decide +kernel
  have hname : ∀ s ∈ Text.split '.' name, IsSegment s := by decide +kernel
  have hother : ∀ s ∈ Text.split '.' "com.LoginService.web.$1".toList, IsSegment s := by
    decide +kernel
  refine ⟨by decide, hknown, hname, (accepts_iff_fits p hstar hknown hname).1 (by decide +kernel), ?_⟩
  exact fun h => absurd ((accepts_iff_fits p hstar hknown hother).2 h) (by decide +kernel)

end SegmentPattern

end JavaSource
