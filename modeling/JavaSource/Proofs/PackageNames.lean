import JavaSource.Proofs.Lines
import JavaSource.Proofs.NestedNames

/-!
# Packages and classes in a name

The package is what stands before the first segment that starts with a capital, and the class is what
stands from the first segment on that does not start with a small letter.  No letter is both, so
nothing of a name is lost; but a segment may start with neither, and where such segments stand in
between they are in the package and in the class (`segments_of_packageName_className`).
-/

namespace JavaSource

/-! ### Capitals and small letters -/

/-- Every code point of the run is even, or every one is odd. -/
def CodeRun.keepsParity (a : CodeRun) : Bool := a.2.2 == 2 || a.1 == a.2.1

/-- The runs have no code point in common: one ends before the other starts, or the code points of one
are even and those of the other odd. -/
def CodeRun.isApart (a b : CodeRun) : Bool :=
  a.2.1.blt b.1 || b.2.1.blt a.1 || (a.keepsParity && b.keepsParity && a.1 % 2 != b.1 % 2)

theorem CodeRun.mod_two_eq {a : CodeRun} {n : Nat} (h : a.keepsParity) (ha : CodeRun.contains n a) :
    n % 2 = a.1 % 2 := by
  obtain ⟨first, last, step⟩ := a
  simp only [keepsParity, contains, Bool.or_eq_true, Bool.and_eq_true, decide_eq_true_eq,
    beq_iff_eq] at h ha
  rcases h with rfl | rfl <;> omega

theorem CodeRun.contains_eq_false {a b : CodeRun} {n : Nat} (h : a.isApart b)
    (ha : CodeRun.contains n a) : CodeRun.contains n b = false := by
  rw [← Bool.not_eq_true]
  intro hb
  simp only [isApart, Bool.or_eq_true, Bool.and_eq_true, Nat.blt_eq, bne_iff_ne] at h
  rcases h with h | ⟨⟨hparity, hparity'⟩, hne⟩
  · simp only [contains, Bool.and_eq_true, decide_eq_true_eq] at ha hb
    omega
  · exact hne ((mod_two_eq hparity ha).symm.trans (mod_two_eq hparity' hb))

/-- No character is a capital and a small letter. -/
theorem isUppercase_eq_false {c : Char} (h : isLowercase c) : isUppercase c = false := by
  have hruns : (lowercaseRuns.all fun a => uppercaseRuns.all (CodeRun.isApart a)) = true := by
    decide +kernel
  obtain ⟨a, ha, hcontains⟩ := List.any_eq_true.1 h
  rw [isUppercase, List.any_eq_false]
  intro b hb
  have hapart := List.all_eq_true.1 (List.all_eq_true.1 hruns a ha) b hb
  rw [CodeRun.contains_eq_false hapart hcontains]
  exact Bool.false_ne_true

/-- The text starts with a small letter. -/
def startsSmall (t : Text) : Bool := t.head?.any isLowercase

theorem isCapitalized_eq_false {t : Text} (h : startsSmall t) : isCapitalized t = false := by
  cases t with
  | nil => rfl
  | cons c t => exact isUppercase_eq_false h

/-! ### Segments between dots -/

/-- The segments of a name between dots; the empty name has none. -/
def dottedSegments (name : Text) : List Text := if name = [] then [] else Text.split '.' name

/-- The segments of a name that is made of segments are these, but for a single empty one. -/
theorem dottedSegments_join {segments : List Text} (h : ∀ s ∈ segments, '.' ∉ s) :
    dottedSegments (Text.join ['.'] segments) = if segments = [[]] then [] else segments := by
  cases segments with
  | nil => rfl
  | cons s later =>
    rw [dottedSegments, Text.split_join (List.cons_ne_nil s later) h]
    refine if_congr ?_ rfl rfl
    cases later with
    | nil => simp [Text.join]
    | cons s' later => simp [Text.join]

/-- A name as the segments that start with small letters, those up to the first that starts with a
capital, and the others. -/
theorem exists_segments (name : Text) : ∃ small neither capital : List Text,
    Text.split '.' name = small ++ neither ++ capital ∧ (∀ s ∈ small, startsSmall s) ∧
      (∀ s ∈ neither.head?, startsSmall s = false) ∧ (∀ s ∈ neither, isCapitalized s = false) ∧
      (∀ s ∈ capital.head?, isCapitalized s) ∧
      packageName name = Text.join ['.'] (small ++ neither) ∧
      className name = Text.join ['.'] (neither ++ capital) := by
  let segments := Text.split '.' name
  let behind := segments.dropWhile startsSmall
  have hsmall : ∀ s ∈ segments.takeWhile startsSmall, startsSmall s := fun s hs =>
    List.mem_takeWhile_imp hs
  have hsplit : segments.takeWhile startsSmall ++ behind = segments := List.takeWhile_append_dropWhile
  have hbehind : behind.takeWhile (!isCapitalized ·) ++ behind.dropWhile (!isCapitalized ·) = behind :=
    List.takeWhile_append_dropWhile
  have hhead {p : Text → Bool} {l : List Text} {s : Text} (hs : (l.dropWhile p).head? = some s) :
      p s = false := by
    have hnot := List.head?_dropWhile_not p l
    rwa [hs] at hnot
  refine ⟨segments.takeWhile startsSmall, behind.takeWhile (!isCapitalized ·),
    behind.dropWhile (!isCapitalized ·), ?_, hsmall, fun s hs => ?_, fun s hs => ?_, fun s hs => ?_,
    ?_, ?_⟩
  · rw [List.append_assoc, hbehind, hsplit]
  · rw [List.head?_takeWhile, Option.mem_def, Option.filter_eq_some_iff] at hs
    exact hhead hs.1
  · simpa using List.mem_takeWhile_imp hs
  · simpa using hhead hs
  · rw [← List.takeWhile_append_of_pos fun s hs => by simp [isCapitalized_eq_false (hsmall s hs)],
      hsplit]
    rfl
  · rw [hbehind]
    rfl

/-- The segments of the two parts make those of the whole where the parts share none, or a single empty
one at an end. -/
theorem segments_append_iff {small neither capital : List Text}
    (hsmall : ∀ s ∈ small, startsSmall s) (hcapital : ∀ s ∈ capital.head?, isCapitalized s) :
    let segments (parts : List Text) := if parts = [[]] then [] else parts
    segments (small ++ neither) ++ segments (neither ++ capital) =
        segments (small ++ neither ++ capital) ↔
      neither = [] ∨ neither = [[]] ∧ (small = [] ∨ capital = []) := by
  intro segments
  have hid {parts : List Text} (h : parts ≠ [[]]) : segments parts = parts := if_neg h
  by_cases hnone : neither = []
  · have hs : small ≠ [[]] := fun h => Bool.false_ne_true (hsmall [] (h ▸ .head _))
    have hc : capital ≠ [[]] := fun h => Bool.false_ne_true (hcapital [] (h ▸ rfl))
    have happend : small ++ capital ≠ [[]] := by
      rw [Ne, List.append_eq_singleton_iff]
      exact fun h => h.elim (fun h => hc h.2) fun h => hs h.1
    simp [hnone, hid hs, hid hc, hid happend]
  · have hleft : small ++ neither = [[]] ↔ small = [] ∧ neither = [[]] := by
      simp [List.append_eq_singleton_iff, hnone]
    have hright : neither ++ capital = [[]] ↔ neither = [[]] ∧ capital = [] := by
      simp [List.append_eq_singleton_iff, hnone]
    by_cases hempty : neither = [[]] ∧ (small = [] ∨ capital = [])
    · refine iff_of_true ?_ (.inr hempty)
      obtain ⟨rfl, rfl | rfl⟩ := hempty <;> simp [segments]
    · -- what the parts share is counted twice
      refine iff_of_false (fun heq => ?_) (not_or.2 ⟨hnone, hempty⟩)
      have hlonger := congrArg List.length heq
      rw [hid fun h => hempty ⟨(hleft.1 h).2, .inl (hleft.1 h).1⟩,
        hid fun h => hempty ⟨(hright.1 h).1, .inr (hright.1 h).2⟩] at hlonger
      have hle : (segments (small ++ neither ++ capital)).length ≤
          (small ++ neither ++ capital).length := by
        simp only [segments]
        split
        · exact Nat.zero_le _
        · exact Nat.le_refl _
      have hpos := List.length_pos_iff.2 hnone
      simp only [List.length_append] at hlonger hle
      omega

/-- **Package and class cover a name.**  A name is made of segments that start with small letters, of
those behind them up to the first that starts with a capital, and of the others.  Its package is made
of the first and second of these, its class of the second and third, so no segment is lost.  The
segments of the package and those of the class behind them are the segments of the name just where
there are no second ones, or a single empty one at an end of the name. -/
theorem segments_of_packageName_className (name : Text) : ∃ small neither capital : List Text,
    Text.split '.' name = small ++ neither ++ capital ∧ (∀ s ∈ small, startsSmall s) ∧
      (∀ s ∈ neither.head?, startsSmall s = false) ∧ (∀ s ∈ neither, isCapitalized s = false) ∧
      (∀ s ∈ capital.head?, isCapitalized s) ∧
      packageName name = Text.join ['.'] (small ++ neither) ∧
      className name = Text.join ['.'] (neither ++ capital) ∧
      (dottedSegments (packageName name) ++ dottedSegments (className name) = dottedSegments name ↔
        neither = [] ∨ neither = [[]] ∧ (small = [] ∨ capital = [])) := by
  obtain ⟨small, neither, capital, hsplit, hsmall, hfirst, hneither, hcapital, hpackage, hclass⟩ :=
    exists_segments name
  refine ⟨small, neither, capital, hsplit, hsmall, hfirst, hneither, hcapital, hpackage, hclass, ?_⟩
  have hdots : ∀ s ∈ small ++ neither ++ capital, '.' ∉ s := by
    rw [← hsplit]
    exact Text.not_mem_of_mem_split '.' name
  have hname : dottedSegments name = dottedSegments (Text.join ['.'] (small ++ neither ++ capital)) := by
    rw [← hsplit, Text.join_split]
  rw [hname, hpackage, hclass, dottedSegments_join hdots,
    dottedSegments_join fun s hs => hdots s (List.mem_append_left _ hs),
    dottedSegments_join fun s hs => hdots s ?_]
  · exact segments_append_iff hsmall hcapital
  · rw [List.append_assoc]
    exact List.mem_append_right _ hs

/-- A segment that starts with neither a capital nor a small letter is in the package and in the
class. -/
theorem exists_segment_shared :
    let name := "com._internal.Foo".toList
    packageName name = "com._internal".toList ∧ className name = "_internal.Foo".toList ∧
      dottedSegments (packageName name) ++ dottedSegments (className name) ≠ dottedSegments name := by
  decide +kernel

end JavaSource
