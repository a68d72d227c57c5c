import JavaSource.Proofs.ClassVariants
import Mathlib.Logic.Relation

/-!
# Names of nested classes

A name is made of segments between delimiters.  The first segment that starts with a capital names the
outermost class; where another segment follows, the class is nested in the one whose name goes up to
the last delimiter (`IsNestedIn`).  The scan for the owner finds just this class, unless the outermost
class has no package and the next segment that starts with a capital is the last one of the name
(`HidesOutermost`): a capital counts only behind a delimiter (`ownerName?_eq_some_iff`).

A class is built after the class around it, so all classes around it are there when it is built
(`nested_of_capital`).
-/

namespace JavaSource

/-! ### Segments of a name -/

/-- The parts of a name between delimiters. -/
def nameSegments (name : Text) : List Text := name.splitOnP isNameDelimiter

/-- The text starts with a capital. -/
def isCapitalized (t : Text) : Bool := t.head?.any isUppercase

/-- The name says that the class is nested in another: a segment follows the first one that starts with
a capital, and the other class has the name up to the last delimiter. -/
structure IsNestedIn (name owner : Text) : Prop where
  outermost : ∃ before capital after, nameSegments name = before ++ capital :: after ∧
    (∀ s ∈ before, isCapitalized s = false) ∧ isCapitalized capital ∧ after ≠ []
  cut : ∃ d last, name = owner ++ d :: last ∧ isNameDelimiter d ∧
    ∀ c ∈ last, isNameDelimiter c = false

/-- The first and the last segment of the name start with capitals, and none between them does. -/
def HidesOutermost (name : Text) : Prop :=
  ∃ first between last, nameSegments name = first :: (between ++ [last]) ∧ isCapitalized first ∧
    isCapitalized last ∧ ∀ s ∈ between, isCapitalized s = false

variable {name owner s t rest : Text} {b d : Char} {p k δ : Nat}

theorem nameSegments_of_forall (h : ∀ c ∈ t, isNameDelimiter c = false) : nameSegments t = [t] :=
  List.splitOnP_eq_singleton h

theorem nameSegments_append (hd : isNameDelimiter d) (s rest : Text) :
    nameSegments (s ++ d :: rest) = nameSegments s ++ nameSegments rest :=
  List.splitOnP_append_cons s rest hd

theorem nameSegments_cons (hs : ∀ c ∈ s, isNameDelimiter c = false) (hd : isNameDelimiter d)
    (rest : Text) : nameSegments (s ++ d :: rest) = s :: nameSegments rest := by
  rw [nameSegments_append hd, nameSegments_of_forall hs, List.singleton_append]

theorem nameSegments_ne_nil (t : Text) : nameSegments t ≠ [] :=
  List.splitOnP_ne_nil isNameDelimiter t

/-- A text with a delimiter is cut at the first one. -/
theorem exists_first_delimiter (h : ¬∀ c ∈ t, isNameDelimiter c = false) :
    ∃ s d rest, t = s ++ d :: rest ∧ isNameDelimiter d ∧ ∀ c ∈ s, isNameDelimiter c = false := by
  have hfound : (t.find? isNameDelimiter).isSome := by
    rw [List.find?_isSome]
    simpa using h
  obtain ⟨d, hfirst⟩ := Option.isSome_iff_exists.1 hfound
  obtain ⟨hd, s, rest, rfl, hs⟩ := List.find?_eq_some_iff_append.1 hfirst
  exact ⟨s, d, rest, rfl, hd, fun c hc => by simpa using hs c hc⟩

/-- A text with a delimiter is cut at the last one. -/
theorem exists_last_delimiter (h : ¬∀ c ∈ t, isNameDelimiter c = false) :
    ∃ s d rest, t = s ++ d :: rest ∧ isNameDelimiter d ∧
      ∀ c ∈ rest, isNameDelimiter c = false := by
  obtain ⟨s, d, rest, hrest, hd, hs⟩ := exists_first_delimiter (t := t.reverse) (by simpa using h)
  refine ⟨rest.reverse, d, s.reverse, ?_, hd, by simpa using hs⟩
  rw [← List.reverse_reverse t, hrest]
  simp

/-- A text that goes on behind a delimiter is shorter there. -/
theorem segment_induction {motive : Text → Prop}
    (last : ∀ s, (∀ c ∈ s, isNameDelimiter c = false) → motive s)
    (more : ∀ s d rest, (∀ c ∈ s, isNameDelimiter c = false) → isNameDelimiter d → motive rest →
      motive (s ++ d :: rest)) (t : Text) : motive t := by
  by_cases h : ∀ c ∈ t, isNameDelimiter c = false
  · exact last t h
  · obtain ⟨s, d, rest, heq, hd, hs⟩ := exists_first_delimiter h
    have hshorter : rest.length < t.length := by
      rw [heq, List.length_append, List.length_cons]
      omega
    rw [heq]
    exact more s d rest hs hd (segment_induction last more rest)
termination_by t.length

/-! ### The scan -/

theorem isUppercase_of_isNameDelimiter (hd : isNameDelimiter d) : isUppercase d = false := by
  rcases Bool.or_eq_true_iff.1 hd with h | h <;> rw [eq_of_beq h] <;> decide

/-- At a delimiter its place is noted. -/
theorem nestingPlaces_delimiter (hd : isNameDelimiter d) (b : Char) (p k δ : Nat) (rest : Text) :
    nestingPlaces b p k δ (d :: rest) = nestingPlaces d (p + 1) k p rest := by
  rw [nestingPlaces, if_neg (by simp [isUppercase_of_isNameDelimiter hd]), if_pos hd]

/-- A capital that starts a segment is noted, if it is the first one. -/
theorem nestingPlaces_capital {c : Char} (hb : isNameDelimiter b) (hc : isUppercase c) (p δ : Nat)
    (rest : Text) : nestingPlaces b p 0 δ (c :: rest) = nestingPlaces c (p + 1) p δ rest := by
  rw [nestingPlaces, if_pos (by simp [hb, hc])]

/-- Elsewhere nothing is noted within a segment. -/
theorem nestingPlaces_append (hs : ∀ c ∈ s, isNameDelimiter c = false)
    (h : k ≠ 0 ∨ isNameDelimiter b = false ∨ isCapitalized s = false) (t : Text) :
    nestingPlaces b p k δ (s ++ t) = nestingPlaces (s.getLastD b) (p + s.length) k δ t := by
  induction s generalizing b p with
  | nil => rfl
  | cons c s ih =>
    obtain ⟨hc, hs⟩ := List.forall_mem_cons.1 hs
    have hplain : ¬(decide (k = 0) && isNameDelimiter b && isUppercase c) = true := by
      rcases h with h | h | h
      · simp [h]
      · simp [h]
      · have hlower : isUppercase c = false := h
        simp [hlower]
    -- from here on the character before is no delimiter
    rw [List.cons_append, nestingPlaces, if_neg hplain, hc, if_neg Bool.false_ne_true,
      ih hs (.inr (.inl hc)), List.getLastD_cons, List.length_cons, Nat.add_assoc p 1, Nat.add_comm 1]

theorem nestingPlaces_last (hs : ∀ c ∈ s, isNameDelimiter c = false)
    (h : k ≠ 0 ∨ isNameDelimiter b = false ∨ isCapitalized s = false) :
    nestingPlaces b p k δ s = (k, δ) := by
  rw [← List.append_nil s, nestingPlaces_append hs h, nestingPlaces]

theorem nestingPlaces_segment (hs : ∀ c ∈ s, isNameDelimiter c = false)
    (h : k ≠ 0 ∨ isNameDelimiter b = false ∨ isCapitalized s = false) (hd : isNameDelimiter d)
    (rest : Text) : nestingPlaces b p k δ (s ++ d :: rest) =
      nestingPlaces d (p + s.length + 1) k (p + s.length) rest := by
  rw [nestingPlaces_append hs h, nestingPlaces_delimiter hd]

/-- A capital that was noted stays. -/
theorem nestingPlaces_fst (hk : k ≠ 0) : (nestingPlaces b p k δ t).1 = k := by
  induction t using segment_induction generalizing b p δ with
  | last s hs => rw [nestingPlaces_last hs (.inl hk)]
  | more s d rest hs hd ih => rw [nestingPlaces_segment hs (.inl hk) hd, ih]

theorem nestingPlaces_snd_of_forall (ht : ∀ c ∈ t, isNameDelimiter c = false) :
    (nestingPlaces b p k δ t).2 = δ := by
  induction t generalizing b p k δ with
  | nil => rfl
  | cons c t ih =>
    obtain ⟨hc, ht⟩ := List.forall_mem_cons.1 ht
    rw [nestingPlaces, hc, if_neg Bool.false_ne_true]
    split <;> exact ih ht

/-- The place of the last delimiter is noted. -/
theorem nestingPlaces_snd (hd : isNameDelimiter d) (hrest : ∀ c ∈ rest, isNameDelimiter c = false)
    (s : Text) : (nestingPlaces b p k δ (s ++ d :: rest)).2 = p + s.length := by
  induction s generalizing b p k δ with
  | nil => rw [List.nil_append, nestingPlaces_delimiter hd, nestingPlaces_snd_of_forall hrest]; rfl
  | cons c s ih =>
    rw [List.cons_append, nestingPlaces, List.length_cons, Nat.add_comm s.length, ← Nat.add_assoc]
    split
    · exact ih
    · split <;> exact ih

/-- The place of the last delimiter is not before the one that is known. -/
theorem le_nestingPlaces_snd (h : δ ≤ p) : δ ≤ (nestingPlaces b p k δ t).2 := by
  by_cases ht : ∀ c ∈ t, isNameDelimiter c = false
  · rw [nestingPlaces_snd_of_forall ht]
  · obtain ⟨s, d, rest, rfl, hd, hrest⟩ := exists_last_delimiter ht
    rw [nestingPlaces_snd hd hrest]
    omega

/-- No capital is noted if no segment starts with one. -/
theorem nestingPlaces_fst_eq_zero (ht : (nameSegments t).any isCapitalized = false) :
    (nestingPlaces b p 0 δ t).1 = 0 := by
  induction t using segment_induction generalizing b p δ with
  | last s hs =>
    rw [nameSegments_of_forall hs, List.any_cons, Bool.or_eq_false_iff] at ht
    rw [nestingPlaces_last hs (.inr (.inr ht.1))]
  | more s d rest hs hd ih =>
    rw [nameSegments_cons hs hd, List.any_cons, Bool.or_eq_false_iff] at ht
    rw [nestingPlaces_segment hs (.inr (.inr ht.1)) hd, ih ht.2]

/-- Behind a delimiter, where some segment starts with a capital: the last delimiter comes after the
first of them if one of them is not the last segment. -/
theorem nestingPlaces_lt_iff (hb : isNameDelimiter b) (hp : 0 < p) (hδ : δ < p)
    (ht : (nameSegments t).any isCapitalized) :
    (nestingPlaces b p 0 δ t).1 < (nestingPlaces b p 0 δ t).2 ↔
      (nameSegments t).dropLast.any isCapitalized := by
  induction t using segment_induction generalizing b p δ with
  | last s hs =>
    rw [nameSegments_of_forall hs, List.any_cons, List.any_nil, Bool.or_false] at ht
    rw [nameSegments_of_forall hs]
    obtain ⟨c, rest, rfl⟩ := List.exists_cons_of_ne_nil (l := s) (by rintro rfl; cases ht)
    obtain ⟨hc, hrest⟩ := List.forall_mem_cons.1 hs
    -- no delimiter comes after the capital
    rw [nestingPlaces_capital hb ht, nestingPlaces_last hrest (.inr (.inl hc))]
    exact iff_of_false (Nat.lt_asymm hδ) Bool.false_ne_true
  | more s d rest hs hd ih =>
    rw [nameSegments_cons hs hd, List.any_cons] at ht
    rw [nameSegments_cons hs hd, List.dropLast_cons_of_ne_nil (nameSegments_ne_nil rest),
      List.any_cons]
    cases hcapital : isCapitalized s with
    | true =>
      obtain ⟨c, s, rfl⟩ := List.exists_cons_of_ne_nil (l := s) (by rintro rfl; cases hcapital)
      obtain ⟨hc, hs⟩ := List.forall_mem_cons.1 hs
      -- its capital is noted for good, and the delimiter behind it comes after
      rw [List.cons_append, nestingPlaces_capital hb hcapital,
        nestingPlaces_segment hs (.inr (.inl hc)) hd, nestingPlaces_fst (by omega)]
      refine iff_of_true (Nat.lt_of_lt_of_le ?_ (le_nestingPlaces_snd (Nat.le_succ _))) rfl
      omega
    | false =>
      rw [hcapital, Bool.false_or] at ht
      rw [nestingPlaces_segment hs (.inr (.inr hcapital)) hd, Bool.false_or]
      exact ih hd (Nat.succ_pos _) (Nat.lt_succ_self _) ht

/-! ### The owner -/

/-- The class around a class has the name up to the last delimiter, where that comes after the capital
that was found. -/
theorem ownerName?_eq_some_iff_lt : ownerName? name = some owner ↔
    (nestingPlaces ' ' 0 0 0 name).1 < (nestingPlaces ' ' 0 0 0 name).2 ∧
      ∃ d last, name = owner ++ d :: last ∧ isNameDelimiter d ∧
        ∀ c ∈ last, isNameDelimiter c = false := by
  simp only [ownerName?, Option.ite_none_right_eq_some, Option.some.injEq]
  refine and_congr_right fun hlt => ?_
  by_cases hname : ∀ c ∈ name, isNameDelimiter c = false
  · rw [nestingPlaces_snd_of_forall hname] at hlt
    omega
  · obtain ⟨s, d, last, rfl, hd, hlast⟩ := exists_last_delimiter hname
    rw [nestingPlaces_snd hd hlast, Nat.zero_add, List.take_left]
    constructor
    · rintro rfl
      exact ⟨d, last, rfl, hd, hlast⟩
    · rintro ⟨d', last', heq, hd', hlast'⟩
      have hsame := nestingPlaces_snd (b := ' ') (p := 0) (k := 0) (δ := 0) hd' hlast' owner
      rw [← heq, nestingPlaces_snd hd hlast, Nat.zero_add, Nat.zero_add] at hsame
      exact (List.append_inj heq hsame).1

/-- A name with a delimiter hides its outermost class if the first segment and the last one start with
capitals and none between them does. -/
theorem hidesOutermost_iff (hs : ∀ c ∈ s, isNameDelimiter c = false) (hd : isNameDelimiter d) :
    HidesOutermost (s ++ d :: rest) ↔ isCapitalized s ∧
      isCapitalized ((nameSegments rest).getLast (nameSegments_ne_nil rest)) ∧
        (nameSegments rest).dropLast.any isCapitalized = false := by
  rw [HidesOutermost, nameSegments_cons hs hd]
  constructor
  · rintro ⟨first, between, last, hsplit, hfirst, hlast, hbetween⟩
    obtain ⟨rfl, hrest⟩ := List.cons.inj hsplit
    simp only [hrest, List.getLast_concat, List.dropLast_concat]
    exact ⟨hfirst, hlast, List.any_eq_false.2 fun x hx => by simp [hbetween x hx]⟩
  · rintro ⟨hfirst, hlast, hbetween⟩
    refine ⟨s, _, _, by rw [List.dropLast_append_getLast], hfirst, hlast, fun x hx => ?_⟩
    simpa using List.any_eq_false.1 hbetween x hx

/-- Where the last delimiter comes after the capital that was found. -/
theorem nestingPlaces_lt_iff_of_any (hcapital : (nameSegments name).any isCapitalized) :
    (nestingPlaces ' ' 0 0 0 name).1 < (nestingPlaces ' ' 0 0 0 name).2 ↔
      (nameSegments name).dropLast.any isCapitalized ∧ ¬HidesOutermost name := by
  by_cases hname : ∀ c ∈ name, isNameDelimiter c = false
  · rw [nestingPlaces_last hname (.inr (.inl rfl)), nameSegments_of_forall hname]
    exact iff_of_false (Nat.lt_irrefl 0) fun h => Bool.false_ne_true h.1
  · obtain ⟨s, d, rest, rfl, hd, hs⟩ := exists_first_delimiter hname
    have hlater : (nameSegments rest).any isCapitalized =
        ((nameSegments rest).dropLast.any isCapitalized ||
          isCapitalized ((nameSegments rest).getLast (nameSegments_ne_nil rest))) := by
      conv_lhs => rw [← List.dropLast_append_getLast (nameSegments_ne_nil rest)]
      simp
    -- the first segment is not behind a delimiter, so its capital is not found
    rw [nestingPlaces_segment hs (.inr (.inl rfl)) hd, hidesOutermost_iff hs hd,
      nameSegments_cons hs hd, List.dropLast_cons_of_ne_nil (nameSegments_ne_nil rest), List.any_cons]
    rw [nameSegments_cons hs hd, List.any_cons] at hcapital
    cases hfound : (nameSegments rest).any isCapitalized with
    | false =>
      rw [hfound, Bool.or_false] at hcapital
      rw [hfound, eq_comm, Bool.or_eq_false_iff] at hlater
      have hpos : 0 < s.length := by
        cases s with
        | nil => cases hcapital
        | cons c s => exact Nat.succ_pos _
      have hplace : 0 + s.length ≤ (nestingPlaces d (0 + s.length + 1) 0 (0 + s.length) rest).2 :=
        le_nestingPlaces_snd (Nat.le_succ _)
      refine iff_of_true ?_ (by simp [hcapital, hlater])
      rw [nestingPlaces_fst_eq_zero hfound]
      omega
    | true =>
      rw [nestingPlaces_lt_iff hd (Nat.succ_pos _) (Nat.lt_succ_self _) hfound]
      rw [hfound, eq_comm, Bool.or_eq_true] at hlater
      cases hbetween : (nameSegments rest).dropLast.any isCapitalized with
      | false => simp [hlater.resolve_left (by simp [hbetween])]
      | true => simp

theorem isNestedIn_iff : IsNestedIn name owner ↔
    (nameSegments name).dropLast.any isCapitalized ∧
      ∃ d last, name = owner ++ d :: last ∧ isNameDelimiter d ∧
        ∀ c ∈ last, isNameDelimiter c = false := by
  constructor
  · rintro ⟨⟨before, capital, after, hsplit, -, hcapital, hafter⟩, hcut⟩
    refine ⟨List.any_eq_true.2 ⟨capital, ?_, hcapital⟩, hcut⟩
    rw [hsplit, List.dropLast_append_of_ne_nil (List.cons_ne_nil _ _),
      List.dropLast_cons_of_ne_nil hafter]
    simp
  · rintro ⟨hany, hcut⟩
    obtain ⟨capital, hfirst⟩ := Option.isSome_iff_exists.1 (List.find?_isSome.2 (List.any_eq_true.1 hany))
    obtain ⟨hcapital, before, after, hsplit, hbefore⟩ := List.find?_eq_some_iff_append.1 hfirst
    refine ⟨⟨before, capital, after ++ [(nameSegments name).getLast (nameSegments_ne_nil name)], ?_,
      fun s hs => by simpa using hbefore s hs, hcapital, by simp⟩, hcut⟩
    rw [← List.cons_append, ← List.append_assoc, ← hsplit, List.dropLast_append_getLast]

/-- The class around a nested class is found, unless the scan takes the last segment for the outermost
class. -/
theorem ownerName?_eq_some_iff (hcapital : (nameSegments name).any isCapitalized) :
    ownerName? name = some owner ↔ IsNestedIn name owner ∧ ¬HidesOutermost name := by
  rw [ownerName?_eq_some_iff_lt, nestingPlaces_lt_iff_of_any hcapital, isNestedIn_iff]
  tauto

theorem IsNestedIn.any_isCapitalized (h : IsNestedIn name owner) :
    (nameSegments name).any isCapitalized := by
  obtain ⟨before, capital, after, hsplit, -, hcapital, -⟩ := h.outermost
  rw [hsplit, List.any_append, List.any_cons, hcapital, Bool.true_or, Bool.or_true]

/-- A name and that of the class around it start with one segment. -/
theorem IsNestedIn.head?_nameSegments (h : IsNestedIn name owner) :
    (nameSegments owner).head? = (nameSegments name).head? := by
  obtain ⟨d, last, rfl, hd, -⟩ := h.cut
  rw [nameSegments_append hd, List.head?_append_of_ne_nil _ (nameSegments_ne_nil owner)]

/-- In a package no outermost class is hidden. -/
theorem not_hidesOutermost (hpackage : ∀ s ∈ (nameSegments name).head?, isCapitalized s = false)
    {inner : Text} (h : Relation.ReflTransGen IsNestedIn name inner) : ¬HidesOutermost inner := by
  have hhead : (nameSegments inner).head? = (nameSegments name).head? := by
    induction h with
    | refl => rfl
    | tail _ hstep ih => rw [hstep.head?_nameSegments, ih]
  rintro ⟨first, between, last, hsplit, hfirst, -, -⟩
  have hlower := hpackage first (by rw [← hhead, hsplit]; rfl)
  rw [hlower] at hfirst
  cases hfirst

/-! ### Building the classes around a class -/

namespace Registry

variable {r : Registry} {strict : Prop}

/-- The class around a class is built before it. -/
theorem grows_of_ownerName? (hr : r.WellFormed strict) (h : ownerName? name = some owner) :
    Grows strict (r.buildClass owner).2 (r.buildClass name).2 := by
  obtain ⟨hgrows, hfound⟩ := grows_buildClass hr owner
  have hbuilt := hgrows.wellFormed hr
  obtain ⟨c, hc⟩ := hbuilt.get?_of_findClass? hfound
  have howner : ∀ x ∈ some (r.buildClass owner).1,
      (r.buildClass owner).2.Live x ∧ (r.buildClass owner).2.methodAt? x = none := by
    rintro _ ⟨⟩
    exact ⟨live_of_get? hc, (methodAt?_eq_none_iff hc).2 rfl⟩
  rw [buildClass.eq_1 r name]
  split
  · next hnone =>
    rw [h] at hnone
    cases hnone
  · next owner' hsome =>
    rw [h] at hsome
    obtain rfl := Option.some.inj hsome
    exact grows_buildRelaxedClass hbuilt howner

/-- Every class around a class, as the scan finds them, is there once the class is built. -/
theorem exists_findClass?_of_transGen (hr : r.WellFormed strict)
    (h : Relation.TransGen (fun n o => ownerName? n = some o) name owner) :
    ∃ a, (r.buildClass name).2.findClass? owner = some a := by
  have hlater {n o : Text} (hno : ownerName? n = some o) {a : TypeHandle}
      (ha : (r.buildClass o).2.findClass? owner = some a) :
      (r.buildClass n).2.findClass? owner = some a :=
    (grows_of_ownerName? hr hno).findClass? ((grows_buildClass hr o).1.wellFormed hr) ha
  induction h using Relation.TransGen.head_induction_on with
  | single hno => exact ⟨_, hlater hno (grows_buildClass hr owner).2⟩
  | head hno _ ih =>
    obtain ⟨a, ha⟩ := ih
    exact ⟨a, hlater hno ha⟩

end Registry

/-- Where no name on the way hides its outermost class, the scan goes from class to class around. -/
theorem transGen_ownerName?
    (hshown : ∀ inner, Relation.ReflTransGen IsNestedIn name inner → ¬HidesOutermost inner)
    (h : Relation.TransGen IsNestedIn name owner) :
    Relation.TransGen (fun n o => ownerName? n = some o) name owner := by
  have hstep {n o : Text} (hno : IsNestedIn n o) (hn : ¬HidesOutermost n) :
      ownerName? n = some o :=
    (ownerName?_eq_some_iff hno.any_isCapitalized).2 ⟨hno, hn⟩
  induction h using Relation.TransGen.head_induction_on with
  | single hno => exact .single (hstep hno (hshown _ .refl))
  | head hno _ ih =>
    exact .head (hstep hno (hshown _ .refl)) (ih fun inner hinner => hshown inner (.head hno hinner))

/-- **The class around a class is read off the name.** Let some segment of a name start with a capital.
The scan gives the name of the class that it says the class is nested in, which is the name up to its
last delimiter, and none where it says none; except that it gives none where it takes the last segment
for the outermost class.  Where that happens to no name on the way out, building the class registers
every class that it is nested in. -/
theorem nested_of_capital (hcapital : ∃ s ∈ nameSegments name, isCapitalized s) :
    (∀ owner, ownerName? name = some owner ↔ IsNestedIn name owner ∧ ¬HidesOutermost name) ∧
      ∀ r, Registry.Reaches RegistryStep.Live .new r →
        (∀ inner, Relation.ReflTransGen IsNestedIn name inner → ¬HidesOutermost inner) →
          ∀ owner, Relation.TransGen IsNestedIn name owner →
            ∃ h c, (r.buildClass name).2.findClass? owner = some h ∧
              (r.buildClass name).2.classAt? h = some c ∧ c.name = owner := by
  refine ⟨fun owner => ownerName?_eq_some_iff (List.any_eq_true.2 hcapital),
    fun r hr hshown owner howner => ?_⟩
  have hwell := hr.wellFormed_of_live
  obtain ⟨h, hh⟩ := Registry.exists_findClass?_of_transGen hwell (transGen_ownerName? hshown howner)
  obtain ⟨c, hc, hname⟩ := ((Registry.grows_buildClass hwell name).1.wellFormed hwell)
    |>.exists_of_mem_classes (List.mem_of_mem_head? hh)
  exact ⟨h, c, hh, hc, hname⟩

/-- Two classes around a class, in a package and with both delimiters. -/
theorem nested_of_capital_package :
    let name := "java.util.Map$Entry.Key".toList
    let owner := "java.util.Map$Entry".toList
    let outermost := "java.util.Map".toList
    (∃ s ∈ nameSegments name, isCapitalized s) ∧
      (∀ inner, Relation.ReflTransGen IsNestedIn name inner → ¬HidesOutermost inner) ∧
      ownerName? name = some owner ∧
      ∃ h c, (Registry.new.buildClass name).2.findClass? outermost = some h ∧
        (Registry.new.buildClass name).2.classAt? h = some c ∧ c.name = outermost := by
  intro name owner outermost
  have hcapital : ∃ s ∈ nameSegments name, isCapitalized s := by decide
  have hshown : ∀ inner, Relation.ReflTransGen IsNestedIn name inner → ¬HidesOutermost inner :=
    fun inner => not_hidesOutermost (by decide)
  have howner : IsNestedIn name owner :=
    isNestedIn_iff.2 ⟨by decide, '.', "Key".toList, by decide, rfl, by simp [isNameDelimiter]⟩
  have houtermost : IsNestedIn owner outermost :=
    isNestedIn_iff.2 ⟨by decide, '$', "Entry".toList, by decide, rfl, by simp [isNameDelimiter]⟩
  obtain ⟨hscan, hbuild⟩ := nested_of_capital hcapital
  exact ⟨hcapital, hshown, (hscan owner).2 ⟨howner, hshown name .refl⟩,
    hbuild .new .refl hshown outermost (.head howner (.single houtermost))⟩

/-- Without a package the outermost class may be missed: `Map$Entry` is nested in `Map`, which is
neither found nor built. -/
theorem exists_isNestedIn_ownerName?_eq_none :
    let name := "Map$Entry".toList
    (∀ s ∈ nameSegments name, s ≠ []) ∧ (∃ s ∈ nameSegments name, isCapitalized s) ∧
      IsNestedIn name "Map".toList ∧ ownerName? name = none ∧
      (Registry.new.buildClass name).2.findClass? "Map".toList = none := by
  have hnested : IsNestedIn "Map$Entry".toList "Map".toList :=
    isNestedIn_iff.2 ⟨by decide, '$', "Entry".toList, by decide, rfl, by simp [isNameDelimiter]⟩
  exact ⟨by decide, by decide, hnested, by decide, by decide +kernel⟩

end JavaSource
