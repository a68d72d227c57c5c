import JavaSource.Pattern.Method
import JavaSource.Proofs.GlobLanguage
import JavaSource.Types.Build

/-!
# Parameter lists

The parameters of a method pattern are matched as one text, the names of the types with commas
between them.  `Glob.accepts_join_iff` says what that comes to: the names are cut into runs, one for
each parameter, where two dots take any run, and any other parameter a run that its own glob
describes as a text, commas included.  A parameter whose wildcards can stand for a comma may
therefore take several types (`MethodPattern.exists_matchesMethod_not_divides`).  Where no parameter
has such a wildcard, each takes one type (`MethodPattern.matchesMethod_iff_divides`).

A list that starts with two dots twice describes no names at all, since each of the two brings a
comma (`Glob.join_not_mem_ofParameterList`).
-/

namespace JavaSource

/-! ### Names after commas -/

/-- The name of a type, as far as lists of names are concerned. -/
def IsTypeName (t : Text) : Prop := t ≠ [] ∧ ',' ∉ t

instance : DecidablePred IsTypeName := fun t => inferInstanceAs (Decidable (t ≠ [] ∧ ',' ∉ t))

namespace Text

/-- Texts, each after a comma. -/
def afterCommas (ts : List Text) : Text := ts.flatMap (',' :: ·)

variable {t u v : Text} {ts : List Text}

@[simp] theorem afterCommas_nil : afterCommas [] = [] := rfl

@[simp] theorem afterCommas_cons : afterCommas (t :: ts) = ',' :: (t ++ afterCommas ts) := rfl

theorem afterCommas_append (ts us : List Text) :
    afterCommas (ts ++ us) = afterCommas ts ++ afterCommas us :=
  List.flatMap_append

theorem join_cons (t : Text) (ts : List Text) : join [','] (t :: ts) = t ++ afterCommas ts := by
  induction ts generalizing t with
  | nil => simp [join]
  | cons u ts ih => simp [join, ih]

theorem cons_join (h : ts ≠ []) : ',' :: join [','] ts = afterCommas ts := by
  obtain ⟨t, ts, rfl⟩ := List.exists_cons_of_ne_nil h
  rw [join_cons, afterCommas_cons]

/-- Names after commas that are cut in two where a comma follows, or nothing, are cut between two of
the names. -/
theorem exists_of_afterCommas_eq_append (hts : ∀ t ∈ ts, ',' ∉ t) (hv : ∀ c ∈ v.head?, c = ',')
    (h : afterCommas ts = u ++ v) :
    ∃ us vs, us ++ vs = ts ∧ afterCommas us = u ∧ afterCommas vs = v := by
  induction ts generalizing u with
  | nil =>
    obtain ⟨rfl, rfl⟩ := List.append_eq_nil_iff.1 h.symm
    exact ⟨[], [], rfl, rfl, rfl⟩
  | cons t ts ih =>
    cases u with
    | nil => exact ⟨[], t :: ts, rfl, rfl, h⟩
    | cons c u =>
      obtain ⟨rfl, htail⟩ := List.cons.inj (afterCommas_cons ▸ h)
      obtain ⟨ht, hts⟩ := List.forall_mem_cons.1 hts
      rcases List.append_eq_append_iff.1 htail with ⟨a, rfl, ha⟩ | ⟨b, rfl, rfl⟩
      · obtain ⟨us, vs, rfl, rfl, rfl⟩ := ih hts ha
        exact ⟨t :: us, vs, rfl, rfl, rfl⟩
      · cases b with
        | nil => exact ⟨[u], ts, by simp, by simp, by simp⟩
        | cons d b => exact absurd (hv d rfl ▸ by simp) ht

/-- No name is empty, so the last comma is not the end. -/
theorem afterCommas_ne_append_comma (hts : ∀ t ∈ ts, IsTypeName t) :
    afterCommas ts ≠ u ++ [','] := by
  intro h
  obtain rfl | ⟨ts, t, rfl⟩ := ts.eq_nil_or_concat'
  · simp at h
  obtain ⟨hne, hcomma⟩ := hts t (by simp)
  obtain rfl | ⟨t, c, rfl⟩ := t.eq_nil_or_concat'
  · exact hne rfl
  rw [afterCommas_append, afterCommas_cons, afterCommas_nil, List.append_nil, ← List.cons_append,
    ← List.append_assoc] at h
  obtain rfl : c = ',' := by simpa using (List.append_inj' h rfl).2
  simp at hcomma

end Text

/-! ### Runs of names -/

namespace ParameterPattern

/-- A parameter of a pattern takes any number of types if it is two dots, else one type that its own
glob describes. -/
def Takes : ParameterPattern → List Text → Prop
  | any, _ => True
  | p, names => ∃ name, names = [name] ∧ (Glob.ofParameter p).accepts name

/-- A parameter of a pattern takes the types that its glob describes together, as one text. -/
def TakesJoined : ParameterPattern → List Text → Prop
  | any, _ => True
  | p, names => names ≠ [] ∧ (Glob.ofParameter p).accepts (Text.join [','] names)

/-- The names can be cut into as many runs as there are parameters, each taken by its parameter. -/
def Divides (takes : ParameterPattern → List Text → Prop) (parameters : List ParameterPattern)
    (names : List Text) : Prop :=
  ∃ runs : List (List Text), runs.flatten = names ∧ List.Forall₂ takes parameters runs

variable {takes takes' : ParameterPattern → List Text → Prop} {p : ParameterPattern}
  {ps : List ParameterPattern} {names : List Text}

theorem takes_iff (hp : p ≠ any) :
    Takes p names ↔ ∃ name, names = [name] ∧ (Glob.ofParameter p).accepts name := by
  cases p <;> first | rfl | contradiction

theorem takesJoined_iff (hp : p ≠ any) :
    TakesJoined p names ↔
      names ≠ [] ∧ (Glob.ofParameter p).accepts (Text.join [','] names) := by
  cases p <;> first | rfl | contradiction

@[simp] theorem divides_nil : Divides takes [] names ↔ names = [] := by
  simp [Divides, eq_comm]

theorem divides_cons :
    Divides takes (p :: ps) names ↔
      ∃ run rest, run ++ rest = names ∧ takes p run ∧ Divides takes ps rest := by
  constructor
  · rintro ⟨_, rfl, _ | ⟨h, hs⟩⟩
    exact ⟨_, _, rfl, h, _, rfl, hs⟩
  · rintro ⟨run, _, rfl, h, runs, rfl, hs⟩
    exact ⟨run :: runs, rfl, .cons h hs⟩

theorem divides_congr (h : ∀ p ∈ ps, ∀ run, takes p run ↔ takes' p run) :
    Divides takes ps names ↔ Divides takes' ps names := by
  induction ps generalizing names with
  | nil => simp
  | cons p ps ih =>
    obtain ⟨hp, hps⟩ := List.forall_mem_cons.1 h
    simp only [divides_cons, hp, ih hps]

/-- A parameter whose glob describes names only takes one type at a time. -/
theorem takes_iff_takesJoined (h : p ≠ any → ∀ t, (Glob.ofParameter p).accepts t → IsTypeName t) :
    Takes p names ↔ TakesJoined p names := by
  by_cases hp : p = any
  · subst hp; exact Iff.rfl
  rw [takes_iff hp, takesJoined_iff hp]
  constructor
  · rintro ⟨name, rfl, hname⟩
    exact ⟨by simp, hname⟩
  · rintro ⟨hne, hjoin⟩
    match names with
    | [name] => exact ⟨name, rfl, hjoin⟩
    | name :: next :: later => exact absurd (by simp [Text.join]) (h hp _ hjoin).2

end ParameterPattern

/-! ### The language of a parameter list -/

namespace Glob

open ParameterPattern

variable {p : ParameterPattern} {ps : List ParameterPattern} {t : Text} {names : List Text}

theorem mem_language_anyType : t ∈ anyType.language ↔ IsTypeName t := by
  simp only [anyType, mem_language_atLeastOne_one, CharSet.contains, bne_iff_ne]
  exact and_congr_right fun _ => ⟨fun h hmem => h _ hmem rfl, fun h c hc heq => h (heq ▸ hc)⟩

theorem join_mem_anyTypes (hnames : ∀ t ∈ names, IsTypeName t) (hne : names ≠ []) :
    Text.join [','] names ∈ anyTypes.language := by
  induction names with
  | nil => exact absurd rfl hne
  | cons t names ih =>
    obtain ⟨ht, hnames⟩ := List.forall_mem_cons.1 hnames
    rw [anyTypes, mem_language_seq]
    cases names with
    | nil => exact ⟨[], mem_language_many.2 ⟨[], rfl, nofun⟩, t, mem_language_anyType.2 ht, rfl⟩
    | cons u names =>
      obtain ⟨a, ha, b, hb, hab⟩ := mem_language_seq.1 (ih hnames (by simp))
      obtain ⟨ts, rfl, hts⟩ := mem_language_many.1 ha
      refine ⟨_, mem_language_many.2 ⟨(t ++ [',']) :: ts, rfl, List.forall_mem_cons.2 ⟨?_, hts⟩⟩,
        b, hb, ?_⟩
      · exact mem_language_seq.2 ⟨t, mem_language_anyType.2 ht, [','], mem_language_char.2 rfl, rfl⟩
      · simp [Text.join, ← hab]

/-- Any number of names, each after a comma. -/
theorem afterCommas_mem_language (hnames : ∀ t ∈ names, IsTypeName t) :
    Text.afterCommas names ∈ (optional (seq comma anyTypes)).language := by
  rw [mem_language_optional]
  rcases eq_or_ne names [] with rfl | hne
  · exact .inl rfl
  · rw [← Text.cons_join hne]
    exact .inr (mem_language_seq.2
      ⟨[','], mem_language_char.2 rfl, _, join_mem_anyTypes hnames hne, rfl⟩)

theorem ofParameters_any (first : Bool) :
    ofParameters first (.any :: ps) =
      seq (optional (seq comma anyTypes)) (ofParameters false ps) := rfl

theorem ofParameters_true (hp : p ≠ .any) :
    ofParameters true (p :: ps) = seq (ofParameter p) (ofParameters false ps) := by
  cases p <;> first | rfl | contradiction

theorem ofParameters_false (hp : p ≠ .any) :
    ofParameters false (p :: ps) = seq comma (ofParameters true (p :: ps)) := by
  cases p <;> first | rfl | contradiction

theorem mem_comma_seq {g : Glob} : t ∈ (seq comma g).language ↔ ∃ u ∈ g.language, ',' :: u = t :=
  mem_char_seq

/-- What later parameters describe starts with a comma. -/
theorem eq_comma_of_mem_ofParameters (ht : t ∈ (ofParameters false ps).language) :
    ∀ c ∈ t.head?, c = ',' := by
  induction ps generalizing t with
  | nil => obtain rfl := mem_language_empty.1 ht; nofun
  | cons p ps ih =>
    by_cases hp : p = .any
    · subst hp
      obtain ⟨u, hu, v, hv, rfl⟩ := mem_language_seq.1 ht
      rcases mem_language_optional.1 hu with rfl | hu
      · exact ih hv
      · obtain ⟨u, -, rfl⟩ := mem_comma_seq.1 hu
        simp
    · obtain ⟨u, -, rfl⟩ := mem_comma_seq.1 (ofParameters_false hp ▸ ht)
      simp

/-- Later parameters describe the names that can be divided among them, each after a comma. -/
theorem afterCommas_mem_ofParameters (hnames : ∀ t ∈ names, IsTypeName t) :
    Text.afterCommas names ∈ (ofParameters false ps).language ↔ Divides TakesJoined ps names := by
  induction ps generalizing names with
  | nil => rw [ofParameters, mem_language_empty, divides_nil]; cases names <;> simp
  | cons p ps ih =>
    -- what follows the first run starts with a comma, so the run ends between two names
    have hcut {u v : Text} (hv : v ∈ (ofParameters false ps).language)
        (h : u ++ v = Text.afterCommas names) := Text.exists_of_afterCommas_eq_append
      (fun t ht => (hnames t ht).2) (eq_comma_of_mem_ofParameters hv) h.symm
    rw [divides_cons]
    by_cases hp : p = .any
    · subst hp
      rw [ofParameters_any, mem_language_seq]
      constructor
      · rintro ⟨u, -, v, hv, h⟩
        obtain ⟨run, rest, rfl, -, rfl⟩ := hcut hv h
        exact ⟨run, rest, rfl, trivial, (ih (List.forall_mem_append.1 hnames).2).1 hv⟩
      · rintro ⟨run, rest, rfl, -, hrest⟩
        obtain ⟨hrun, hnames⟩ := List.forall_mem_append.1 hnames
        exact ⟨_, afterCommas_mem_language hrun, _, (ih hnames).2 hrest,
          (Text.afterCommas_append run rest).symm⟩
    · rw [ofParameters_false hp, ofParameters_true hp, mem_comma_seq]
      simp only [mem_language_seq, takesJoined_iff hp, accepts_iff]
      constructor
      · rintro ⟨_, ⟨u, hu, v, hv, rfl⟩, h⟩
        obtain ⟨run, rest, rfl, hrun, rfl⟩ := hcut (u := ',' :: u) hv h
        have hne : run ≠ [] := by rintro rfl; simp at hrun
        obtain rfl : Text.join [','] run = u := List.cons.inj (Text.cons_join hne ▸ hrun) |>.2
        exact ⟨run, rest, rfl, ⟨hne, hu⟩, (ih (List.forall_mem_append.1 hnames).2).1 hv⟩
      · rintro ⟨run, rest, rfl, ⟨hne, hrun⟩, hrest⟩
        refine ⟨_, ⟨_, hrun, _, (ih (List.forall_mem_append.1 hnames).2).2 hrest, rfl⟩, ?_⟩
        rw [← List.cons_append, Text.cons_join hne, Text.afterCommas_append]

theorem ofParameterList_cons (hp : p ≠ .any) :
    ofParameterList (p :: ps) = ofParameters true (p :: ps) := by
  cases p <;> first | rfl | contradiction

theorem ofParameterList_any :
    ofParameterList (.any :: p :: ps) =
      seq (optional (seq anyTypes comma)) (ofParameters true (p :: ps)) := rfl

/-- A list of parameters describes what its parameters describe after a comma: any number of
parameters at the start takes the comma behind it along. -/
theorem mem_ofParameterList (hps : ¬ [.any, .any] <+: ps) (ht : t ≠ []) :
    t ∈ (ofParameterList ps).language ↔ ',' :: t ∈ (ofParameters false ps).language := by
  rcases ps with _ | ⟨p, ps⟩
  · simp [ofParameterList, ofParameters, ht]
  by_cases hp : p = .any
  · subst hp
    rw [ofParameters_any, mem_language_seq]
    rcases ps with _ | ⟨q, ps⟩
    · simp [ofParameterList, ofParameters, mem_language_optional, mem_comma_seq, ht]
    have hq : q ≠ .any := by rintro rfl; exact hps ⟨ps, rfl⟩
    simp only [ofParameterList_any, ofParameters_false hq, mem_language_seq (a := optional _),
      mem_language_optional, mem_comma_seq]
    constructor
    · rintro ⟨_, rfl | hu, v, hv, rfl⟩
      · exact ⟨[], .inl rfl, _, ⟨v, hv, rfl⟩, rfl⟩
      · obtain ⟨w, hw, c, hc, rfl⟩ := mem_language_seq.1 hu
        exact ⟨_, .inr ⟨w, hw, rfl⟩, _, ⟨v, hv, rfl⟩, by simp [mem_language_char.1 hc]⟩
    · rintro ⟨_, rfl | ⟨u, hu, rfl⟩, _, ⟨v, hv, rfl⟩, h⟩
      · exact ⟨[], .inl rfl, v, hv, (List.cons.inj h).2⟩
      · have hfirst : u ++ [','] ∈ (seq anyTypes comma).language :=
          mem_language_seq.2 ⟨u, hu, [','], mem_language_char.2 rfl, rfl⟩
        exact ⟨u ++ [','], .inr hfirst, v, hv, by simpa using h⟩
  · rw [ofParameterList_cons hp, ofParameters_false hp, mem_comma_seq]
    simp

/-- Two parameters of any number at the start describe no names: a comma of theirs would stand
beside another comma or at an end. -/
theorem join_not_mem_ofParameterList (hnames : ∀ t ∈ names, IsTypeName t) (hne : names ≠ []) :
    Text.join [','] names ∉ (ofParameterList (.any :: .any :: ps)).language := by
  rw [ofParameterList_any, mem_language_seq]
  rintro ⟨u, hu, v, hv, h⟩
  have hcomma : ∃ x, ',' :: u = x ++ [','] := by
    rcases mem_language_optional.1 hu with rfl | hu
    · exact ⟨[], rfl⟩
    · obtain ⟨a, -, b, hb, rfl⟩ := mem_language_seq.1 hu
      exact ⟨',' :: a, by rw [mem_language_char.1 hb]; rfl⟩
  obtain ⟨x, hx⟩ := hcomma
  have hv : v ∈ (ofParameters false (.any :: ps)).language := hv
  obtain ⟨run, rest, rfl, hrun, -⟩ := Text.exists_of_afterCommas_eq_append (u := ',' :: u)
    (fun t ht => (hnames t ht).2) (eq_comma_of_mem_ofParameters hv)
    (by rw [← Text.cons_join hne, ← h, List.cons_append])
  exact Text.afterCommas_ne_append_comma (List.forall_mem_append.1 hnames).1 (hrun.trans hx)

/-- Names with commas between them fit the parameters if they can be divided among them and no two
parameters of any number stand at the start. -/
theorem accepts_join_iff (hnames : ∀ t ∈ names, IsTypeName t) (hne : names ≠ []) :
    (ofParameterList ps).accepts (Text.join [','] names) ↔
      ¬ [.any, .any] <+: ps ∧ Divides TakesJoined ps names := by
  rw [accepts_iff]
  by_cases hps : [.any, .any] <+: ps
  · obtain ⟨rest, rfl⟩ := hps
    exact iff_of_false (join_not_mem_ofParameterList hnames hne) fun h => h.1 ⟨rest, rfl⟩
  · have hjoin : Text.join [','] names ≠ [] := fun h =>
      Text.afterCommas_ne_append_comma (u := []) hnames (by rw [← Text.cons_join hne, h]; rfl)
    rw [mem_ofParameterList hps hjoin, Text.cons_join hne, afterCommas_mem_ofParameters hnames]
    exact (and_iff_right hps).symm

theorem accepts_nil (g : Glob) : g.accepts [] = g.acceptsEmpty := Bool.or_false _

theorem acceptsEmpty_ofParameters (hps : ∀ p ∈ ps, p ≠ .any → (ofParameter p).acceptsEmpty = false)
    (first : Bool) : (ofParameters first ps).acceptsEmpty = ps.all (· = .any) := by
  induction ps generalizing first with
  | nil => rfl
  | cons p ps ih =>
    obtain ⟨hp, hps⟩ := List.forall_mem_cons.1 hps
    cases p <;> cases first <;> simp_all [ofParameters, acceptsEmpty, comma, char]

theorem acceptsEmpty_ofParameterList
    (hps : ∀ p ∈ ps, p ≠ .any → (ofParameter p).acceptsEmpty = false) :
    (ofParameterList ps).acceptsEmpty = ps.all (· = .any) := by
  match ps with
  | [] | [.any] => rfl
  | .one t :: ps | .repeated t :: ps => exact acceptsEmpty_ofParameters hps true
  | .any :: p :: ps =>
    simpa [ofParameterList_any, acceptsEmpty] using
      acceptsEmpty_ofParameters (List.forall_mem_cons.1 hps).2 true

theorem divides_takes_nil : Divides Takes ps [] ↔ ps.all (· = .any) := by
  induction ps with
  | nil => simp
  | cons p ps ih =>
    simp only [divides_cons, List.append_eq_nil_iff]
    cases p <;> simp_all [Takes]

/-- Names with commas between them fit the parameters if they can be divided among them, one for
each parameter but two dots.  This holds where a parameter describes nothing but names. -/
theorem accepts_join_iff_takes (hnames : ∀ t ∈ names, IsTypeName t) (hlead : ¬ [.any, .any] <+: ps)
    (hps : ∀ p ∈ ps, p ≠ .any → ∀ t, (ofParameter p).accepts t → IsTypeName t) :
    (ofParameterList ps).accepts (Text.join [','] names) ↔ Divides Takes ps names := by
  rcases eq_or_ne names [] with rfl | hne
  · have hempty (p) (hp : p ∈ ps) (hany : p ≠ .any) : (ofParameter p).acceptsEmpty = false :=
      Bool.eq_false_iff.2 fun h => (hps p hp hany [] (by rwa [accepts_nil])).1 rfl
    rw [Text.join, accepts_nil, acceptsEmpty_ofParameterList hempty, divides_takes_nil]
  · rw [accepts_join_iff hnames hne, and_iff_right hlead]
    exact (divides_congr fun p hp run => takes_iff_takesJoined (hps p hp)).symm

end Glob

/-! ### Parameters without wildcards -/

/-- The type pattern of a parameter, if it is not any number of parameters. -/
def ParameterPattern.type? : ParameterPattern → Option Text
  | any => none
  | one type | repeated type => some type

/-- A parameter with no wildcard beside other characters: two dots, a type pattern without wildcards
or a star alone. -/
def ParameterPattern.IsPlain (p : ParameterPattern) : Prop :=
  ∀ t ∈ p.type?, t = ['*'] ∨ '*' ∉ t ∧ ¬ ['.', '.'] <:+: t

instance : DecidablePred ParameterPattern.IsPlain := fun p =>
  inferInstanceAs (Decidable (∀ t ∈ p.type?, t = ['*'] ∨ '*' ∉ t ∧ ¬ ['.', '.'] <:+: t))

namespace Glob

variable {p : ParameterPattern} {t u : Text}

/-- A name without wildcards describes itself. -/
theorem mem_language_wildcards (hstar : '*' ∉ t) (hdots : ¬ ['.', '.'] <:+: t) :
    u ∈ (wildcards t).language ↔ u = t := by
  fun_induction wildcards t generalizing u with
  | case1 => exact mem_language_empty
  | case2 rest => exact absurd ⟨[], rest, rfl⟩ hdots
  | case3 rest => exact absurd (.head _) hstar
  | case4 c rest _ _ ih =>
    have ih {u : Text} := ih (u := u) (fun h => hstar (.tail _ h))
      (fun h => hdots (h.trans (List.suffix_cons _ _).isInfix))
    simp [mem_language_seq, ih, eq_comm]

theorem isTypeName_of_ofTypePattern (ht : IsTypeName t)
    (hplain : t = ['*'] ∨ '*' ∉ t ∧ ¬ ['.', '.'] <:+: t) (hu : u ∈ (ofTypePattern t).language) :
    IsTypeName u := by
  rw [ofTypePattern] at hu
  split at hu
  · exact mem_language_anyType.1 hu
  obtain ⟨hstar, hdots⟩ := hplain.resolve_left ‹_›
  split at hu
  · next hknown =>
    have hdot : '.' ∉ t := by
      simp only [isKnownClass, Bool.and_eq_true, Bool.not_eq_true', List.contains_eq_mem,
        decide_eq_false_iff_not] at hknown
      exact hknown.1
    have hpackage : ¬ ['.', '.'] <:+: "java.lang.".toList ++ t := by
      have hhead : ¬ ['.'] <+: t := fun h => hdot (h.mem (.head _))
      simpa [List.infix_cons_iff, List.cons_prefix_cons, hhead] using hdots
    obtain rfl := (mem_language_wildcards (by simpa using hstar) hpackage).1 hu
    exact ⟨by simp, by simpa using ht.2⟩
  · rwa [(mem_language_wildcards hstar hdots).1 hu]

theorem isTypeName_of_ofParameter (hp : p ≠ .any) (ht : ∀ t ∈ p.type?, IsTypeName t)
    (hplain : p.IsPlain) (hu : (ofParameter p).accepts u) : IsTypeName u := by
  rw [accepts_iff] at hu
  cases p with
  | any => contradiction
  | one t => exact isTypeName_of_ofTypePattern (ht t rfl) (hplain t rfl) hu
  | repeated t =>
    obtain ⟨v, hv, w, hw, rfl⟩ := mem_language_seq.1 hu
    obtain ⟨hne, hcomma⟩ := isTypeName_of_ofTypePattern (ht t rfl) (hplain t rfl) hv
    rw [(mem_language_text _).1 hw]
    exact ⟨by simp, by simpa using hcomma⟩

end Glob

/-! ### Patterns that were read -/

theorem isTypePatternChar_comma : isTypePatternChar ',' = false := by decide +kernel

theorem ParameterPattern.isTypeName_of_ofWord {word rest t : Text} {p : ParameterPattern}
    (hword : IsTypeName word) (h : ofWord word rest = .ok p) (ht : t ∈ p.type?) : IsTypeName t := by
  rw [ofWord] at h
  split at h
  · cases h; contradiction
  split at h
  · next reversed hreversed =>
    split at h
    · contradiction
    · next hne =>
      have hparts : word = reversed.reverse ++ ['.', '.', '.'] := by
        rw [← List.reverse_reverse word, hreversed]; simp
      cases h
      cases ht
      exact ⟨by simp_all, fun hc => hword.2 (by simp [hparts, List.mem_reverse.1 hc])⟩
  · cases h; cases ht; exact hword

theorem isTypeName_takeWhile {t : Text} (h : ¬ (t.takeWhile isTypePatternChar).isEmpty) :
    IsTypeName (t.takeWhile isTypePatternChar) :=
  ⟨by simpa using h,
    fun hc => Bool.false_ne_true <|
      isTypePatternChar_comma.symm.trans (List.all_eq_true.1 List.all_takeWhile _ hc)⟩

theorem isTypeName_of_readParameters {t after : Text} {ps : List ParameterPattern}
    (h : readParameters t = .ok (ps, after)) : ∀ p ∈ ps, ∀ type ∈ p.type?, IsTypeName type := by
  fun_induction readParameters t generalizing ps after with
  | case4 _ _ _ _ hword p hp =>
    rename_i hlater ih
    cases h
    have hfirst : ∀ type ∈ p.type?, IsTypeName type := fun _ =>
      ParameterPattern.isTypeName_of_ofWord (isTypeName_takeWhile hword) hp
    exact List.forall_mem_cons.2 ⟨hfirst, ih hlater⟩
  | case5 _ _ _ _ hword p hp =>
    cases h
    have hlast : ∀ type ∈ p.type?, IsTypeName type := fun _ =>
      ParameterPattern.isTypeName_of_ofWord (isTypeName_takeWhile hword) hp
    exact List.forall_mem_singleton.2 hlast
  | _ => contradiction

theorem isTypeName_of_readParameterList {t after : Text} {ps : List ParameterPattern}
    (h : readParameterList t = .ok (ps, after)) : ∀ p ∈ ps, ∀ type ∈ p.type?, IsTypeName type := by
  rw [readParameterList] at h
  split at h
  · cases h; nofun
  · exact isTypeName_of_readParameters h

namespace MethodPattern

open ParameterPattern

variable {p : MethodPattern} {source : Text} {withInterfaces : Bool}

theorem isTypeName_of_readFrom {declaring name t : Text}
    (h : readFrom source declaring name withInterfaces t = .ok p) :
    ∀ q ∈ p.parameters, ∀ t ∈ q.type?, IsTypeName t := by
  rw [readFrom] at h
  split at h
  · split at h
    · contradiction
    · next hlist =>
      split at h
      · cases h; exact isTypeName_of_readParameterList hlist
      · contradiction
  · contradiction

/-- The type patterns of the parameters are not empty and hold no comma. -/
theorem isTypeName_of_ofText (h : ofText withInterfaces source = .ok p) :
    ∀ q ∈ p.parameters, ∀ t ∈ q.type?, IsTypeName t := by
  simp only [ofText] at h
  split at h
  · contradiction
  split at h
  · split at h <;> contradiction
  split at h
  · exact isTypeName_of_readFrom h
  · contradiction

/-- **Parameters are matched type by type.** A method whose declaring type and name fit is matched
if its parameter types can be divided among the parameters of the pattern in order, any number for
two dots and for every other parameter one whose name fits the parameter alone.  The parameters have
no wildcards beside other characters, and the list does not start with two dots twice. -/
theorem matchesMethod_iff_divides {r : Registry} {h : TypeHandle} {m : MethodType}
    {signature : Signature} {names : List Text} (hread : ofText withInterfaces source = .ok p)
    (hplain : ∀ q ∈ p.parameters, q.IsPlain) (hlead : ¬ [.any, .any] <+: p.parameters)
    (hm : r.methodAt? h = some m) (hresolved : m.resolved = some signature)
    (hdeclaring : p.matchesType r m.declaring) (hname : p.fitsName m.name)
    (hspelled : signature.parameters.map r.spell? = names.map some)
    (hnames : ∀ name ∈ names, IsTypeName name) :
    p.matchesMethod r h ↔ Divides Takes p.parameters names := by
  have hjoin : r.spellParameters signature.parameters = Text.join [','] names := by
    rw [Registry.spellParameters]
    congr 1
    simpa [List.filterMap_map] using congrArg (List.filterMap id) hspelled
  simp only [matchesMethod, hm, hresolved, hdeclaring, hname, Bool.true_and, fitsParameters, hjoin]
  exact Glob.accepts_join_iff_takes hnames hlead fun q hq hany t =>
    Glob.isTypeName_of_ofParameter hany (isTypeName_of_ofText hread q hq) (hplain q hq)

/-- A string among the parameters, wherever it stands. -/
theorem matchesMethod_iff_divides_between :
    let source := "Object m(.., String, ..)".toList
    let parameters : List ParameterPattern := [.any, .one "String".toList, .any]
    let p : MethodPattern := ⟨source, "Object".toList, ['m'], parameters, false⟩
    let types : List TypeHandle := [.ofPrimitive .int, .ofPrimitive .string]
    let m : MethodType := ⟨.publicOnly, .object, ['m'], none, some ⟨none, types⟩, [], [], []⟩
    let r := (Registry.new.buildMethod m).2
    ofText false source = .ok p ∧ r.methodAt? ⟨14⟩ = some m ∧ p.matchesMethod r ⟨14⟩ := by
  intro source parameters p types m r
  let names := ["int".toList, "java.lang.String".toList]
  have hread : ofText false source = .ok p := by decide +kernel
  have hspelled : types.map r.spell? = names.map some := by decide +kernel
  have hdivides : Divides Takes p.parameters names :=
    ⟨[["int".toList], ["java.lang.String".toList], []], rfl,
      .cons trivial (.cons ⟨_, rfl, by decide +kernel⟩ (.cons trivial .nil))⟩
  exact ⟨hread, rfl, (matchesMethod_iff_divides hread (by decide) (by decide) (m := m) rfl rfl
    (by decide +kernel) (by decide) hspelled (by decide)).2 hdivides⟩

/-- A star in the pattern of one parameter takes two types and the comma between them. -/
theorem exists_matchesMethod_not_divides :
    ∃ (source : Text) (p : MethodPattern) (r : Registry) (m : MethodType) (signature : Signature)
      (names : List Text), ofText false source = .ok p ∧ r.methodAt? ⟨14⟩ = some m ∧
      m.resolved = some signature ∧ p.matchesType r m.declaring ∧ p.fitsName m.name ∧
      signature.parameters.map r.spell? = names.map some ∧ (∀ name ∈ names, IsTypeName name) ∧
      p.matchesMethod r ⟨14⟩ ∧ ¬ Divides Takes p.parameters names := by
  let source := "Object m(int*)".toList
  let signature : Signature := ⟨none, [.ofPrimitive .int, .ofPrimitive .int]⟩
  let m : MethodType := ⟨.publicOnly, .object, ['m'], none, some signature, [], [], []⟩
  refine ⟨source, ⟨source, "Object".toList, ['m'], [.one "int*".toList], false⟩,
    (Registry.new.buildMethod m).2, m, signature, ["int".toList, "int".toList], by decide +kernel,
    rfl, rfl, by decide +kernel, by decide, by decide +kernel, by decide, by decide +kernel, ?_⟩
  simp [divides_cons, Takes]

end MethodPattern

end JavaSource
