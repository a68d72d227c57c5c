import JavaSource.Proofs.Allocations
import JavaSource.Proofs.Halting
import JavaSource.Proofs.PatternGrammar
import JavaSource.Proofs.SegmentPatterns

/-!
# The pattern of a declaration

`MethodPattern.spellDeclaration` writes the pattern of a method as its declaring type, its name and its
parameter types.  Each type is written as a word without wildcards (`IsPlainWord`), also where it is an
array, and such a word describes itself and nothing else: it has a dot or is a keyword, so it is not
taken for a class of `java.lang`.  The pattern is therefore read as the words that it was written from,
and matches its declaration (`MethodPattern.matches_spellDeclaration`).

Types that have no spelling are left out when a pattern is written and when it is matched.
-/

namespace JavaSource

/-! ### Words without wildcards -/

/-- A fully qualified name in a package. -/
def IsDottedName (t : Text) : Prop := '.' ∈ t ∧ ∀ s ∈ Text.split '.' t, IsSegment s

instance : DecidablePred IsDottedName := fun t =>
  inferInstanceAs (Decidable ('.' ∈ t ∧ ∀ s ∈ Text.split '.' t, IsSegment s))

/-- A type word that stands for itself in a pattern. -/
structure IsPlainWord (t : Text) : Prop where
  isTypeWord : IsTypeWord t
  noStar : '*' ∉ t
  noDots : ¬ ['.', '.'] <:+: t
  notKnown : isKnownClass t = false

section Words

variable {c : Char} {t u : Text}

theorem isTypePatternChar_of_isSegmentChar (h : isSegmentChar c) : isTypePatternChar c := by
  simp only [isSegmentChar, Bool.or_eq_true] at h
  simp only [isTypePatternChar, h, Bool.or_eq_true, true_or]

theorem isNamePatternChar_of_isSegmentChar (h : isSegmentChar c) : isNamePatternChar c := by
  simp only [isSegmentChar, Bool.or_eq_true] at h
  simp only [isNamePatternChar, h, Bool.or_eq_true, true_or]

theorem isSegmentChar_star : isSegmentChar '*' = false := by decide +kernel

theorem isAlphanumeric_of_isAlpha (h : c.isAlpha) : isAlphanumeric c := by
  simp only [Lexeme.isAlpha_iff, Char.le_def, UInt32.le_iff_toNat_le] at h
  rcases h with h | h
  · exact List.any_eq_true.2 ⟨(0x41, 0x5A), .tail _ (.head _), by simpa using h⟩
  · exact List.any_eq_true.2 ⟨(0x61, 0x7A), .tail _ (.tail _ (.head _)), by simpa using h⟩

/-- The identifiers of the source language are segments. -/
theorem isSegment_of_isIdentifier {rest : Text} (hc : Lexeme.isIdentifierStart c)
    (hrest : ∀ d ∈ rest, Lexeme.isIdentifierPart d) : IsSegment (c :: rest) := by
  have hstart {d : Char} (hd : Lexeme.isIdentifierStart d) : isSegmentChar d := by
    simp only [Lexeme.isIdentifierStart, Bool.or_eq_true, beq_iff_eq] at hd
    simp only [isSegmentChar, Bool.or_eq_true, beq_iff_eq]
    exact hd.imp_left (.imp_left isAlphanumeric_of_isAlpha)
  refine ⟨by simp, List.forall_mem_cons.2 ⟨hstart hc, fun d hd => ?_⟩⟩
  have hd := hrest d hd
  rw [Lexeme.isIdentifierPart, Bool.or_eq_true] at hd
  refine hd.elim hstart fun hdigit => ?_
  simp [isSegmentChar, isAlphanumeric_of_isDigit hdigit]

theorem IsDottedName.isPlainWord (h : IsDottedName t) : IsPlainWord t := by
  obtain ⟨hdot, hsegments⟩ := h
  have hchar (c : Char) (hc : c ∈ t) (hne : c ≠ '.') : isSegmentChar c := by
    obtain ⟨s, hs, hmem⟩ := Text.exists_mem_split hc hne
    exact (hsegments s hs).2 c hmem
  refine ⟨⟨List.ne_nil_of_mem hdot, fun c hc => ?_⟩, fun hstar => ?_, ?_, ?_⟩
  · by_cases hne : c = '.'
    · subst hne
      decide +kernel
    · exact isTypePatternChar_of_isSegmentChar (hchar c hc hne)
  · exact ne_of_isSegmentChar (hchar '*' hstar (by decide)) isSegmentChar_star rfl
  · rintro ⟨u, v, rfl⟩
    have hempty : [] ∈ Text.split '.' (u ++ '.' :: '.' :: v) := by
      rw [Text.split_append_cons]
      simp [Text.split]
    exact (hsegments [] (by simpa using hempty)).1 rfl
  · simp [isKnownClass, hdot]

theorem withoutBrackets_append_brackets (t : Text) :
    withoutBrackets (t ++ ['[', ']']) = withoutBrackets t := by
  simp [withoutBrackets, withoutBrackets.strip]

/-- Two dots do not reach into another character. -/
theorem dots_infix_of_append (hc : c ≠ '.') (h : ['.', '.'] <:+: t ++ [c]) : ['.', '.'] <:+: t := by
  rcases List.infix_concat_iff.1 h with ⟨u, hu⟩ | h
  · have hlast := congrArg List.getLast? hu
    simp only [List.getLast?_append, List.getLast?_cons_cons, List.getLast?_singleton,
      Option.some_or, Option.some.injEq] at hlast
    exact absurd hlast.symm hc
  · exact h

/-- The array of what a word stands for. -/
theorem IsPlainWord.append_brackets (h : IsPlainWord t) : IsPlainWord (t ++ ['[', ']']) := by
  obtain ⟨⟨hne, hchars⟩, hstar, hdots, hknown⟩ := h
  have hbrackets : isTypePatternChar '[' ∧ isTypePatternChar ']' := by decide +kernel
  refine ⟨⟨by simp, ?_⟩, by simpa using hstar, ?_, ?_⟩
  · simpa [or_imp, forall_and, hbrackets] using hchars
  · intro h
    rw [← List.singleton_append (l := [']']), ← List.append_assoc] at h
    exact hdots (dots_infix_of_append (by decide) (dots_infix_of_append (by decide) h))
  · simpa [isKnownClass, withoutBrackets_append_brackets] using hknown

theorem mem_of_mem_withoutBrackets (h : c ∈ withoutBrackets t) : c ∈ t := by
  have hstrip : ∀ u : Text, c ∈ withoutBrackets.strip u → c ∈ u := by
    intro u hu
    fun_induction withoutBrackets.strip u with
    | case1 rest ih => exact .tail _ (.tail _ (ih hu))
    | case2 => exact hu
  exact List.mem_reverse.1 (hstrip _ (List.mem_reverse.1 h))

theorem exists_isUpper_of_isKnownClass (h : isKnownClass t) : ∃ d ∈ t, d.isUpper := by
  have hcapital : ∀ name ∈ knownClasses, name.toList.any Char.isUpper := by decide +kernel
  simp only [isKnownClass, Bool.and_eq_true, List.any_eq_true, beq_iff_eq] at h
  obtain ⟨-, name, hname, heq⟩ := h
  obtain ⟨d, hd, hupper⟩ := List.any_eq_true.1 (hcapital name hname)
  exact ⟨d, mem_of_mem_withoutBrackets (heq ▸ hd), hupper⟩

/-- Keywords have no capital letters, which every known class has. -/
theorem isPlainWord_keyword {p : Primitive} (hnone : p ≠ .none) (hstar : p ≠ .wildcard)
    (hstring : p ≠ .string) : IsPlainWord p.keyword := by
  have hplain : IsTypeWord p.keyword ∧ '*' ∉ p.keyword ∧ ¬ ['.', '.'] <:+: p.keyword ∧
      p.keyword.any Char.isUpper = false := by
    cases p <;> first | contradiction | decide +kernel
  obtain ⟨hword, hplainStar, hdots, hsmall⟩ := hplain
  refine ⟨hword, hplainStar, hdots, Bool.eq_false_iff.2 fun hknown => ?_⟩
  rw [List.any_eq_true.2 (exists_isUpper_of_isKnownClass hknown)] at hsmall
  cases hsmall

end Words

/-! ### Reading what was written -/

section Reading

variable {t : Text} {words : List Text}

/-- A plain word is written as the one type that it stands for. -/
theorem IsPlainWord.isItem (h : IsPlainWord t) : (ParameterPattern.one t).IsItem t := by
  have hany : t ≠ ['.', '.'] := by
    rintro rfl
    exact h.noDots List.infix_rfl
  have hdots : ¬ ['.', '.', '.'] <:+ t := fun hsuffix =>
    h.noDots (List.IsInfix.trans (by decide) hsuffix.isInfix)
  exact ⟨[], t, [], rfl, .one h.isTypeWord hany hdots, rfl, by simp⟩

theorem areSpelled_of_isPlainWord (hwords : ∀ t ∈ words, IsPlainWord t) :
    AreSpelled (words.map .one) (Text.join [','] words) := by
  cases words with
  | nil => exact .none rfl
  | cons t words =>
    have hitems : List.Forall₂ ParameterPattern.IsItem ((t :: words).map .one) (t :: words) :=
      List.forall₂_map_left_iff.2 (List.forall₂_same.2 fun t ht => (hwords t ht).isItem)
    exact .some hitems

/-- A plain word describes itself. -/
theorem IsPlainWord.accepts (h : IsPlainWord t) : (Glob.ofTypePattern t).accepts t := by
  have hstar : t ≠ ['*'] := by
    rintro rfl
    exact h.noStar (.head _)
  rw [Glob.accepts_iff, Glob.ofTypePattern, if_neg hstar, h.notKnown, if_neg Bool.false_ne_true]
  exact (Glob.mem_language_wildcards h.noStar h.noDots).2 rfl

theorem IsPlainWord.isTypeName (h : IsPlainWord t) : IsTypeName t :=
  ⟨h.isTypeWord.1, fun hcomma => by simpa [isTypePatternChar_comma] using h.isTypeWord.2 ',' hcomma⟩

/-- Plain words fit the parameters that are written so. -/
theorem accepts_of_isPlainWord (hwords : ∀ t ∈ words, IsPlainWord t) :
    (Glob.ofParameterList (words.map .one)).accepts (Text.join [','] words) := by
  have hlead : ¬ [ParameterPattern.any, .any] <+: words.map .one := by
    rintro ⟨rest, hrest⟩
    cases words <;> cases hrest
  refine (Glob.accepts_join_iff_takes (fun t ht => (hwords t ht).isTypeName) hlead ?_).2 ?_
  · intro p hp hany u hu
    obtain ⟨t, ht, rfl⟩ := List.mem_map.1 hp
    have hplain := hwords t ht
    refine Glob.isTypeName_of_ofParameter hany ?_ ?_ hu
    · rintro _ ⟨⟩
      exact hplain.isTypeName
    · rintro _ ⟨⟩
      exact .inr ⟨hplain.noStar, hplain.noDots⟩
  · refine ⟨words.map ([·]), by simp [← List.flatMap_def], ?_⟩
    refine List.forall₂_map_left_iff.2 (List.forall₂_map_right_iff.2 (List.forall₂_same.2 ?_))
    exact fun t ht => ⟨t, rfl, (hwords t ht).accepts⟩

/-- A name without stars describes itself. -/
theorem Glob.mem_language_ofNamePattern (hstar : '*' ∉ t) :
    t ∈ (Glob.ofNamePattern t).language := by
  fun_induction Glob.ofNamePattern t with
  | case1 => exact Glob.mem_language_empty.2 rfl
  | case2 rest => exact absurd (.head _) hstar
  | case3 c rest _ ih => exact Glob.mem_char_seq.2 ⟨rest, ih fun h => hstar (.tail _ h), rfl⟩

end Reading

/-! ### Spelled types -/

namespace Registry

variable {r : Registry} {h x : TypeHandle} {t name : Text} {d : Descriptor} {n k : Nat}
  {chain chain' : List TypeHandle}

/-- The way from an array to its innermost elements. -/
inductive Elements (r : Registry) : TypeHandle → List TypeHandle → Prop where
  | last {h : TypeHandle} (hlive : r.Live h) (hlast : ∀ e, r.get? h ≠ some (.array (some e))) :
    Elements r h [h]
  | array {h e : TypeHandle} {chain : List TypeHandle} (hget : r.get? h = some (.array (some e)))
      (helements : Elements r e chain) : Elements r h (h :: chain)

theorem Elements.unique (hchain : r.Elements h chain) (hchain' : r.Elements h chain') :
    chain = chain' := by
  induction hchain generalizing chain' with
  | last _ hlast =>
    cases hchain' with
    | last => rfl
    | array hget => exact absurd hget (hlast _)
  | array hget _ ih =>
    cases hchain' with
    | last _ hlast => exact absurd hget (hlast _)
    | array hget' helements =>
      cases hget.symm.trans hget'
      rw [ih helements]

theorem Elements.live (hchain : r.Elements h chain) : ∀ x ∈ chain, r.Live x := by
  induction hchain with
  | last hlive => simpa using hlive
  | array hget _ ih => exact List.forall_mem_cons.2 ⟨live_of_get? hget, ih⟩

/-- From what is on the way the way goes on as it did. -/
theorem Elements.exists_suffix (hchain : r.Elements h chain) (hx : x ∈ chain) :
    ∃ rest, r.Elements x rest ∧ rest <:+ chain := by
  induction hchain with
  | last hlive hlast =>
    obtain rfl := List.mem_singleton.1 hx
    exact ⟨_, .last hlive hlast, List.suffix_rfl⟩
  | array hget helements ih =>
    rcases List.mem_cons.1 hx with rfl | hx
    · exact ⟨_, .array hget helements, List.suffix_rfl⟩
    · obtain ⟨rest, hrest, hsuffix⟩ := ih hx
      exact ⟨rest, hrest, hsuffix.trans (List.suffix_cons _ _)⟩

/-- The way to the innermost elements does not come to a place twice. -/
theorem Elements.nodup (hchain : r.Elements h chain) : chain.Nodup := by
  induction hchain with
  | last => exact List.nodup_singleton _
  | @array h e chain hget helements ih =>
    refine List.nodup_cons.2 ⟨fun hmem => ?_, ih⟩
    -- a way that came back would go on as from the start, and be longer than itself
    obtain ⟨rest, hrest, hsuffix⟩ := helements.exists_suffix hmem
    have hlength := hsuffix.length_le
    rw [hrest.unique (.array hget helements), List.length_cons] at hlength
    omega

theorem Elements.length_le (hchain : r.Elements h chain) : chain.length ≤ r.size := by
  have hnodup : (chain.map TypeHandle.index).Nodup :=
    hchain.nodup.map fun _ _ => TypeHandle.mk.injEq .. ▸ id
  have hplaces : chain.map TypeHandle.index ⊆ List.range r.size := fun i hi => by
    obtain ⟨x, hx, rfl⟩ := List.mem_map.1 hi
    exact List.mem_range.2 (hchain.live x hx)
  simpa using hnodup.length_le_of_subset hplaces

/-- A budget for the way to the innermost elements is as good as any other. -/
theorem Elements.spellWithin_eq (hchain : r.Elements h chain) (hn : chain.length ≤ n)
    (hk : chain.length ≤ k) : r.spellWithin n h = r.spellWithin k h := by
  induction hchain generalizing n k with
  | @last h hlive hlast =>
    obtain ⟨n, rfl⟩ := Nat.exists_eq_add_one_of_ne_zero (Nat.ne_zero_of_lt hn)
    obtain ⟨k, rfl⟩ := Nat.exists_eq_add_one_of_ne_zero (Nat.ne_zero_of_lt hk)
    rw [spellWithin, spellWithin]
    cases hget : r.get? h with
    | none => rfl
    | some d =>
      cases d with
      | array element =>
        cases element with
        | none => rfl
        | some e => exact absurd hget (hlast e)
      | _ => rfl
  | array hget helements ih =>
    obtain ⟨n, rfl⟩ := Nat.exists_eq_add_one_of_ne_zero (Nat.ne_zero_of_lt hn)
    obtain ⟨k, rfl⟩ := Nat.exists_eq_add_one_of_ne_zero (Nat.ne_zero_of_lt hk)
    have hbehind := ih (Nat.le_of_succ_le_succ hn) (Nat.le_of_succ_le_succ hk)
    rw [spellWithin, spellWithin, hget]
    simp only [Option.bind_eq_bind, Option.bind_some, hbehind]

/-- A primitive, a type with a fully qualified name in a package, or an array of such types. -/
inductive IsPlainType (r : Registry) : TypeHandle → Prop where
  | primitive {h : TypeHandle} {p : Primitive} (hget : r.get? h = some (.primitive p)) :
    IsPlainType r h
  | named {h : TypeHandle} {name : Text} (hname : r.name? h = some name)
      (hdotted : IsDottedName name) : IsPlainType r h
  | array {h e : TypeHandle} (hget : r.get? h = some (.array (some e)))
      (helement : IsPlainType r e) : IsPlainType r h

theorem exists_isNamed_of_name? (hname : r.name? h = some name) :
    ∃ d, r.get? h = some d ∧ d.isNamed := by
  rw [name?] at hname
  cases hsize : r.size with
  | zero => rw [hsize] at hname; cases hname
  | succ n =>
    rw [hsize, nameWithin] at hname
    split at hname <;> first | exact ⟨_, ‹_›, rfl⟩ | cases hname

theorem IsPlainType.exists_elements (hh : r.IsPlainType h) : ∃ chain, r.Elements h chain := by
  induction hh with
  | primitive hget =>
    exact ⟨_, .last (live_of_get? hget) fun e he => by cases hget.symm.trans he⟩
  | named hname _ =>
    obtain ⟨d, hd, hnamed⟩ := exists_isNamed_of_name? hname
    refine ⟨_, .last (live_of_get? hd) fun e he => ?_⟩
    cases hd.symm.trans he
    cases hnamed
  | array hget _ ih =>
    obtain ⟨chain, hchain⟩ := ih
    exact ⟨_, .array hget hchain⟩

section Seeded

variable (hr : seedSlots <+: r.slots)

include hr

/-- Primitives alone are in their places. -/
theorem primitive?_eq_none (hd : r.get? h = some d) (hprimitive : d.isPrimitive = false) :
    h.primitive? = none := by
  refine List.getElem?_eq_none (Nat.not_lt.1 fun hlt => ?_)
  have hseed : ∀ i (hi : i < seedSlots.length), i < Primitive.all.length →
      seedSlots[i].isPrimitive := by decide
  have hlength : h.index < seedSlots.length := Nat.lt_trans hlt (by decide)
  cases hd.symm.trans (get?_of_seeded hr hlength)
  exact Bool.false_ne_true (hprimitive.symm.trans (hseed _ hlength hlt))

/-- A type with a fully qualified name is spelled by this name. -/
theorem spell?_of_name? (hname : r.name? h = some name) : r.spell? h = some name := by
  obtain ⟨d, hd, hnamed⟩ := exists_isNamed_of_name? hname
  have hprimitive : h.primitive? = none :=
    primitive?_eq_none hr hd (by cases d <;> first | rfl | cases hnamed)
  obtain ⟨n, hn⟩ := (live_of_get? hd).exists_size
  rw [spell?, hn, spellWithin, hprimitive, hd]
  cases d with
  | primitive | array | variableType | methodType | multiCatch => cases hnamed
  | _ => exact hname

/-- An array is spelled as its elements are, with brackets. -/
theorem spell?_of_array {e : TypeHandle} (hget : r.get? h = some (.array (some e)))
    (he : r.IsPlainType e) : r.spell? h = (r.spell? e).map (· ++ ['[', ']']) := by
  -- the budget at the elements is one less than that at the array, and still enough for their way
  obtain ⟨chain, hchain⟩ := he.exists_elements
  obtain ⟨n, hn⟩ := (live_of_get? hget).exists_size
  have hlength : chain.length + 1 ≤ n + 1 := hn ▸ (Elements.array hget hchain).length_le
  have hbehind : r.spellWithin n e = r.spellWithin r.size e :=
    hchain.spellWithin_eq (by omega) (by omega)
  rw [spell?, hn, spellWithin, primitive?_eq_none hr hget rfl, hget, spell?, ← hbehind]
  cases hspelled : r.spellWithin n e <;> simp [hspelled]

/-- A type that is spelled is spelled as a plain word. -/
theorem IsPlainType.isPlainWord (hh : r.IsPlainType h) (hspelled : r.spell? h = some t) :
    IsPlainWord t := by
  induction hh generalizing t with
  | @primitive h p hget =>
    obtain ⟨n, hn⟩ := (live_of_get? hget).exists_size
    rw [spell?, hn, spellWithin, hget] at hspelled
    split at hspelled
    · cases hspelled
      have hstring : IsDottedName "java.lang.String".toList := by decide +kernel
      exact hstring.isPlainWord
    · cases hspelled
    · cases hspelled
    · cases hspelled
    · next hstring hnone hstar _ _ =>
      cases hspelled
      exact isPlainWord_keyword hnone hstar hstring
    · cases hspelled
  | named hname hdotted =>
    cases (spell?_of_name? hr hname).symm.trans hspelled
    exact hdotted.isPlainWord
  | array hget helement ih =>
    rw [spell?_of_array hr hget helement] at hspelled
    obtain ⟨u, hu, rfl⟩ := Option.map_eq_some_iff.1 hspelled
    exact (ih hu).append_brackets

end Seeded

end Registry

/-! ### Matching the declaration -/

namespace MethodPattern

open Registry

variable {r : Registry} {d : MethodDeclaration Tree} {h : TypeHandle} {m : MethodType}
  {signature : Signature} {declaring name : Text}

/-- A type whose own name fits matches. -/
theorem matchesType_of_fitsType {p : MethodPattern} (hname : r.name? h = some name)
    (hfits : p.fitsType name) : p.matchesType r h := by
  obtain ⟨e, he, -⟩ := exists_isNamed_of_name? hname
  obtain ⟨n, hn⟩ := (live_of_get? he).exists_size
  rw [matchesType, hn, matchesTypeWithin, hname]
  simp only [hfits, Bool.true_or]

/-- **A declaration matches its own pattern.** -/
theorem matches_spellDeclaration (hr : Arises (fun _ _ => True) r) (htype : d.type = some h)
    (hm : r.methodAt? h = some m) (hresolved : m.resolved = some signature)
    (hname : d.name.identifierName? = some name) (hidentifier : IsSegment name)
    (hdeclaring : r.name? m.declaring = some declaring) (hdotted : IsDottedName declaring)
    (hparameters : ∀ x ∈ signature.parameters, r.IsPlainType x) (withInterfaces : Bool) :
    ∃ text, spellDeclaration r d = some text ∧
      ∃ p, ofText withInterfaces text = .ok p ∧
        (∀ enclosing : ClassDeclaration Tree, enclosing.type = some m.declaring →
          p.matchesDeclaration r d enclosing) ∧
        (m.name = name → p.matchesMethod r h) := by
  let words := signature.parameters.filterMap r.spell?
  have hwords : ∀ t ∈ words, IsPlainWord t := by
    intro t ht
    obtain ⟨x, hx, hspelled⟩ := List.mem_filterMap.1 ht
    exact (hparameters x hx).isPlainWord hr.seeded hspelled
  let text := declaring ++ [' '] ++ name ++ ['('] ++ r.spellParameters signature.parameters ++ [')']
  have htext : spellDeclaration r d = some text := by
    have hspell := spell?_of_name? hr.seeded hdeclaring
    simp [spellDeclaration, htype, hm, hresolved, hname, hspell, text]
  have hspelled : IsSpelled declaring name (words.map .one) text := by
    refine ⟨[], [' '], [], r.spellParameters signature.parameters, [], rfl,
      hdotted.isPlainWord.isTypeWord, .blank (by simp) (by decide), ?_, rfl,
      areSpelled_of_isPlainWord hwords, rfl, by simp [text]⟩
    exact ⟨hidentifier.1, fun c hc => isNamePatternChar_of_isSegmentChar (hidentifier.2 c hc)⟩
  let p : MethodPattern := ⟨text, declaring, name, words.map .one, withInterfaces⟩
  have hfitsType : p.fitsType declaring := hdotted.isPlainWord.accepts
  have hmatches : p.matchesType r m.declaring := matchesType_of_fitsType hdeclaring hfitsType
  have hfitsName : p.fitsName name := by
    refine Glob.accepts_iff.2 (Glob.mem_language_ofNamePattern fun hstar => ?_)
    exact ne_of_isSegmentChar (hidentifier.2 _ hstar) isSegmentChar_star rfl
  have hfitsParameters : p.fitsParameters r signature.parameters := accepts_of_isPlainWord hwords
  refine ⟨text, htext, p, ofText_eq_ok_iff.2 ⟨hspelled, rfl, rfl⟩, fun enclosing henclosing => ?_,
    fun hsame => ?_⟩
  · simp only [matchesDeclaration, henclosing, hname, htype, Option.bind_some, hm, hresolved,
      hmatches, hfitsName, hfitsParameters, Bool.and_self]
  · simp only [matchesMethod, hm, hresolved, hmatches, hsame, hfitsName, hfitsParameters,
      Bool.and_self]

/-- A method with a dollar sign in its name and in that of its class, and parameters that are a
primitive, an array of arrays, the class and the type of `null`, which is left out. -/
theorem matches_spellDeclaration_dollar :
    let build (q : TypeRequest) := RegistryMove.step (.build q)
    let types := (build (.array (some ⟨15⟩))).run <|
      (build (.array (some (.ofPrimitive .string)))).run <|
        (RegistryMove.alloc (.shallow "a.B$C".toList)).run .new
    let signature : Signature :=
      ⟨none, [.ofPrimitive .int, ⟨16⟩, ⟨14⟩, .ofPrimitive .null]⟩
    let m : MethodType := ⟨.publicOnly, ⟨14⟩, "$m".toList, none, some signature, [], [], []⟩
    let r := (build (.methodType m)).run types
    let d : MethodDeclaration Tree :=
      ⟨[], [], none, none, .node 0 .empty (.identifier "$m".toList none), ⟨.empty, []⟩, none, none,
        some ⟨17⟩⟩
    let text := "a.B$C $m(int,java.lang.String[][],a.B$C)".toList
    Arises (fun _ _ => True) r ∧ spellDeclaration r d = some text ∧
      ∃ p, ofText false text = .ok p ∧ p.matchesMethod r ⟨17⟩ ∧
        ∀ enclosing : ClassDeclaration Tree, enclosing.type = some ⟨14⟩ →
          p.matchesDeclaration r d enclosing := by
  intro build types signature m r d text
  have hr : Arises (fun _ _ => True) r :=
    .move (.move (.move (.move .new _ trivial) _ trivial) _ trivial) (build (.methodType m)) trivial
  have htext : spellDeclaration r d = some text := by decide +kernel
  have hname : r.name? ⟨14⟩ = some "a.B$C".toList := by decide +kernel
  have hdotted : IsDottedName "a.B$C".toList := by decide +kernel
  have hidentifier : IsSegment "$m".toList :=
    isSegment_of_isIdentifier (by decide) (List.forall_mem_singleton.2 (by decide))
  have hstrings : r.IsPlainType ⟨15⟩ :=
    .array (e := .ofPrimitive .string) (by decide +kernel)
      (.primitive (p := .string) (by decide +kernel))
  have hparameters : ∀ x ∈ signature.parameters, r.IsPlainType x := by
    simp only [signature, List.forall_mem_cons]
    exact ⟨.primitive (p := .int) (by decide +kernel),
      .array (e := ⟨15⟩) (by decide +kernel) hstrings, .named hname hdotted,
      .primitive (p := .null) (by decide +kernel), by nofun⟩
  obtain ⟨text', htext', p, hread, hdeclaration, hmethod⟩ :=
    matches_spellDeclaration hr (d := d) (h := ⟨17⟩) rfl (m := m) (by decide +kernel) rfl rfl
      hidentifier hname hdotted hparameters false
  cases htext.symm.trans htext'
  exact ⟨hr, htext, p, hread, hmethod rfl, hdeclaration⟩

end MethodPattern

end JavaSource
