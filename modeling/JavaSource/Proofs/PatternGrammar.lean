import JavaSource.Proofs.Lexed
import JavaSource.Proofs.ParameterLists

/-!
# The grammar of method patterns

A method pattern is a type, a separator, a name and parameters in parentheses, with white space
around each (`MethodPattern.IsSpelled`).  The words of a pattern need no end of their own: what
stands behind one cannot stand in it.  So the reader, which takes each word as long as it goes, finds
the words of every pattern that is written as the grammar says
(`MethodPattern.ofText_eq_ok_iff`), and where it fails it stands in the text that it reads
(`MethodPattern.place_of_ofText`).
-/

namespace JavaSource

/-! ### Words -/

/-- A type as it is written in a pattern. -/
def IsTypeWord (t : Text) : Prop := t ≠ [] ∧ ∀ c ∈ t, isTypePatternChar c

/-- A name of methods as it is written in a pattern. -/
def IsNameWord (t : Text) : Prop := t ≠ [] ∧ ∀ c ∈ t, isNamePatternChar c

instance : DecidablePred IsTypeWord := fun t =>
  decidable_of_iff (t ≠ [] ∧ t.all isTypePatternChar) (and_congr_right' List.all_eq_true)

instance : DecidablePred IsNameWord := fun t =>
  decidable_of_iff (t ≠ [] ∧ t.all isNamePatternChar) (and_congr_right' List.all_eq_true)

/-- The code points of white space. -/
def whiteSpaceCodes : List Nat :=
  [9, 10, 11, 12, 13, 0x20, 0x85, 0xA0, 0x1680, 0x2000, 0x2001, 0x2002, 0x2003, 0x2004, 0x2005,
    0x2006, 0x2007, 0x2008, 0x2009, 0x200A, 0x2028, 0x2029, 0x202F, 0x205F, 0x3000]

section WhiteSpace

variable {c : Char}

theorem mem_whiteSpaceCodes (h : isWhiteSpace c) : c.toNat ∈ whiteSpaceCodes := by
  simp only [isWhiteSpace, Bool.or_eq_true, Bool.and_eq_true, decide_eq_true_eq, beq_iff_eq] at h
  simp only [whiteSpaceCodes, List.mem_cons, List.not_mem_nil, or_false]
  omega

/-- No white space is a letter or a digit. -/
theorem isAlphanumeric_of_isWhiteSpace (h : isWhiteSpace c) : isAlphanumeric c = false := by
  have hcodes : ∀ n ∈ whiteSpaceCodes,
      (alphanumericRuns.any fun run => run.1 ≤ n && n ≤ run.2) = false := by decide +kernel
  exact hcodes _ (mem_whiteSpaceCodes h)

theorem beq_of_isWhiteSpace (h : isWhiteSpace c) (d : Char) (hd : isWhiteSpace d = false) :
    (c == d) = false := by
  refine beq_false_of_ne ?_
  rintro rfl
  rw [hd] at h
  cases h

theorem isTypePatternChar_of_isWhiteSpace (h : isWhiteSpace c) : isTypePatternChar c = false := by
  have hne := beq_of_isWhiteSpace h
  simp [isTypePatternChar, isAlphanumeric_of_isWhiteSpace h, hne '_' (by decide),
    hne '$' (by decide), hne '.' (by decide), hne '*' (by decide), hne '[' (by decide),
    hne ']' (by decide)]

theorem isNamePatternChar_of_isWhiteSpace (h : isWhiteSpace c) : isNamePatternChar c = false := by
  have hne := beq_of_isWhiteSpace h
  simp [isNamePatternChar, isAlphanumeric_of_isWhiteSpace h, hne '_' (by decide),
    hne '$' (by decide), hne '*' (by decide), hne '<' (by decide), hne '>' (by decide)]

theorem isWhiteSpace_of_isTypePatternChar (h : isTypePatternChar c) : isWhiteSpace c = false :=
  Bool.eq_false_iff.2 fun hc => by simp [isTypePatternChar_of_isWhiteSpace hc] at h

theorem isWhiteSpace_of_isNamePatternChar (h : isNamePatternChar c) : isWhiteSpace c = false :=
  Bool.eq_false_iff.2 fun hc => by simp [isNamePatternChar_of_isWhiteSpace hc] at h

end WhiteSpace

/-! ### Spellings -/

/-- What stands between the declaring type and the name. -/
inductive IsSeparator : Text → Prop
  | blank {a : Text} (hne : a ≠ []) (ha : a.isBlank) : IsSeparator a
  | hash {a b : Text} (ha : a.isBlank) (hb : b.isBlank) : IsSeparator (a ++ '#' :: b)

/-- A parameter as it is written. -/
inductive ParameterPattern.IsSpelled : ParameterPattern → Text → Prop
  | any : IsSpelled .any ['.', '.']
  | repeated {t : Text} (ht : IsTypeWord t) (hdot : t.getLast? ≠ some '.') :
    IsSpelled (.repeated t) (t ++ ['.', '.', '.'])
  | one {t : Text} (ht : IsTypeWord t) (hany : t ≠ ['.', '.']) (hdots : ¬ ['.', '.', '.'] <:+ t) :
    IsSpelled (.one t) t

/-- A parameter with white space around it. -/
def ParameterPattern.IsItem (p : ParameterPattern) (t : Text) : Prop :=
  ∃ before word after : Text, before.isBlank ∧ p.IsSpelled word ∧ after.isBlank ∧
    t = before ++ (word ++ after)

/-- The parameters as they are written between the parentheses. -/
inductive AreSpelled : List ParameterPattern → Text → Prop
  | none {blank : Text} (h : blank.isBlank) : AreSpelled [] blank
  | some {p : ParameterPattern} {ps : List ParameterPattern} {t : Text} {items : List Text}
    (h : List.Forall₂ ParameterPattern.IsItem (p :: ps) (t :: items)) :
    AreSpelled (p :: ps) (Text.join [','] (t :: items))

/-- A pattern as it is written. -/
def MethodPattern.IsSpelled (declaring name : Text) (parameters : List ParameterPattern)
    (source : Text) : Prop :=
  ∃ before separator between arguments after : Text,
    before.isBlank ∧ IsTypeWord declaring ∧ IsSeparator separator ∧ IsNameWord name ∧
      between.isBlank ∧ AreSpelled parameters arguments ∧ after.isBlank ∧
      source = before ++ (declaring ++ (separator ++ (name ++ (between ++
        '(' :: (arguments ++ ')' :: after)))))

/-! ### Reading words -/

section Words

variable {t blank rest word : Text}

theorem skipBlanks_suffix (t : Text) : skipBlanks t <:+ t := List.dropWhile_suffix _

theorem head?_skipBlanks (t : Text) : ∀ c ∈ (skipBlanks t).head?, isWhiteSpace c = false :=
  head?_dropWhile_eq_false t

theorem exists_blank_append_skipBlanks (t : Text) :
    ∃ blank : Text, blank.isBlank ∧ t = blank ++ skipBlanks t :=
  ⟨t.takeWhile isWhiteSpace, List.all_takeWhile, List.takeWhile_append_dropWhile.symm⟩

theorem skipBlanks_append (hblank : blank.isBlank)
    (hrest : ∀ c ∈ rest.head?, isWhiteSpace c = false) : skipBlanks (blank ++ rest) = rest :=
  (takeWhile_append (List.all_eq_true.1 hblank) hrest).2

/-- White space in front of a character that is none. -/
theorem skipBlanks_append_cons (hblank : blank.isBlank) {c : Char} (hc : isWhiteSpace c = false)
    (rest : Text) : skipBlanks (blank ++ c :: rest) = c :: rest :=
  skipBlanks_append hblank (by simpa using hc)

/-- White space in front of a word. -/
theorem skipBlanks_append_word {isWordChar : Char → Bool}
    (hword : word ≠ [] ∧ ∀ c ∈ word, isWordChar c)
    (hchar : ∀ c, isWordChar c → isWhiteSpace c = false) (hblank : blank.isBlank) (rest : Text) :
    skipBlanks (blank ++ (word ++ rest)) = word ++ rest := by
  obtain ⟨c, word, rfl⟩ := List.exists_cons_of_ne_nil hword.1
  exact skipBlanks_append_cons hblank (hchar c (hword.2 c (.head _))) _

/-- The first character of white space and what stands behind it. -/
theorem head?_append_of_isBlank {p : Char → Prop} (hblank : blank.isBlank)
    (hp : ∀ c, isWhiteSpace c → p c) (hrest : ∀ c ∈ rest.head?, p c) :
    ∀ c ∈ (blank ++ rest).head?, p c := by
  cases blank with
  | nil => exact hrest
  | cons d blank =>
    rintro c ⟨⟩
    exact hp d (List.all_eq_true.1 hblank d (.head _))

end Words

/-! ### Reading parameters -/

namespace ParameterPattern

variable {p : ParameterPattern} {word rest item t : Text}

theorem IsSpelled.isTypeWord (h : p.IsSpelled word) : IsTypeWord word := by
  have hdot : isTypePatternChar '.' := by decide +kernel
  cases h with
  | any => exact ⟨by simp, by simp [hdot]⟩
  | repeated ht => exact ⟨by simp, by simpa [or_imp, forall_and, hdot] using ht.2⟩
  | one ht => exact ht

/-- A word stands for the parameter that is written so. -/
theorem ofWord_eq_ok_iff (hword : IsTypeWord word) :
    ofWord word rest = .ok p ↔ p.IsSpelled word := by
  constructor
  · intro h
    rw [ofWord] at h
    split at h
    · next hany => cases h; exact hany ▸ .any
    · next hany =>
      split at h
      · next reversed hreversed =>
        have hparts : word = reversed.reverse ++ ['.', '.', '.'] := by
          rw [← List.reverse_reverse word, hreversed]; simp
        split at h
        · contradiction
        · next hend =>
          cases h
          simp only [Bool.or_eq_true, List.isEmpty_iff, beq_iff_eq, not_or] at hend
          rw [hparts] at hword ⊢
          refine .repeated ⟨by simpa using hend.1, fun c hc => hword.2 c (by simp [hc])⟩ ?_
          simpa using hend.2
      · next hdots =>
        cases h
        refine .one hword hany ?_
        rintro ⟨t, rfl⟩
        exact hdots t.reverse (by simp)
  · rintro (_ | ⟨ht, hdot⟩ | ⟨ht, hany, hdots⟩)
    · exact if_pos rfl
    · next t =>
      have hany : t ++ ['.', '.', '.'] ≠ ['.', '.'] := fun h => by simpa using congrArg List.length h
      rw [ofWord, if_neg hany]
      simp [ht.1, hdot]
    · rw [ofWord, if_neg hany]
      split
      · next reversed hreversed =>
        refine absurd ⟨reversed.reverse, ?_⟩ hdots
        rw [← List.reverse_reverse word, hreversed]
        simp
      · rfl

/-- A word that stands for no parameter ends in dots that do not fit. -/
theorem suffix_of_ofWord {e : Text} (h : ofWord word rest = .error e) : e <:+ word ++ rest := by
  rw [ofWord] at h
  split at h
  · contradiction
  split at h
  · next reversed hreversed =>
    split at h
    · cases h
      refine ⟨reversed.reverse, ?_⟩
      rw [← List.reverse_reverse word, hreversed]
      simp
    · contradiction
  · contradiction

/-- Reading an item up to the character behind it. -/
theorem IsItem.read (h : p.IsItem item) {c : Char} (hc : isWhiteSpace c = false)
    (hc' : isTypePatternChar c = false) (rest : Text) :
    ∃ word behind, p.IsSpelled word ∧
      (skipBlanks (item ++ c :: rest)).takeWhile isTypePatternChar = word ∧
      (skipBlanks (item ++ c :: rest)).dropWhile isTypePatternChar = behind ∧
      skipBlanks behind = c :: rest := by
  obtain ⟨before, word, after, hbefore, hword, hafter, rfl⟩ := h
  have hstart :
      skipBlanks (before ++ (word ++ after) ++ c :: rest) = word ++ (after ++ c :: rest) := by
    rw [List.append_assoc, List.append_assoc]
    exact skipBlanks_append_word hword.isTypeWord (fun _ => isWhiteSpace_of_isTypePatternChar)
      hbefore _
  have hend : ∀ d ∈ (after ++ c :: rest).head?, isTypePatternChar d = false :=
    head?_append_of_isBlank hafter (fun _ => isTypePatternChar_of_isWhiteSpace) (by simpa using hc')
  obtain ⟨htake, hdrop⟩ := takeWhile_append hword.isTypeWord.2 hend
  exact ⟨word, _, hword, hstart ▸ htake, hstart ▸ hdrop, skipBlanks_append_cons hafter hc rest⟩

end ParameterPattern

section Parameters

open ParameterPattern

variable {p : ParameterPattern} {ps : List ParameterPattern} {item t after : Text}
  {items : List Text}

theorem isTypePatternChar_close : isTypePatternChar ')' = false := by decide +kernel

/-- Reading an item and what stands behind it. -/
theorem readParameters_append_cons (h : p.IsItem item) {c : Char} (hc : isWhiteSpace c = false)
    (hc' : isTypePatternChar c = false) (rest : Text) :
    readParameters (item ++ c :: rest) =
      match c :: rest with
      | ',' :: more => (readParameters more).map fun (ps, after) => (p :: ps, after)
      | ')' :: more => .ok ([p], more)
      | other => .error other := by
  obtain ⟨word, behind, hword, htake, hdrop, hskip⟩ := h.read hc hc' rest
  have hne : word.isEmpty = false := by simpa using hword.isTypeWord.1
  have hp : ofWord word behind = .ok p := (ofWord_eq_ok_iff hword.isTypeWord).2 hword
  subst hdrop
  rw [readParameters]
  simp only [htake, hne, hp, Bool.false_eq_true, ↓reduceIte]
  -- the reader looks at what is left behind the word, which is `c :: rest`
  split
  · next heq =>
    cases hskip.symm.trans heq
    cases hmore : readParameters rest <;> simp only [hmore, Except.map]
  · next heq => cases hskip.symm.trans heq; rfl
  · next hcomma hclose =>
    rw [hskip] at hcomma hclose ⊢
    split
    · next more heq => exact (hcomma more heq).elim
    · next more heq => exact (hclose more heq).elim
    · rfl

theorem readParameters_append_comma (h : p.IsItem item) (more : Text) :
    readParameters (item ++ ',' :: more) =
      (readParameters more).map fun (ps, after) => (p :: ps, after) :=
  readParameters_append_cons h (by decide) isTypePatternChar_comma more

theorem readParameters_append_close (h : p.IsItem item) (after : Text) :
    readParameters (item ++ ')' :: after) = .ok ([p], after) :=
  readParameters_append_cons h (by decide) isTypePatternChar_close after

/-- The parameters of a pattern, item by item. -/
theorem readParameters_of_forall₂ (h : List.Forall₂ IsItem (p :: ps) (item :: items))
    (after : Text) :
    readParameters (Text.join [','] (item :: items) ++ ')' :: after) = .ok (p :: ps, after) := by
  induction ps generalizing p item items with
  | nil =>
    obtain _ | ⟨hp, _ | _⟩ := h
    exact readParameters_append_close hp after
  | cons q ps ih =>
    obtain _ | ⟨hp, _ | ⟨hq, hps⟩⟩ := h
    simp only [Text.join, List.append_assoc, List.cons_append, List.nil_append]
    rw [readParameters_append_comma hp, ih (.cons hq hps)]
    rfl

/-- The first item of a text, from a word that stands for a parameter. -/
theorem exists_isItem (hne : ¬ ((skipBlanks t).takeWhile isTypePatternChar).isEmpty)
    (hp : ofWord ((skipBlanks t).takeWhile isTypePatternChar)
      ((skipBlanks t).dropWhile isTypePatternChar) = .ok p) {rest : Text}
    (hrest : skipBlanks ((skipBlanks t).dropWhile isTypePatternChar) = rest) :
    ∃ item, p.IsItem item ∧ t = item ++ rest := by
  have hword : IsTypeWord ((skipBlanks t).takeWhile isTypePatternChar) :=
    ⟨by simpa using hne, List.all_eq_true.1 List.all_takeWhile⟩
  obtain ⟨before, hbefore, ht⟩ := exists_blank_append_skipBlanks t
  obtain ⟨behind, hbehind, hrest'⟩ :=
    exists_blank_append_skipBlanks ((skipBlanks t).dropWhile isTypePatternChar)
  refine ⟨_, ⟨before, _, behind, hbefore, (ofWord_eq_ok_iff hword).1 hp, hbehind, rfl⟩, ?_⟩
  rw [hrest] at hrest'
  rw [List.append_assoc, List.append_assoc, ← hrest', List.takeWhile_append_dropWhile]
  exact ht

/-- What was read are items with commas between them. -/
theorem exists_items_of_readParameters (h : readParameters t = .ok (ps, after)) :
    ∃ q qs item items, ps = q :: qs ∧ List.Forall₂ IsItem (q :: qs) (item :: items) ∧
      t = Text.join [','] (item :: items) ++ ')' :: after := by
  -- an item is read in two ways: with a comma behind it, or with the parenthesis
  fun_induction readParameters t generalizing ps after with
  | case4 _ _ _ _ hne p hp more hmore =>
    rename_i hlater ih
    cases h
    obtain ⟨item, hitem, ht⟩ := exists_isItem hne hp hmore
    obtain ⟨q, qs, next, items, rfl, hitems, hjoin⟩ := ih hlater
    exact ⟨p, _, item, _, rfl, .cons hitem hitems, by simp [ht, hjoin, Text.join]⟩
  | case5 _ _ _ _ hne p hp =>
    rename_i hmore
    cases h
    obtain ⟨item, hitem, ht⟩ := exists_isItem hne hp hmore
    exact ⟨p, [], item, [], rfl, .cons hitem .nil, ht⟩
  | _ => contradiction

theorem readParameters_skipBlanks (t : Text) : readParameters (skipBlanks t) = readParameters t := by
  have hskip : skipBlanks (skipBlanks t) = skipBlanks t :=
    skipBlanks_append (rfl : Text.isBlank [] = true) (head?_skipBlanks t)
  rw [readParameters, readParameters, hskip]

/-- Parameters do not start with a closing parenthesis. -/
theorem readParameterList_of_readParameters {x : List ParameterPattern × Text}
    (h : readParameters t = .ok x) : readParameterList t = .ok x := by
  rw [readParameterList]
  split
  · next heq =>
    rw [readParameters] at h
    simp [heq, isTypePatternChar_close] at h
  · rwa [readParameters_skipBlanks]

/-- **Parameters.** The reader takes what is written between the parentheses, and nothing else. -/
theorem readParameterList_eq_ok_iff :
    readParameterList t = .ok (ps, after) ↔
      ∃ arguments, AreSpelled ps arguments ∧ t = arguments ++ ')' :: after := by
  constructor
  · intro h
    rw [readParameterList] at h
    split at h
    · next rest heq =>
      cases h
      obtain ⟨blank, hblank, ht⟩ := exists_blank_append_skipBlanks t
      exact ⟨blank, .none hblank, heq ▸ ht⟩
    · rw [readParameters_skipBlanks] at h
      obtain ⟨q, qs, item, items, rfl, hitems, hjoin⟩ := exists_items_of_readParameters h
      exact ⟨_, .some hitems, hjoin⟩
  · rintro ⟨arguments, hblank | hitems, rfl⟩
    · rw [readParameterList, skipBlanks_append_cons hblank (by decide)]
      rfl
    · exact readParameterList_of_readParameters (readParameters_of_forall₂ hitems after)

/-- Where a parameter does not fit is in the text. -/
theorem suffix_of_readParameters {e : Text} (h : readParameters t = .error e) : e <:+ t := by
  have hrest (t : Text) : (skipBlanks t).dropWhile isTypePatternChar <:+ t :=
    (List.dropWhile_suffix _).trans (skipBlanks_suffix t)
  fun_induction readParameters t with
  | case1 t => exact Except.error.inj h ▸ skipBlanks_suffix t
  | case2 t =>
    rename_i hp
    have hsuffix := suffix_of_ofWord hp
    rw [List.takeWhile_append_dropWhile] at hsuffix
    exact Except.error.inj h ▸ hsuffix.trans (skipBlanks_suffix t)
  | case3 t =>
    rename_i hmore _ hlater ih
    have hsuffix := (List.suffix_cons _ _).trans (hmore ▸ skipBlanks_suffix _)
    exact ((ih (hlater.trans h)).trans hsuffix).trans (hrest t)
  | case6 t => exact Except.error.inj h ▸ (skipBlanks_suffix _).trans (hrest t)
  | _ => contradiction

theorem suffix_of_readParameterList {e : Text} (h : readParameterList t = .error e) : e <:+ t := by
  rw [readParameterList] at h
  split at h
  · contradiction
  · exact suffix_of_readParameters (readParameters_skipBlanks t ▸ h)

end Parameters

/-! ### Reading patterns -/

section Separators

variable {separator t rest : Text}

theorem isTypePatternChar_hash : isTypePatternChar '#' = false := by decide +kernel

theorem isNamePatternChar_hash : isNamePatternChar '#' = false := by decide +kernel

theorem isNamePatternChar_open : isNamePatternChar '(' = false := by decide +kernel

theorem skipSeparator_suffix (t : Text) : (skipSeparator t).2 <:+ t := by
  rw [skipSeparator]
  split
  · next rest heq =>
    exact ((skipBlanks_suffix rest).trans (List.suffix_cons '#' rest)).trans
      (heq ▸ skipBlanks_suffix t)
  · exact skipBlanks_suffix t

/-- A separator is skipped as a whole. -/
theorem skipSeparator_append (h : IsSeparator separator)
    (hrest : ∀ c ∈ rest.head?, isWhiteSpace c = false ∧ c ≠ '#') :
    skipSeparator (separator ++ rest) = (true, rest) := by
  have hblank : ∀ c ∈ rest.head?, isWhiteSpace c = false := fun c hc => (hrest c hc).1
  cases h with
  | blank hne ha =>
    rw [skipSeparator, skipBlanks_append ha hblank]
    split
    · exact absurd rfl (hrest '#' rfl).2
    · simpa using List.length_pos_of_ne_nil hne
  | hash ha hb =>
    rw [skipSeparator, List.append_assoc, List.cons_append, skipBlanks_append_cons ha (by decide)]
    exact congrArg (Prod.mk true) (skipBlanks_append hb hblank)

/-- A type ends in front of a separator. -/
theorem IsSeparator.isTypePatternChar_head? (h : IsSeparator separator) (rest : Text) :
    ∀ c ∈ (separator ++ rest).head?, isTypePatternChar c = false := by
  cases h with
  | blank hne ha =>
    rw [List.head?_append_of_ne_nil _ hne, ← List.append_nil separator]
    exact head?_append_of_isBlank ha (fun _ => isTypePatternChar_of_isWhiteSpace) nofun
  | hash ha hb =>
    rw [List.append_assoc]
    exact head?_append_of_isBlank ha (fun _ => isTypePatternChar_of_isWhiteSpace)
      (by simpa using isTypePatternChar_hash)

theorem exists_separator (h : skipSeparator t = (true, rest)) :
    ∃ separator, IsSeparator separator ∧ t = separator ++ rest := by
  obtain ⟨a, ha, ht⟩ := exists_blank_append_skipBlanks t
  rw [skipSeparator] at h
  split at h
  · next rest' heq =>
    obtain ⟨b, hb, hrest⟩ := exists_blank_append_skipBlanks rest'
    cases h
    refine ⟨_, .hash ha hb, ?_⟩
    rw [List.append_assoc, List.cons_append, ← hrest, ← heq]
    exact ht
  · obtain ⟨hlength, rfl⟩ := Prod.mk.inj h
    refine ⟨a, .blank ?_ ha, ht⟩
    rintro rfl
    exact absurd (congrArg List.length ht) (of_decide_eq_true hlength).ne'

end Separators

namespace MethodPattern

variable {p : MethodPattern} {source declaring name t : Text} {withInterfaces : Bool}
  {parameters : List ParameterPattern}

theorem readFrom_eq_ok_iff :
    readFrom source declaring name withInterfaces t = .ok p ↔
      ∃ (between arguments after : Text) (parameters : List ParameterPattern),
        between.isBlank ∧ AreSpelled parameters arguments ∧ after.isBlank ∧
          t = between ++ '(' :: (arguments ++ ')' :: after) ∧
          p = ⟨source, declaring, name, parameters, withInterfaces⟩ := by
  constructor
  · intro h
    rw [readFrom] at h
    obtain ⟨between, hbetween, ht⟩ := exists_blank_append_skipBlanks t
    split at h
    · next rest heq =>
      split at h
      · contradiction
      · next parameters rest hlist =>
        obtain ⟨after, hafter, hrest⟩ := exists_blank_append_skipBlanks rest
        split at h
        · next hend =>
          cases h
          obtain ⟨arguments, harguments, rfl⟩ := readParameterList_eq_ok_iff.1 hlist
          rw [hend, List.append_nil] at hrest
          exact ⟨between, arguments, rest, parameters, hbetween, harguments, hrest ▸ hafter,
            heq ▸ ht, rfl⟩
        · contradiction
    · contradiction
  · rintro ⟨between, arguments, after, parameters, hbetween, harguments, hafter, rfl, rfl⟩
    have hlist : readParameterList (arguments ++ ')' :: after) = .ok (parameters, after) :=
      readParameterList_eq_ok_iff.2 ⟨arguments, harguments, rfl⟩
    have hend : skipBlanks (after ++ []) = [] := skipBlanks_append hafter nofun
    rw [List.append_nil] at hend
    rw [readFrom, skipBlanks_append_cons hbetween (by decide)]
    simp only [hlist, hend]

/-- A type, a separator and a name are read one after the other. -/
theorem ofText_of_words {before separator rest : Text} (hbefore : before.isBlank)
    (hdeclaring : IsTypeWord declaring) (hseparator : IsSeparator separator)
    (hname : IsNameWord name) (hrest : ∀ c ∈ rest.head?, isNamePatternChar c = false)
    (hsource : source = before ++ (declaring ++ (separator ++ (name ++ rest)))) :
    ofText withInterfaces source = readFrom source declaring name withInterfaces rest := by
  have hstart : skipBlanks source = declaring ++ (separator ++ (name ++ rest)) :=
    hsource ▸ skipBlanks_append_word hdeclaring (fun _ => isWhiteSpace_of_isTypePatternChar)
      hbefore _
  obtain ⟨htype, hbehind⟩ :=
    takeWhile_append hdeclaring.2 (hseparator.isTypePatternChar_head? (name ++ rest))
  have hhead : ∀ c ∈ (name ++ rest).head?, isWhiteSpace c = false ∧ c ≠ '#' := by
    intro c hc
    rw [List.head?_append_of_ne_nil _ hname.1] at hc
    have hc := hname.2 c (List.mem_of_head? hc)
    refine ⟨isWhiteSpace_of_isNamePatternChar hc, ?_⟩
    rintro rfl
    simp [isNamePatternChar_hash] at hc
  have hskip : skipSeparator (separator ++ (name ++ rest)) = (true, name ++ rest) :=
    skipSeparator_append hseparator hhead
  obtain ⟨hword, hend⟩ := takeWhile_append hname.2 hrest
  simp only [ofText, hstart, htype, hbehind, hskip, hword, hend]
  simp [hdeclaring.1, hname.1]

/-- **Reading method patterns.** A text is read as the pattern that it spells. -/
theorem ofText_eq_ok_iff :
    ofText withInterfaces source = .ok p ↔
      IsSpelled p.declaring p.name p.parameters source ∧
        p.source = source ∧ p.withInterfaces = withInterfaces := by
  constructor
  · intro h
    simp only [ofText] at h
    obtain ⟨before, hbefore, hsource⟩ := exists_blank_append_skipBlanks source
    split at h
    · contradiction
    · next hdeclaring =>
      split at h
      · split at h <;> contradiction
      · next hname =>
        split at h
        · next hseparated =>
          obtain ⟨separator, hseparator, hrest⟩ := exists_separator (Prod.ext hseparated rfl)
          obtain ⟨between, arguments, after, parameters, hbetween, harguments, hafter, hend, rfl⟩ :=
            readFrom_eq_ok_iff.1 h
          refine ⟨⟨before, separator, between, arguments, after, hbefore,
            ⟨by simpa using hdeclaring, List.all_eq_true.1 List.all_takeWhile⟩, hseparator,
            ⟨by simpa using hname, List.all_eq_true.1 List.all_takeWhile⟩, hbetween, harguments,
            hafter, ?_⟩, rfl, rfl⟩
          rw [← hend, List.takeWhile_append_dropWhile, ← hrest, List.takeWhile_append_dropWhile]
          exact hsource
        · contradiction
  · rintro ⟨⟨before, separator, between, arguments, after, hbefore, hdeclaring, hseparator, hname,
      hbetween, harguments, hafter, hsource⟩, rfl, rfl⟩
    have htail : ∀ c ∈ (between ++ '(' :: (arguments ++ ')' :: after)).head?,
        isNamePatternChar c = false :=
      head?_append_of_isBlank hbetween (fun _ => isNamePatternChar_of_isWhiteSpace)
        (by simpa using isNamePatternChar_open)
    rw [ofText_of_words hbefore hdeclaring hseparator hname htail hsource]
    exact readFrom_eq_ok_iff.2
      ⟨between, arguments, after, p.parameters, hbetween, harguments, hafter, rfl, rfl⟩

/-! ### Errors -/

theorem place_of_readFrom {e : PatternError}
    (h : readFrom source declaring name withInterfaces t = .error e) :
    ∃ place, place <:+ t ∧ e = .ofRest source place := by
  rw [readFrom] at h
  split at h
  · next rest heq =>
    have hrest : rest <:+ t := (List.suffix_cons _ _).trans (heq ▸ skipBlanks_suffix t)
    split at h
    · next place hlist =>
      cases h
      exact ⟨place, (suffix_of_readParameterList hlist).trans hrest, rfl⟩
    · next parameters rest' hlist =>
      obtain ⟨arguments, -, rfl⟩ := readParameterList_eq_ok_iff.1 hlist
      split at h
      · contradiction
      · cases h
        refine ⟨_, (skipBlanks_suffix rest').trans (.trans ?_ hrest), rfl⟩
        exact ⟨arguments ++ [')'], by simp⟩
  · cases h
    exact ⟨_, skipBlanks_suffix t, rfl⟩

/-- **Where reading stops.** A text that is no pattern lacks the name of a method, or does not fit
from some place of it on. -/
theorem place_of_ofText {e : PatternError} (h : ofText withInterfaces source = .error e) :
    e = .missingMethodName ∨ ∃ place, place <:+ source ∧ e = .ofRest source place := by
  simp only [ofText] at h
  have hstart := skipBlanks_suffix source
  have hbehind := (List.dropWhile_suffix isTypePatternChar).trans hstart
  have hrest := (skipSeparator_suffix _).trans hbehind
  split at h
  · cases h; exact .inr ⟨_, hstart, rfl⟩
  split at h
  · split at h
    · cases h; exact .inl rfl
    · cases h; exact .inl rfl
    · cases h; exact .inr ⟨_, hrest, rfl⟩
  split at h
  · obtain ⟨place, hplace, rfl⟩ := place_of_readFrom h
    exact .inr ⟨place, (hplace.trans (List.dropWhile_suffix _)).trans hrest, rfl⟩
  · cases h; exact .inl rfl

/-- The place of a character that does not fit is in front of this character. -/
theorem exists_of_ofRest {place pattern : Text} {position : Nat} {found : Char}
    (hplace : place <:+ source)
    (h : PatternError.ofRest source place = .unexpectedCharacter pattern position found) :
    pattern = source ∧ ∃ before after,
      source = before ++ found :: after ∧ Text.byteLength before = position := by
  obtain ⟨before, rfl⟩ := hplace
  cases place with
  | nil => contradiction
  | cons c after =>
    cases h
    refine ⟨rfl, before, after, rfl, ?_⟩
    rw [Text.byteLength_append, Nat.add_sub_cancel]

/-- **The grammar of method patterns.** A text is read if it is spelled as the grammar says.  Every
other text is an error; where a character is in the way, it stands at the place of the error. -/
theorem reads_iff_exists_isSpelled (withInterfaces : Bool) (source : Text) :
    ((∃ p, ofText withInterfaces source = .ok p) ↔
        ∃ declaring name parameters, IsSpelled declaring name parameters source) ∧
      ((¬ ∃ declaring name parameters, IsSpelled declaring name parameters source) →
        ∃ e, ofText withInterfaces source = .error e ∧
          ∀ pattern position found, e = .unexpectedCharacter pattern position found →
            pattern = source ∧ ∃ before after,
              source = before ++ found :: after ∧ Text.byteLength before = position) := by
  have hread : (∃ p, ofText withInterfaces source = .ok p) ↔
      ∃ declaring name parameters, IsSpelled declaring name parameters source := by
    constructor
    · rintro ⟨p, hp⟩
      exact ⟨p.declaring, p.name, p.parameters, (ofText_eq_ok_iff.1 hp).1⟩
    · rintro ⟨declaring, name, parameters, h⟩
      exact ⟨⟨source, declaring, name, parameters, withInterfaces⟩,
        ofText_eq_ok_iff.2 ⟨h, rfl, rfl⟩⟩
  refine ⟨hread, fun hnot => ?_⟩
  cases herror : ofText withInterfaces source with
  | ok p => exact absurd (hread.1 ⟨p, herror⟩) hnot
  | error e =>
    refine ⟨e, rfl, fun pattern position found heq => ?_⟩
    obtain rfl | ⟨place, hplace, rfl⟩ := place_of_ofText herror
    · contradiction
    · exact exists_of_ofRest hplace heq

/-- A semicolon where a comma or the closing parenthesis should stand. -/
theorem reads_iff_exists_isSpelled_semicolon :
    let source := "java.util.List add(int;)".toList
    ofText false source = .error (.unexpectedCharacter source 22 ';') ∧
      (¬ ∃ declaring name parameters, IsSpelled declaring name parameters source) ∧
      ∃ before after, source = before ++ ';' :: after ∧ Text.byteLength before = 22 := by
  intro source
  have herror : ofText false source = .error (.unexpectedCharacter source 22 ';') := by
    decide +kernel
  obtain ⟨hread, hplace⟩ := reads_iff_exists_isSpelled false source
  have hnot : ¬ ∃ declaring name parameters, IsSpelled declaring name parameters source := by
    rw [← hread, herror]
    rintro ⟨p, ⟨⟩⟩
  obtain ⟨e, he, hfound⟩ := hplace hnot
  cases herror.symm.trans he
  exact ⟨herror, hnot, (hfound source 22 ';' rfl).2⟩

end MethodPattern

end JavaSource
