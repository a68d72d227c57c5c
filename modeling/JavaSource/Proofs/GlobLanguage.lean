import JavaSource.Pattern.TypePattern
import Mathlib.Computability.Language

/-!
# The language of a glob

A glob accepts the texts of its language (`Glob.accepts_iff`), which is read off its form.
-/

namespace JavaSource

namespace Glob

open scoped Computability

/-- The texts that a glob describes. -/
def language : Glob → Language Char
  | empty => 1
  | one s => {t | ∃ c, s.contains c ∧ t = [c]}
  | seq a b => a.language * b.language
  | optional g => 1 + g.language
  | many g => g.language∗

variable {g a b : Glob} {gs : List Glob} {c : Char} {t : Text}

/-! ### Reading a language -/

@[simp] theorem mem_language_empty : t ∈ empty.language ↔ t = [] := Iff.rfl

theorem mem_language_one {s : CharSet} :
    t ∈ (one s).language ↔ ∃ c, s.contains c ∧ t = [c] := Iff.rfl

theorem mem_language_seq :
    t ∈ (seq a b).language ↔ ∃ u ∈ a.language, ∃ v ∈ b.language, u ++ v = t :=
  Language.mem_mul

theorem mem_language_optional : t ∈ (optional g).language ↔ t = [] ∨ t ∈ g.language := Iff.rfl

theorem mem_language_many :
    t ∈ (many g).language ↔ ∃ ts : List Text, t = ts.flatten ∧ ∀ u ∈ ts, u ∈ g.language :=
  Language.mem_kstar

@[simp] theorem mem_language_char : t ∈ (char c).language ↔ t = [c] := by
  simp [char, mem_language_one, CharSet.contains]

@[simp] theorem mem_language_text (u : Text) : t ∈ (text u).language ↔ t = u := by
  induction u generalizing t with
  | nil => exact mem_language_empty
  | cons c u ih =>
    change t ∈ (seq (char c) (text u)).language ↔ _
    simp [mem_language_seq, ih, eq_comm]

theorem mem_language_many_one {s : CharSet} :
    t ∈ (many (one s)).language ↔ ∀ c ∈ t, s.contains c := by
  rw [mem_language_many]
  constructor
  · rintro ⟨ts, rfl, hts⟩ c hc
    obtain ⟨u, hu, hcu⟩ := List.mem_flatten.1 hc
    obtain ⟨d, hd, rfl⟩ := mem_language_one.1 (hts u hu)
    exact List.mem_singleton.1 hcu ▸ hd
  · intro h
    refine ⟨t.map ([·]), by simp [← List.flatMap_def], fun u hu => ?_⟩
    obtain ⟨c, hc, rfl⟩ := List.mem_map.1 hu
    exact mem_language_one.2 ⟨c, h c hc, rfl⟩

theorem mem_language_atLeastOne_one {s : CharSet} :
    t ∈ (atLeastOne (one s)).language ↔ t ≠ [] ∧ ∀ c ∈ t, s.contains c := by
  rw [atLeastOne, mem_language_seq]
  simp only [mem_language_one, mem_language_many_one]
  constructor
  · rintro ⟨_, ⟨c, hc, rfl⟩, v, hv, rfl⟩
    exact ⟨List.cons_ne_nil c v, List.forall_mem_cons.2 ⟨hc, hv⟩⟩
  · rintro ⟨hne, hall⟩
    obtain ⟨c, v, rfl⟩ := List.exists_cons_of_ne_nil hne
    obtain ⟨hc, hv⟩ := List.forall_mem_cons.1 hall
    exact ⟨[c], ⟨c, hc, rfl⟩, v, hv, rfl⟩

theorem mem_char_seq : t ∈ (seq (char c) g).language ↔ ∃ u ∈ g.language, c :: u = t := by
  simp [mem_language_seq]

/-! ### Matching -/

theorem acceptsEmpty_iff (g : Glob) : g.acceptsEmpty ↔ [] ∈ g.language := by
  induction g with
  | empty => simp [acceptsEmpty]
  | one s => simp [acceptsEmpty, mem_language_one]
  | seq a b iha ihb => simp [acceptsEmpty, mem_language_seq, iha, ihb]
  | optional g _ => simp [acceptsEmpty, mem_language_optional]
  | many g _ => exact iff_of_true rfl (Language.nil_mem_kstar g.language)

/-- Texts that start with a character, as what follows in a first part and the rest. -/
theorem exists_mem_map_seq (h : ∀ t, (∃ k ∈ after c a, t ∈ k.language) ↔ c :: t ∈ a.language) :
    (∃ k ∈ (after c a).map (seq · b), t ∈ k.language) ↔
      ∃ u v, c :: u ∈ a.language ∧ v ∈ b.language ∧ u ++ v = t := by
  simp only [List.mem_map, exists_exists_and_eq_and, mem_language_seq, ← h]
  grind

/-- What can follow after a character describes the rests of the texts that start with it. -/
theorem exists_mem_after (g : Glob) (c : Char) (t : Text) :
    (∃ k ∈ after c g, t ∈ k.language) ↔ c :: t ∈ g.language := by
  induction g generalizing t with
  | empty => simp [after]
  | one s => by_cases hc : s.contains c <;> simp [after, hc, mem_language_one]
  | optional g ih => simp [after, ih, mem_language_optional]
  | seq a b iha ihb =>
    have hright : (∃ k ∈ (if a.acceptsEmpty then after c b else []), t ∈ k.language) ↔
        [] ∈ a.language ∧ c :: t ∈ b.language := by
      by_cases ha : a.acceptsEmpty <;> simp [ha, ← acceptsEmpty_iff, ihb]
    simp only [after, List.mem_append, or_and_right, exists_or, exists_mem_map_seq iha, hright,
      mem_language_seq]
    constructor
    · rintro (⟨u, v, hu, hv, rfl⟩ | ⟨ha, hb⟩)
      · exact ⟨c :: u, hu, v, hv, rfl⟩
      · exact ⟨[], ha, c :: t, hb, rfl⟩
    · rintro ⟨u, hu, v, hv, h⟩
      cases u with
      | nil => exact .inr ⟨hu, h ▸ hv⟩
      | cons d u =>
        obtain ⟨rfl, rfl⟩ := List.cons.inj h
        exact .inl ⟨u, v, hu, hv, rfl⟩
  | many g ih =>
    rw [after, exists_mem_map_seq ih]
    constructor
    · rintro ⟨u, v, hu, hv, rfl⟩
      obtain ⟨ts, rfl, hts⟩ := mem_language_many.1 hv
      exact mem_language_many.2 ⟨(c :: u) :: ts, rfl, List.forall_mem_cons.2 ⟨hu, hts⟩⟩
    · -- The texts that are put together may be taken as not empty, so the first has the character.
      intro h
      rw [language, Language.kstar_def_nonempty] at h
      obtain ⟨ts, h, hts⟩ := h
      match ts with
      | (d :: u) :: ts =>
        obtain ⟨rfl, rfl⟩ := List.cons.inj h
        exact ⟨u, ts.flatten, (hts _ (.head _)).1,
          mem_language_many.2 ⟨ts, rfl, fun v hv => (hts v (.tail _ hv)).1⟩, rfl⟩
      | [] :: ts => exact absurd rfl (hts [] (.head _)).2

/-- A text is accepted if one of the globs describes it. -/
theorem anyAccepts_iff (gs : List Glob) (t : Text) :
    anyAccepts gs t ↔ ∃ g ∈ gs, t ∈ g.language := by
  induction t generalizing gs with
  | nil => simp [anyAccepts, acceptsEmpty_iff]
  | cons c t ih =>
    simp only [anyAccepts, ih, List.mem_eraseDups, List.mem_flatMap, ← exists_mem_after]
    grind

/-- A glob accepts the texts of its language. -/
theorem accepts_iff : g.accepts t ↔ t ∈ g.language := by
  simp [accepts, anyAccepts_iff]

end Glob

end JavaSource
