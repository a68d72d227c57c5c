import JavaSource.Proofs.Registering
import Mathlib.Data.List.Find
import Mathlib.Data.List.Nodup

/-!
# Well-formed registries

What holds of a registry between two requests is `Registry.WellFormed`; it is kept when a descriptor
is registered that was looked up in vain (`WellFormed.register`).  A registry that grows in this way
finds ever after what it found once (`Grows.lookUp`).
-/

namespace JavaSource

namespace Registry

variable {r s : Registry} {d e : Descriptor} {a b h : TypeHandle} {relaxed : Bool} {strict : Prop}

/-! ### Well-formed registries -/

/-- What holds of a registry between two requests.  When `strict` holds, methods stand in the method
lists of classes only. -/
structure WellFormed (strict : Prop) (r : Registry) : Prop where
  seeded : seedSlots <+: r.slots
  descends : r.Descends
  strictly : strict → ∀ ⦃h d⦄, r.get? h = some d → ∀ x ∈ d.components, r.methodAt? x = none
  /-- Every descriptor that was put in is found under its key. -/
  listed : ∀ ⦃h d⦄, r.get? h = some d → d.isPrimitive = false → h ∈ r.under d.key
  /-- What is found under a key has that key. -/
  filed : ∀ ⦃k h⦄, h ∈ r.under k → ∃ d, r.get? h = some d ∧ d.key = k
  distinct : (r.slots.map Descriptor.essence).Nodup

/-- What walks over types rest on: what is there from the start, and no descriptor naming a place that
is not before its own. -/
structure Grounded (r : Registry) : Prop where
  seeded : seedSlots <+: r.slots
  descends : r.Descends

/-- A descriptor that may be registered: it is of live handles and in the form in which descriptors
are registered, there is none like it, and there is no richer class of its name. -/
structure Registrable (strict : Prop) (r : Registry) (d : Descriptor) : Prop where
  canonical : r.canonical d = d
  unanswered : ∀ a ∈ r.under d.key, r.answers d a = false
  live : ∀ x ∈ d.handles, r.Live x
  strictly : strict → ∀ x ∈ d.components, r.methodAt? x = none
  unlike : ∀ ⦃h e⦄, r.get? h = some e → e.essence ≠ d.essence
  unfiled : ∀ p, d.key = .path p → r.under d.key = []
  poorer : ∀ c, d = .classType c → c.supertype = none →
    ∀ first ∈ (r.under d.key).head?, r.hasSupertype first = false

/-- The second registry came from the first by registering descriptors. -/
inductive Grows (strict : Prop) (r : Registry) : Registry → Prop where
  | refl : Grows strict r r
  | register {s : Registry} {d : Descriptor} (before : Grows strict r s)
      (hd : s.Registrable strict d) : Grows strict r (s.register d).2

theorem Grows.trans {t : Registry} (h : Grows strict r s) (h' : Grows strict s t) :
    Grows strict r t := by
  induction h' with
  | refl => exact h
  | register _ hd ih => exact ih.register hd

theorem Grows.slots (h : Grows strict r s) : r.slots <+: s.slots := by
  induction h with
  | refl => exact List.prefix_rfl
  | register _ _ ih => exact ih.trans (prefix_register _ _)

theorem methodAt?_eq_none_iff (hh : r.get? h = some d) :
    r.methodAt? h = none ↔ d.methodName? = none := by
  rw [methodAt?, hh]
  cases d <;> simp [Descriptor.methodName?]

theorem Live.methodAt?_eq (hgrown : r.slots <+: s.slots) (h : r.Live a) :
    s.methodAt? a = r.methodAt? a := by
  rw [methodAt?, methodAt?, h.get?_eq hgrown]

theorem Live.hasSupertype_eq (hgrown : r.slots <+: s.slots) (h : r.Live a) :
    s.hasSupertype a = r.hasSupertype a := by
  rw [hasSupertype, hasSupertype, classAt?, classAt?, h.get?_eq hgrown]

theorem Live.grown (hgrown : r.slots <+: s.slots) (h : r.Live a) : s.Live a :=
  Nat.lt_of_lt_of_le h hgrown.length_le

/-- What is looked up in vain is answered by nothing that is registered under its key. -/
theorem answers_eq_false (h : r.lookUp relaxed d = none) (ha : a ∈ r.under d.key) :
    r.answers d a = false := by
  cases relaxed with
  | true =>
    rw [lookUp, if_pos rfl, List.head?_eq_none_iff] at h
    rw [h] at ha
    cases ha
  | false =>
    rw [lookUp, if_neg Bool.false_ne_true, Option.or_eq_none_iff, List.find?_eq_none] at h
    exact Bool.eq_false_iff.2 (h.1 a ha)

/-- What is there from the start. -/
theorem get?_of_seeded (hr : seedSlots <+: r.slots) (h : a.index < seedSlots.length) :
    r.get? a = some seedSlots[a.index] := by
  obtain ⟨more, hmore⟩ := hr
  rw [get?, ← hmore, List.getElem?_append_left h, List.getElem?_eq_getElem h]

namespace WellFormed

theorem grounded (hr : r.WellFormed strict) : r.Grounded := ⟨hr.seeded, hr.descends⟩

/-- A registry with nothing but what is there from the start. -/
protected theorem fresh (n : Nat) : (Registry.fresh n).WellFormed strict where
  seeded := List.prefix_rfl
  descends h d hd x hx := by
    obtain ⟨hlt, rfl⟩ := List.getElem?_eq_some_iff.1 hd
    have hnone : ∀ d ∈ seedSlots, d.handles = [] := by decide
    rw [hnone _ (List.getElem_mem hlt)] at hx
    cases hx
  strictly _ h d hd x hx := by
    have hnone : ∀ d ∈ seedSlots, d.components = [] := by decide
    rw [hnone _ (List.mem_of_getElem? hd)] at hx
    cases hx
  listed h d hd hp := by
    obtain ⟨hlt, rfl⟩ := List.getElem?_eq_some_iff.1 hd
    have honly : ∀ i (hi : i < seedSlots.length), seedSlots[i].isPrimitive = false → i = 13 := by
      decide
    obtain ⟨i⟩ := h
    obtain rfl : i = 13 := honly i hlt hp
    exact .head _
  filed k h hh := by
    cases k with
    | className name =>
      rw [under, Registry.fresh, Table.get_push] at hh
      split at hh
      · next hname =>
        obtain rfl := List.mem_singleton.1 hh
        exact ⟨_, rfl, hname ▸ rfl⟩
      · cases hh
    | path handles =>
      rw [under, Registry.fresh, PathTrie.find?_empty] at hh
      cases hh
    | _ => cases hh
  distinct := by
    change (seedSlots.map Descriptor.essence).Nodup
    decide

/-- What is found under a key names a descriptor. -/
theorem live_of_mem_under (hr : r.WellFormed strict) {k : RegistryKey} (h : a ∈ r.under k) :
    r.Live a := by
  obtain ⟨d, hd, _⟩ := hr.filed h
  exact live_of_get? hd

/-- Two places do not hold descriptors that differ in nothing that counts. -/
theorem eq_of_essence_eq (hr : r.WellFormed strict) (ha : r.get? a = some d)
    (hb : r.get? b = some e) (h : d.essence = e.essence) : a = b := by
  obtain ⟨i⟩ := a
  obtain ⟨j⟩ := b
  obtain ⟨hi, rfl⟩ := List.getElem?_eq_some_iff.1 ha
  obtain ⟨hj, rfl⟩ := List.getElem?_eq_some_iff.1 hb
  congr 1
  have hi : i < (r.slots.map Descriptor.essence).length := by simpa using hi
  have hj : j < (r.slots.map Descriptor.essence).length := by simpa using hj
  have hsame : (r.slots.map Descriptor.essence)[i] = (r.slots.map Descriptor.essence)[j] := by
    simpa using h
  exact hr.distinct.getElem_inj_iff.1 hsame

/-- The primitives are in the first places only. -/
theorem isPrimitive_of_get? (hr : r.WellFormed strict) (ha : r.get? a = some d)
    (hd : d.isPrimitive) : a.isPrimitive := by
  cases d with
  | primitive p =>
    have hseed : ∀ p, ∃ h : (TypeHandle.ofPrimitive p).index < seedSlots.length,
        (TypeHandle.ofPrimitive p).isPrimitive ∧
          seedSlots[(TypeHandle.ofPrimitive p).index] = .primitive p := by
      intro p
      cases p <;> decide
    obtain ⟨hlt, hfirst, hp⟩ := hseed p
    have hget := get?_of_seeded hr.seeded hlt
    rw [hp] at hget
    rw [hr.eq_of_essence_eq ha hget rfl]
    exact hfirst
  | _ => cases hd

/-- A descriptor that is looked up in vain may be registered. -/
theorem registrable (hr : r.WellFormed strict) (hcanonical : r.canonical d = d)
    (hlive : ∀ x ∈ d.handles, r.Live x)
    (hstrict : strict → ∀ x ∈ d.components, r.methodAt? x = none) (hp : d.isPrimitive = false)
    (h : r.lookUp relaxed d = none) : r.Registrable strict d where
  canonical := hcanonical
  unanswered a ha := answers_eq_false h ha
  live := hlive
  strictly := hstrict
  unlike a e ha he := by
    have hkey := Descriptor.key_eq_of_essence_eq he
    have hmem : a ∈ r.under d.key := by
      rw [← hkey]
      refine hr.listed ha ?_
      cases d <;> cases e <;> simp_all [Descriptor.essence, Descriptor.isPrimitive]
    have hanswers : r.answers d a := by
      rw [answers, ha, Option.any_some, Bool.or_eq_true, Bool.not_eq_true']
      by_cases hs : d.isSought = false
      · exact .inl hs
      · refine .inr (Descriptor.agrees_of_essence_eq (deepEqual_self r) ?_ he)
        cases d <;> simp_all [Descriptor.isSought, Descriptor.essence]
    rw [answers_eq_false h hmem] at hanswers
    cases hanswers
  unfiled p hp := by
    have hs : d.isSought = false := by
      cases d <;> simp_all [Descriptor.isSought, Descriptor.key]
    rw [lookUp_of_not_isSought hs, List.head?_eq_none_iff] at h
    exact h
  poorer c hc hnone first hfirst := by
    subst hc
    cases relaxed with
    | true =>
      rw [lookUp, if_pos rfl] at h
      rw [h] at hfirst
      cases hfirst
    | false =>
      rw [lookUp, if_neg Bool.false_ne_true, Option.or_eq_none_iff] at h
      have hricher := h.2
      rw [Descriptor.key, under] at hfirst
      simpa [richer?, Option.mem_def.1 hfirst, Option.filter, hnone] using hricher

/-- Registering keeps a registry well formed. -/
theorem register (hr : r.WellFormed strict) (hd : r.Registrable strict d) :
    (r.register d).2.WellFormed strict where
  seeded := hr.seeded.trans (prefix_register r d)
  descends h e he x hx := by
    rcases get?_register_cases he with he | ⟨rfl, rfl⟩
    · exact hr.descends he x hx
    · exact hd.live x hx
  strictly hs h e he x hx := by
    rcases get?_register_cases he with he | ⟨rfl, rfl⟩
    · have hx' := hr.descends.live he (Descriptor.mem_handles_of_components hx)
      rw [hx'.methodAt?_eq (prefix_register r d)]
      exact hr.strictly hs he x hx
    · have hx' := hd.live x (Descriptor.mem_handles_of_components hx)
      rw [hx'.methodAt?_eq (prefix_register r e)]
      exact hd.strictly hs x hx
  listed h e he hp := by
    rw [under_register hd.unfiled]
    rcases get?_register_cases he with he | ⟨rfl, rfl⟩
    · have hmem := hr.listed he hp
      split
      · next hk => exact List.mem_append_left _ (hk ▸ hmem)
      · exact hmem
    · rw [if_pos rfl]
      exact List.mem_append_right _ (.head _)
  filed k h hh := by
    have hold : h ∈ r.under k → ∃ e, (r.register d).2.get? h = some e ∧ e.key = k := by
      intro hh
      obtain ⟨e, he, hk⟩ := hr.filed hh
      exact ⟨e, by rw [(live_of_get? he).get?_eq (prefix_register r d), he], hk⟩
    rw [under_register hd.unfiled] at hh
    split at hh
    · next hk =>
      rcases List.mem_append.1 hh with hh | hh
      · exact hold (hk ▸ hh)
      · rw [List.mem_singleton.1 hh]
        exact ⟨d, get?_register_self r d, hk.symm⟩
    · exact hold hh
  distinct := by
    rw [slots_register, List.map_append, List.nodup_append]
    refine ⟨hr.distinct, List.nodup_singleton _, fun x hx y hy hxy => ?_⟩
    obtain ⟨e, he, rfl⟩ := List.mem_map.1 hx
    obtain rfl := List.mem_singleton.1 hy
    obtain ⟨i, hi⟩ := List.getElem?_of_mem he
    exact hd.unlike (h := ⟨i⟩) hi hxy

end WellFormed

theorem Grows.wellFormed (h : Grows strict r s) (hr : r.WellFormed strict) :
    s.WellFormed strict := by
  induction h with
  | refl => exact hr
  | register _ hd ih => exact ih.register hd

/-! ### Finding again -/

namespace WellFormed

theorem agrees_eq (hr : r.WellFormed strict) (hgrown : r.slots <+: s.slots)
    (he : r.get? a = some e) (hd : ∀ x ∈ d.handles, r.Live x) :
    e.agrees s.deepEqual d = e.agrees r.deepEqual d := by
  refine Descriptor.agrees_congr fun x hx y hy => ?_
  have hx' := hr.descends.live he (Descriptor.mem_handles_of_compared hx)
  have hy' := hd y (Descriptor.mem_handles_of_compared hy)
  exact (deepEqual_congr hr.descends hgrown hx' hy').symm

theorem answers_eq (hr : r.WellFormed strict) (hgrown : r.slots <+: s.slots) (ha : r.Live a)
    (hd : ∀ x ∈ d.handles, r.Live x) : s.answers d a = r.answers d a := by
  obtain ⟨e, he⟩ := ha.exists_get?
  rw [answers, answers, ha.get?_eq hgrown, he, Option.any_some, Option.any_some,
    hr.agrees_eq hgrown he hd]

/-- A handle under a key stays there when another descriptor is registered, and only the new handle
may come behind it. -/
theorem exists_under_register (he : r.Registrable strict e) (k : RegistryKey) :
    ∃ more, (r.register e).2.under k = r.under k ++ more ∧
      ∀ x ∈ more, x = (r.register e).1 ∧ e.key = k := by
  rw [under_register he.unfiled]
  split
  · next hk => exact ⟨_, by rw [hk], fun x hx => ⟨List.mem_singleton.1 hx, hk.symm⟩⟩
  · exact ⟨[], by rw [List.append_nil], by nofun⟩

/-- Where a class without a supertype was content with a richer one, none without a supertype is
registered, and so none that the request agrees with. -/
theorem answers_register_of_richer? (he : r.Registrable strict e) (hk : e.key = d.key)
    (h : r.richer? d = some a) : (r.register e).2.answers d (r.register e).1 = false := by
  cases d with
  | classType c =>
    rw [richer?, Option.filter_eq_some_iff, Bool.and_eq_true, Option.isNone_iff_eq_none] at h
    obtain ⟨hfirst, hc, hrich⟩ := h
    obtain ⟨c', rfl, hname⟩ := Descriptor.exists_of_key_eq_className hk
    rw [answers_classType, matchesClass, classAt?, get?_register_self, Option.any_some]
    cases hc' : c'.supertype with
    | some s => simp [ClassType.agrees, hc', hc, optionsAgree]
    | none =>
      have hpoor := he.poorer c' rfl hc' a (by rw [Descriptor.key, hname]; exact hfirst)
      rw [hpoor] at hrich
      cases hrich
  | _ => cases h

theorem richer?_register (hr : r.WellFormed strict) (he : r.Registrable strict e)
    (h : r.richer? d = some a) : (r.register e).2.richer? d = some a := by
  cases d with
  | classType c =>
    rw [richer?, Option.filter_eq_some_iff, Bool.and_eq_true, Option.isNone_iff_eq_none] at h ⊢
    obtain ⟨hfirst, hc, hrich⟩ := h
    have hlive : r.Live a := hr.live_of_mem_under (k := .className c.name)
      (List.mem_of_mem_head? hfirst)
    obtain ⟨more, hunder, -⟩ := exists_under_register he (.className c.name)
    refine ⟨?_, hc, by rw [hlive.hasSupertype_eq (prefix_register r e), hrich]⟩
    simp only [under] at hunder
    rw [hunder, List.head?_append, hfirst, Option.some_or]
  | _ => cases h

/-- What was found is found again when another descriptor was registered: handles are put behind
those that are there, so an earlier match stays the first one. -/
theorem lookUp_register (hr : r.WellFormed strict) (hd : ∀ x ∈ d.handles, r.Live x)
    (he : r.Registrable strict e) (h : r.lookUp relaxed d = some a) :
    (r.register e).2.lookUp relaxed d = some a := by
  obtain ⟨more, hunder, hmore⟩ := exists_under_register he d.key
  have hsame : (r.under d.key).find? ((r.register e).2.answers d) =
      (r.under d.key).find? (r.answers d) := List.find?_congr fun x hx =>
    hr.answers_eq (prefix_register r e) (hr.live_of_mem_under hx) hd
  cases relaxed with
  | true =>
    rw [lookUp, if_pos rfl] at h ⊢
    rw [hunder, List.head?_append, h, Option.some_or]
  | false =>
    rw [lookUp, if_neg Bool.false_ne_true, Option.or_eq_some_iff] at h
    rw [lookUp, if_neg Bool.false_ne_true, hunder, List.find?_append, hsame]
    rcases h with h | ⟨hnone, hricher⟩
    · rw [h, Option.some_or, Option.some_or]
    · have hunmatched : more.find? ((r.register e).2.answers d) = none := by
        refine List.find?_eq_none.2 fun x hx => ?_
        obtain ⟨rfl, hk⟩ := hmore x hx
        rw [answers_register_of_richer? he hk hricher]
        exact Bool.false_ne_true
      rw [hnone, hunmatched, Option.none_or, Option.none_or, hr.richer?_register he hricher]

/-- What was registered is found. -/
theorem lookUp_register_self (hr : r.WellFormed strict) (hd : r.Registrable strict d)
    (h : r.lookUp relaxed d = none) :
    (r.register d).2.lookUp relaxed d = some (r.register d).1 := by
  have hgrown := prefix_register r d
  have hunder := under_register hd.unfiled d.key
  rw [if_pos rfl] at hunder
  cases relaxed with
  | true =>
    rw [lookUp, if_pos rfl] at h ⊢
    rw [hunder, List.head?_append, h]
    rfl
  | false =>
    rw [lookUp, if_neg Bool.false_ne_true, Option.or_eq_none_iff] at h
    have hold : (r.under d.key).find? ((r.register d).2.answers d) = none := by
      rw [← h.1]
      exact List.find?_congr fun x hx => hr.answers_eq hgrown (hr.live_of_mem_under hx) hd.live
    have hnew : (r.register d).2.answers d (r.register d).1 := by
      rw [answers, get?_register_self, Option.any_some, Bool.or_eq_true, Bool.not_eq_true']
      by_cases hs : d.isSought = false
      · exact .inl hs
      · refine .inr (Descriptor.agrees_refl (deepEqual_self _) ?_)
        rintro rfl
        exact hs rfl
    rw [lookUp, if_neg Bool.false_ne_true, hunder, List.find?_append, hold, List.find?_singleton,
      if_pos hnew]
    rfl

end WellFormed

/-- What was found once is found ever after. -/
theorem Grows.lookUp (h : Grows strict r s) (hr : r.WellFormed strict)
    (hd : ∀ x ∈ d.handles, r.Live x) (ha : r.lookUp relaxed d = some a) :
    s.lookUp relaxed d = some a := by
  induction h with
  | refl => exact ha
  | register before he ih =>
    exact (before.wellFormed hr).lookUp_register (fun x hx => (hd x hx).grown before.slots) he ih

/-! ### Interning -/

theorem mem_under_of_lookUp (h : r.lookUp relaxed d = some a) : a ∈ r.under d.key := by
  cases relaxed with
  | true => exact List.mem_of_mem_head? h
  | false =>
    rw [lookUp, if_neg Bool.false_ne_true, Option.or_eq_some_iff] at h
    rcases h with h | ⟨-, h⟩
    · exact List.mem_of_find?_eq_some h
    · cases d with
      | classType c => exact List.mem_of_mem_head? (Option.filter_eq_some_iff.1 h).1
      | _ => cases h

section Intern

variable (hr : r.WellFormed strict) (hcanonical : r.canonical d = d)
  (hlive : ∀ x ∈ d.handles, r.Live x)
  (hstrict : strict → ∀ x ∈ d.components, r.methodAt? x = none) (hp : d.isPrimitive = false)

include hr hcanonical hlive hstrict hp

theorem grows_intern : Grows strict r (r.intern relaxed d).2 := by
  rw [intern]
  split
  · exact .refl
  · next h => exact .register .refl (hr.registrable hcanonical hlive hstrict hp h)

/-- What was asked for once is found. -/
theorem lookUp_intern (relaxed : Bool) :
    (r.intern relaxed d).2.lookUp relaxed d = some (r.intern relaxed d).1 := by
  rw [intern]
  split
  · assumption
  · next h => exact hr.lookUp_register_self (hr.registrable hcanonical hlive hstrict hp h) h

/-- Interning gives a descriptor with the key of the one that was asked for. -/
theorem exists_get?_intern (relaxed : Bool) :
    ∃ e, (r.intern relaxed d).2.get? (r.intern relaxed d).1 = some e ∧ e.key = d.key :=
  ((grows_intern hr hcanonical hlive hstrict hp).wellFormed hr).filed
    (mem_under_of_lookUp (lookUp_intern hr hcanonical hlive hstrict hp relaxed))

end Intern

end Registry

end JavaSource
