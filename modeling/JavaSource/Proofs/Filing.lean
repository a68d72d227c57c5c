import JavaSource.Proofs.Requests

/-!
# Every type is registered once

The five tables of a registry as one list of handles with the keys that they are registered under
(`Registry.filings`).  In a registry that steps on live handles lead to it holds each handle but those
of the primitives once, under the key of its descriptor (`Registry.filings_of_reaches`): registering
puts one more handle into the list and one more descriptor behind the others, and whatever else
happens to a registry starts it anew.
-/

namespace JavaSource

section Alter

variable {κ α β : Type} [DecidableEq κ] {key : κ} {f : Option α → α} {xs : List (κ × α)}

theorem forall_mem_alter {p : κ × α → Prop} (hnew : p (key, f (valueAt key xs)))
    (hold : ∀ x ∈ xs, p x) : ∀ x ∈ alter key f xs, p x := by
  induction xs with
  | nil => exact List.forall_mem_singleton.2 hnew
  | cons x xs ih =>
    obtain ⟨hx, hxs⟩ := List.forall_mem_cons.1 hold
    rw [alter]
    rw [valueAt] at hnew
    by_cases hk : x.1 = key
    · rw [if_pos hk] at hnew ⊢
      exact List.forall_mem_cons.2 ⟨hk ▸ hnew, hxs⟩
    · rw [if_neg hk] at hnew ⊢
      exact List.forall_mem_cons.2 ⟨hx, ih hnew hxs⟩

/-- What is read off each entry grows by what the changed entry grows by. -/
theorem flatMap_alter_perm {g : κ × α → List β} {y : β}
    (h : (g (key, f (valueAt key xs))).Perm
      (y :: (valueAt key xs).elim [] fun a => g (key, a))) :
    ((alter key f xs).flatMap g).Perm (y :: xs.flatMap g) := by
  induction xs with
  | nil => simpa [alter, valueAt] using h
  | cons x xs ih =>
    obtain ⟨k, a⟩ := x
    rw [alter]
    rw [valueAt] at h
    by_cases hk : k = key
    · subst hk
      rw [if_pos rfl] at h ⊢
      simpa using h.append_right (xs.flatMap g)
    · rw [if_neg hk] at h ⊢
      simpa using ((ih h).append_left (g (k, a))).trans List.perm_middle

theorem mem_of_valueAt {a : α} (h : valueAt key xs = some a) : (key, a) ∈ xs := by
  induction xs with
  | nil => cases h
  | cons x xs ih =>
    rw [valueAt] at h
    split at h
    · next hk =>
      obtain rfl := Option.some.inj h
      exact hk ▸ List.mem_cons_self
    · exact List.mem_cons_of_mem _ (ih h)

end Alter

namespace Table

variable {κ : Type} {t : Table κ}

/-- The handles with their keys. -/
def pairs (t : Table κ) : List (κ × TypeHandle) :=
  t.entries.flatMap fun e => e.2.map (Prod.mk e.1)

theorem length_pairs (t : Table κ) : t.pairs.length = t.handleCount := by
  simp [pairs, handleCount, List.length_flatMap]

/-- Under each key is one handle. -/
def IsSingle (t : Table κ) : Prop := ∀ e ∈ t.entries, e.2.length = 1

theorem IsSingle.handleCount_eq (h : t.IsSingle) : t.handleCount = t.keyCount := by
  rw [handleCount, keyCount, List.length_flatMap, List.map_congr_left h]
  simp

variable [DecidableEq κ]

theorem pairs_push (t : Table κ) (key : κ) (h : TypeHandle) :
    (t.push key h).pairs.Perm ((key, h) :: t.pairs) := by
  refine flatMap_alter_perm ?_
  cases valueAt key t.entries with
  | none => exact .refl _
  | some old =>
    simp only [Option.getD_some, List.map_append, Option.elim_some]
    exact List.perm_append_singleton _ _

theorem mem_pairs_of_mem_get {key : κ} {h : TypeHandle} (hh : h ∈ t.get key) :
    (key, h) ∈ t.pairs := by
  rw [get] at hh
  cases hv : valueAt key t.entries with
  | none => rw [hv] at hh; cases hh
  | some handles =>
    rw [hv] at hh
    exact List.mem_flatMap.2 ⟨_, mem_of_valueAt hv, List.mem_map_of_mem hh⟩

/-- Where nothing is found under a key, one handle is put there. -/
theorem IsSingle.push (h : t.IsSingle) {key : κ} (hnone : t.get key = []) (new : TypeHandle) :
    (t.push key new).IsSingle := by
  refine forall_mem_alter ?_ h
  rw [get] at hnone
  rw [hnone]
  rfl

end Table

namespace PathTrie

/-- The handles with their paths. -/
def pairs : PathTrie → List (List TypeHandle × TypeHandle)
  | node l cs => l.toList.map (Prod.mk []) ++
      cs.attach.flatMap fun c => (pairs c.1.2).map fun p => (c.1.1 :: p.1, p.2)
decreasing_by
  have h₁ := List.sizeOf_lt_of_mem c.2
  have h₂ : sizeOf c.1 = 1 + sizeOf c.1.1 + sizeOf c.1.2 := rfl
  simp only [node.sizeOf_spec]
  omega

theorem pairs_eq (t : PathTrie) : t.pairs = t.leaf.toList.map (Prod.mk []) ++
    t.children.flatMap fun c => c.2.pairs.map fun p => (c.1 :: p.1, p.2) := by
  obtain ⟨l, cs⟩ := t
  rw [pairs, leaf_node, children_node]
  congr 1
  have hattach := List.flatMap_subtype (l := cs.attach)
    (f := fun c => c.1.2.pairs.map fun p => (c.1.1 :: p.1, p.2))
    (g := fun c => c.2.pairs.map fun p => (c.1 :: p.1, p.2)) fun _ _ => rfl
  rw [hattach, List.unattach_attach]

theorem pairs_empty : empty.pairs = [] := by
  rw [pairs_eq]
  rfl

theorem pairs_insert (h : TypeHandle) {path : List TypeHandle} {t : PathTrie}
    (hnone : t.find? path = none) : (t.insert h path).pairs.Perm ((path, h) :: t.pairs) := by
  induction path generalizing t with
  | nil =>
    have hleaf : t.leaf = none := hnone
    rw [insert, pairs_eq, pairs_eq t, hleaf]
    exact .refl _
  | cons key path ih =>
    rw [insert, pairs_eq, pairs_eq t, leaf_node, children_node]
    refine ((flatMap_alter_perm ?_).append_left _).trans List.perm_middle
    rw [find?] at hnone
    cases hv : valueAt key t.children with
    | none =>
      have hnew := ih (t := empty) (find?_empty path)
      rw [pairs_empty] at hnew
      exact hnew.map _
    | some child =>
      rw [hv] at hnone
      exact (ih (t := child) hnone).map _

theorem mem_pairs_of_find? {path : List TypeHandle} {t : PathTrie} {h : TypeHandle}
    (hh : t.find? path = some h) : (path, h) ∈ t.pairs := by
  induction path generalizing t with
  | nil =>
    have hleaf : t.leaf = some h := hh
    rw [pairs_eq, hleaf]
    exact List.mem_append_left _ (.head _)
  | cons key path ih =>
    obtain ⟨child, hchild, hh⟩ := Option.bind_eq_some_iff.1 hh
    rw [pairs_eq]
    refine List.mem_append_right _ (List.mem_flatMap.2 ⟨_, mem_of_valueAt hchild, ?_⟩)
    exact List.mem_map.2 ⟨_, ih hh, rfl⟩

end PathTrie

namespace Registry

variable {r s : Registry} {d e : Descriptor} {h : TypeHandle} {k : RegistryKey} {strict : Prop}

/-! ### The tables as one list -/

/-- What is in the tables: handles with what they are registered under. -/
def filings (r : Registry) : List (RegistryKey × TypeHandle) :=
  r.classes.pairs.map (Prod.map .className id) ++ r.parameterized.pairs.map (Prod.map .path id) ++
    r.vars.pairs.map (Prod.map (fun k => .typedName k.1 k.2) id) ++
    r.methods.pairs.map (Prod.map (fun k => .declaredName k.1 k.2) id) ++
    r.others.pairs.map (Prod.map .itself id)

theorem length_filings (r : Registry) : r.filings.length =
    r.classes.handleCount + r.parameterized.pairs.length + r.vars.handleCount +
      r.methods.handleCount + r.others.handleCount := by
  simp [filings, Table.length_pairs, Nat.add_assoc]

theorem filings_file (h : TypeHandle) (hpath : ∀ p, k = .path p → r.under k = []) :
    (r.file h k).filings.Perm ((k, h) :: r.filings) := by
  cases k with
  | className name =>
    have hmore := (r.classes.pairs_push name h).map (Prod.map RegistryKey.className id)
    exact (((hmore.append_right _).append_right _).append_right _).append_right _
  | path p =>
    have hnone : r.parameterized.find? p = none := by simpa [under] using hpath p rfl
    have hmore := (PathTrie.pairs_insert h hnone).map (Prod.map RegistryKey.path id)
    exact ((((hmore.append_left _).trans List.perm_middle).append_right _).append_right
      _).append_right _
  | typedName name type =>
    have hmore := (r.vars.pairs_push (name, type) h).map
      (Prod.map (fun k => RegistryKey.typedName k.1 k.2) id)
    exact (((hmore.append_left _).trans List.perm_middle).append_right _).append_right _
  | declaredName declaring name =>
    have hmore := (r.methods.pairs_push (declaring, name) h).map
      (Prod.map (fun k => RegistryKey.declaredName k.1 k.2) id)
    exact ((hmore.append_left _).trans List.perm_middle).append_right _
  | itself d =>
    have hmore := (r.others.pairs_push d h).map (Prod.map RegistryKey.itself id)
    exact (hmore.append_left _).trans List.perm_middle

/-- What is found under a key is in the list. -/
theorem mem_filings_of_mem_under (hh : h ∈ r.under k) : (k, h) ∈ r.filings := by
  simp only [filings, List.mem_append]
  cases k with
  | className name =>
    exact .inl <| .inl <| .inl <| .inl <| List.mem_map.2 ⟨_, Table.mem_pairs_of_mem_get hh, rfl⟩
  | path p =>
    have hfound := PathTrie.mem_pairs_of_find? (Option.mem_toList.1 hh)
    exact .inl <| .inl <| .inl <| .inr <| List.mem_map.2 ⟨_, hfound, rfl⟩
  | typedName name type =>
    exact .inl <| .inl <| .inr <| List.mem_map.2 ⟨_, Table.mem_pairs_of_mem_get hh, rfl⟩
  | declaredName declaring name =>
    exact .inl <| .inr <| List.mem_map.2 ⟨_, Table.mem_pairs_of_mem_get hh, rfl⟩
  | itself d => exact .inr <| List.mem_map.2 ⟨_, Table.mem_pairs_of_mem_get hh, rfl⟩

/-! ### What the descriptors dictate -/

/-- The handles of all descriptors but the primitives, with the keys of these. -/
def dictated (r : Registry) : List (RegistryKey × TypeHandle) :=
  (r.slots.zipIdx.drop Primitive.all.length).map fun p => (p.1.key, ⟨p.2⟩)

theorem length_dictated (r : Registry) : r.dictated.length = r.size - Primitive.all.length := by
  simp [dictated, size]

theorem dictated_register (hr : Primitive.all.length ≤ r.slots.length) (d : Descriptor) :
    (r.register d).2.dictated = r.dictated ++ [(d.key, (r.register d).1)] := by
  rw [dictated, slots_register, List.zipIdx_append, List.drop_append_of_le_length (by simpa using hr),
    List.map_append, dictated]
  simp [register, alloc]

theorem mem_dictated : (k, h) ∈ r.dictated ↔
    ∃ d, r.get? h = some d ∧ d.key = k ∧ Primitive.all.length ≤ h.index := by
  obtain ⟨i⟩ := h
  simp only [dictated, List.mem_map, Prod.mk.injEq, TypeHandle.mk.injEq, Prod.exists, get?]
  constructor
  · rintro ⟨d, j, hmem, hk, rfl⟩
    obtain ⟨n, hn, hget⟩ := List.mem_iff_getElem.1 hmem
    rw [List.getElem_drop, List.getElem_zipIdx, Prod.mk.injEq] at hget
    obtain ⟨hd, hj⟩ := hget
    refine ⟨d, ?_, hk, by omega⟩
    rw [List.getElem?_eq_some_iff]
    exact ⟨by simp at hn; omega, by simpa [← hj] using hd⟩
  · rintro ⟨d, hd, hk, hi⟩
    obtain ⟨hlt, hget⟩ := List.getElem?_eq_some_iff.1 hd
    refine ⟨d, i, List.mem_iff_getElem.2 ⟨i - Primitive.all.length, ?_, ?_⟩, hk, rfl⟩
    · simpa using by omega
    · rw [List.getElem_drop, List.getElem_zipIdx]
      simp [Nat.add_sub_cancel' hi, hget]

theorem nodup_dictated (r : Registry) : r.dictated.Nodup := by
  refine List.Nodup.of_map (f := fun p => p.2.index) ?_
  have hindex : r.dictated.map (fun p => p.2.index) =
      (r.slots.zipIdx.map Prod.snd).drop Primitive.all.length := by
    rw [dictated, List.map_map, List.map_drop]
    rfl
  rw [hindex, List.zipIdx_map_snd]
  exact List.Nodup.sublist (List.drop_sublist _ _) List.nodup_range'

/-! ### Registries that steps lead to -/

/-- What registering keeps holds of a grown registry. -/
theorem Grows.invariant {P : Registry → Prop}
    (hregister : ∀ {s d}, s.WellFormed strict → s.Registrable strict d → P s → P (s.register d).2)
    (h : Grows strict r s) (hr : r.WellFormed strict) (hP : P r) : P s := by
  induction h with
  | refl => exact hP
  | register before hd ih => exact hregister (before.wellFormed hr) hd ih

/-- What holds of the fresh registries and is kept by registering holds of each registry that steps on
live handles lead to. -/
theorem Reaches.invariant {P : Registry → Prop} (hfresh : ∀ n, P (.fresh n))
    (hregister : ∀ {s d}, s.WellFormed False → s.Registrable False d → P s → P (s.register d).2)
    (hr : Reaches RegistryStep.Live .new r) : P r := by
  induction hr with
  | refl => exact hfresh 0
  | @step s before o ho ih =>
    have hwell := before.wellFormed_of_live
    by_cases hclear : o = .clear
    · subst hclear
      exact hfresh _
    · exact (RegistryStep.grows hwell ho False.elim hclear).invariant hregister hwell ih

/-- A descriptor that is determined by its key has nothing under it when it may be registered. -/
theorem Registrable.under_eq_nil (hd : r.Registrable strict d) (hr : r.WellFormed strict)
    (hs : d.isSought = false) : r.under d.key = [] := by
  refine List.eq_nil_iff_forall_not_mem.2 fun x hx => ?_
  obtain ⟨e, he, hk⟩ := hr.filed hx
  exact hd.unlike he (congrArg Descriptor.essence (Descriptor.eq_of_key_eq hs hk))

/-- The tables hold what the descriptors dictate. -/
theorem Reaches.filings_perm (hr : Reaches RegistryStep.Live .new r) :
    r.filings.Perm r.dictated := by
  refine hr.invariant (P := fun r => r.filings.Perm r.dictated) (fun n => ?_) fun {s d} hs hd ih => ?_
  · rw [filings, fresh, PathTrie.pairs_empty]
    exact .refl [(RegistryKey.className objectName, TypeHandle.object)]
  have hseeded : Primitive.all.length ≤ s.slots.length :=
    Nat.le_trans (by decide) hs.seeded.length_le
  rw [dictated_register hseeded]
  have hfiled : (s.register d).2.filings.Perm ((d.key, (s.register d).1) :: s.filings) :=
    filings_file (r := { s with slots := s.slots ++ [d] }) _ hd.unfiled
  exact (hfiled.trans (ih.cons _)).trans (List.perm_append_singleton _ _).symm

/-- Under a descriptor that is determined by its key is no more than one handle. -/
theorem Reaches.isSingle (hr : Reaches RegistryStep.Live .new r) : r.others.IsSingle := by
  refine hr.invariant (P := fun r => r.others.IsSingle) (fun n => by nofun) fun {s d} hs hd ih => ?_
  cases hk : d.key with
  | itself e =>
    have hsought : d.isSought = false := by cases d <;> first | rfl | cases hk
    have hnone := hd.under_eq_nil hs hsought
    rw [hk] at hnone
    rw [register, hk]
    exact ih.push hnone _
  | _ => rw [register, hk]; exact ih

/-- **Every type is registered once.** In a registry that steps on live handles lead to, the first
places hold the primitives and `java.lang.Object`; behind the primitives each type is in the tables
once, under the key of its descriptor, where it is looked up; and nothing else is in the tables.  So
the sizes of the tables add up to the number of types.  Clearing leaves the first places, and what a
new registry is but for the generation. -/
theorem filings_of_reaches (hr : Reaches RegistryStep.Live .new r) :
    r.slots.take TypeHandle.firstDynamic.index = seedSlots ∧
      (∀ h d, r.get? h = some d → h.isPrimitive = false →
        ∀ k, r.filings.count (k, h) = if k = d.key then 1 else 0) ∧
      (∀ k h, (k, h) ∈ r.filings → ∃ d, r.get? h = some d ∧ h.isPrimitive = false ∧ d.key = k) ∧
      (∀ k h, h ∈ r.under k ↔ (k, h) ∈ r.filings) ∧
      r.stats.descriptors = Primitive.all.length + r.stats.classVariants +
        r.parameterized.pairs.length + r.stats.vars + r.stats.methods + r.others.keyCount ∧
      r.clear = { Registry.new with generation := r.generation + 1 } ∧
      r.clear.slots = r.slots.take TypeHandle.firstDynamic.index := by
  have hwell : r.WellFormed False := hr.wellFormed (fun h => ⟨h, False.elim⟩) (.fresh 0)
  have hperm := hr.filings_perm
  have hdynamic (h : TypeHandle) : h.isPrimitive = false ↔ Primitive.all.length ≤ h.index := by
    rw [TypeHandle.isPrimitive, decide_eq_false_iff_not, Nat.not_lt]
    rfl
  have hmem {k : RegistryKey} {h : TypeHandle} : (k, h) ∈ r.filings ↔
      ∃ d, r.get? h = some d ∧ d.key = k ∧ Primitive.all.length ≤ h.index :=
    hperm.mem_iff.trans mem_dictated
  have hseeded : r.slots.take TypeHandle.firstDynamic.index = seedSlots := by
    obtain ⟨more, hmore⟩ := hwell.seeded
    rw [← hmore]
    exact List.take_left' rfl
  have hsize : Primitive.all.length ≤ r.size := Nat.le_trans (by decide) hwell.seeded.length_le
  refine ⟨hseeded, fun h d hd hh k => ?_, fun k h hfiled => ?_, fun k h => ?_, ?_, rfl, hseeded.symm⟩
  · have hdictated : (k, h) ∈ r.dictated ↔ k = d.key := by
      rw [mem_dictated]
      constructor
      · rintro ⟨e, he, rfl, -⟩
        rw [Option.some.inj (hd.symm.trans he)]
      · rintro rfl
        exact ⟨d, hd, rfl, (hdynamic h).1 hh⟩
    rw [hperm.count_eq, r.nodup_dictated.count]
    simp only [hdictated]
  · obtain ⟨d, hd, hk, hh⟩ := hmem.1 hfiled
    exact ⟨d, hd, (hdynamic h).2 hh, hk⟩
  · refine ⟨mem_filings_of_mem_under, fun hfiled => ?_⟩
    obtain ⟨d, hd, rfl, hh⟩ := hmem.1 hfiled
    refine hwell.listed hd (Bool.eq_false_iff.2 fun hprimitive => ?_)
    have hfirst := hwell.isPrimitive_of_get? hd hprimitive
    rw [(hdynamic h).2 hh] at hfirst
    cases hfirst
  · have hlength := hperm.length_eq
    rw [length_filings, length_dictated, hr.isSingle.handleCount_eq] at hlength
    simp only [stats]
    omega

/-- A class, an array of it, a generic type with it as argument and a variable of that type. -/
theorem filings_of_reaches_four :
    let build (q : TypeRequest) := RegistryStep.build q
    let r := (build (.variableType ⟨['x'], .object, some ⟨16⟩, [], .none⟩)).run <|
      (build (.parameterized ⟨14⟩ [⟨15⟩])).run <| (build (.array (some ⟨14⟩))).run <|
        (build (.classOfKind ['A'] .regular)).run .new
    (∀ k, r.filings.count (k, ⟨16⟩) = if k = .path [⟨14⟩, ⟨15⟩] then 1 else 0) ∧
      (RegistryKey.typedName ['x'] (some ⟨16⟩), (⟨17⟩ : TypeHandle)) ∈ r.filings ∧
      r.stats.descriptors = Primitive.all.length + 2 + r.parameterized.pairs.length + 1 + 0 + 1 := by
  intro build r
  have hr : Reaches RegistryStep.Live .new r :=
    .step (.step (.step (.step .refl (build (.classOfKind ['A'] .regular)) (by decide))
      (build (.array (some ⟨14⟩))) (by decide)) (build (.parameterized ⟨14⟩ [⟨15⟩])) (by decide))
      (build (.variableType ⟨['x'], .object, some ⟨16⟩, [], .none⟩)) (by decide)
  obtain ⟨-, honce, -, hunder, hstats, -⟩ := filings_of_reaches hr
  exact ⟨honce ⟨16⟩ (.parameterized ⟨14⟩ [⟨15⟩]) (by decide) rfl, (hunder _ _).1 (by decide), hstats⟩

end Registry

end JavaSource
