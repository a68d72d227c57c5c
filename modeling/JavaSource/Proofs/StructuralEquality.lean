import JavaSource.Proofs.Requests

/-!
# Structural equality is an equivalence

Agreement of descriptors turns around with the relation on handles (`Descriptor.agrees_swap`), and
agreements in a row make one (`Descriptor.agrees_trans`); so structural equality is symmetric and
transitive by induction on its budget, and a handle that names no descriptor is equal to itself only.

In a registry that steps on live handles lead to, descriptors name earlier places only, so structural
equality satisfies its own equation without a budget (`Registry.deepEqual_eq_of_reaches`), and it
answers the same after further such steps (`Registry.deepEqual_equivalence_of_reaches`).
-/

namespace JavaSource

/-! ### Agreement the other way round -/

section Swap

variable (same : TypeHandle → TypeHandle → Bool)

theorem handlesAgree_swap (as bs : List TypeHandle) :
    handlesAgree (fun x y => same y x) as bs = handlesAgree same bs as := by
  induction as generalizing bs with
  | nil => cases bs <;> rfl
  | cons a as ih =>
    cases bs with
    | nil => rfl
    | cons b bs => rw [handlesAgree, handlesAgree, ih]

theorem optionsAgree_swap (a b : Option TypeHandle) :
    optionsAgree (fun x y => same y x) a b = optionsAgree same b a := by
  cases a <;> cases b <;> rfl

theorem signaturesAgree_swap (a b : Option Signature) :
    signaturesAgree (fun x y => same y x) a b = signaturesAgree same b a := by
  cases a with
  | none => cases b <;> rfl
  | some a =>
    cases b with
    | none => rfl
    | some b => rw [signaturesAgree, signaturesAgree, optionsAgree_swap, handlesAgree_swap]

theorem ClassType.agrees_swap (a b : ClassType) :
    a.agrees (fun x y => same y x) b = b.agrees same a := by
  simp only [ClassType.agrees, handlesAgree_swap, optionsAgree_swap, BEq.comm]

theorem VariableType.agrees_swap (a b : VariableType) :
    a.agrees (fun x y => same y x) b = b.agrees same a := by
  simp only [VariableType.agrees, handlesAgree_swap, optionsAgree_swap, BEq.comm]

theorem MethodType.agrees_swap (a b : MethodType) :
    a.agrees (fun x y => same y x) b = b.agrees same a := by
  simp only [MethodType.agrees, handlesAgree_swap, signaturesAgree_swap, BEq.comm]

theorem Descriptor.agrees_swap (d e : Descriptor) :
    d.agrees (fun x y => same y x) e = e.agrees same d := by
  cases d with
  | array element => cases element <;> cases e <;> rename_i o <;> first | rfl | (cases o <;> rfl)
  | _ =>
    cases e <;> first
      | rfl
      | simp only [agrees, ClassType.agrees_swap, VariableType.agrees_swap, MethodType.agrees_swap,
          handlesAgree_swap, optionsAgree_swap, BEq.comm]

end Swap

/-! ### Agreements in a row -/

section Trans

variable {same : TypeHandle → TypeHandle → Bool}

theorem handlesAgree_trans (ht : ∀ x y z, same x y → same y z → same x z)
    {as bs cs : List TypeHandle} (h : handlesAgree same as bs) (h' : handlesAgree same bs cs) :
    handlesAgree same as cs := by
  induction as generalizing bs cs with
  | nil => cases bs <;> cases cs <;> simp_all [handlesAgree]
  | cons a as ih =>
    cases bs with
    | nil => cases h
    | cons b bs =>
      cases cs with
      | nil => cases h'
      | cons c cs =>
        simp only [handlesAgree, Bool.and_eq_true] at h h' ⊢
        exact ⟨ht a b c h.1 h'.1, ih h.2 h'.2⟩

theorem optionsAgree_trans (ht : ∀ x y z, same x y → same y z → same x z)
    {a b c : Option TypeHandle} (h : optionsAgree same a b) (h' : optionsAgree same b c) :
    optionsAgree same a c := by
  match a, b, c, h, h' with
  | none, none, none, _, _ => rfl
  | some x, some y, some z, h, h' => exact ht x y z h h'

theorem signaturesAgree_trans (ht : ∀ x y z, same x y → same y z → same x z)
    {a b c : Option Signature} (h : signaturesAgree same a b) (h' : signaturesAgree same b c) :
    signaturesAgree same a c := by
  match a, b, c, h, h' with
  | none, none, none, _, _ => rfl
  | some x, some y, some z, h, h' =>
    simp only [signaturesAgree, Bool.and_eq_true] at h h' ⊢
    exact ⟨optionsAgree_trans ht h.1 h'.1, handlesAgree_trans ht h.2 h'.2⟩

/-- Agreements of descriptors in a row make one when those of handles do. -/
theorem Descriptor.agrees_trans (ht : ∀ x y z, same x y → same y z → same x z)
    {c d e : Descriptor} (h : c.agrees same d) (h' : d.agrees same e) : c.agrees same e := by
  rw [agrees_iff] at h h' ⊢
  cases h with
  | primitive p => exact h'
  | shallow name => exact h'
  | cyclic name => exact h'
  | array h =>
    cases h' with
    | array h' => exact .array (ht _ _ _ h h')
  | classType h =>
    cases h' with
    | classType h' =>
      refine .classType ?_
      simp only [ClassType.agrees, Bool.and_eq_true, beq_iff_eq] at h h' ⊢
      obtain ⟨⟨⟨⟨⟨⟨hkind, hflags⟩, hname⟩, hm⟩, hi⟩, hs⟩, ha⟩ := h
      obtain ⟨⟨⟨⟨⟨⟨hkind', hflags'⟩, hname'⟩, hm'⟩, hi'⟩, hs'⟩, ha'⟩ := h'
      exact ⟨⟨⟨⟨⟨⟨hkind.trans hkind', hflags.trans hflags'⟩, hname.trans hname'⟩,
        handlesAgree_trans ht hm hm'⟩, handlesAgree_trans ht hi hi'⟩,
        optionsAgree_trans ht hs hs'⟩, handlesAgree_trans ht ha ha'⟩
  | parameterized h hs =>
    cases h' with
    | parameterized h' hs' => exact .parameterized (ht _ _ _ h h') (handlesAgree_trans ht hs hs')
  | typeVariable name h =>
    cases h' with
    | typeVariable _ h' => exact .typeVariable name (optionsAgree_trans ht h h')
  | variableType h =>
    cases h' with
    | variableType h' =>
      refine .variableType ?_
      simp only [VariableType.agrees, Bool.and_eq_true, beq_iff_eq] at h h' ⊢
      obtain ⟨⟨⟨⟨hname, hflags⟩, ho⟩, hty⟩, ha⟩ := h
      obtain ⟨⟨⟨⟨hname', hflags'⟩, ho'⟩, hty'⟩, ha'⟩ := h'
      exact ⟨⟨⟨⟨hname.trans hname', hflags.trans hflags'⟩, ht _ _ _ ho ho'⟩,
        optionsAgree_trans ht hty hty'⟩, handlesAgree_trans ht ha ha'⟩
  | methodType h =>
    cases h' with
    | methodType h' =>
      refine .methodType ?_
      simp only [MethodType.agrees, Bool.and_eq_true, beq_iff_eq] at h h' ⊢
      obtain ⟨⟨⟨⟨⟨⟨hnames, hflags⟩, hd⟩, hg⟩, hr⟩, hth⟩, ha⟩ := h
      obtain ⟨⟨⟨⟨⟨⟨hnames', hflags'⟩, hd'⟩, hg'⟩, hr'⟩, hth'⟩, ha'⟩ := h'
      exact ⟨⟨⟨⟨⟨⟨hnames.trans hnames', hflags.trans hflags'⟩, ht _ _ _ hd hd'⟩,
        signaturesAgree_trans ht hg hg'⟩, signaturesAgree_trans ht hr hr'⟩,
        handlesAgree_trans ht hth hth'⟩, handlesAgree_trans ht ha ha'⟩
  | multiCatch h =>
    cases h' with
    | multiCatch h' => exact .multiCatch (handlesAgree_trans ht h h')

end Trans

/-! ### Structural equality within a budget -/

namespace Registry

variable {r s : Registry} {a b c : TypeHandle} {n : Nat}

theorem deepEqualWithin_comm (r : Registry) (n : Nat) (a b : TypeHandle) :
    r.deepEqualWithin n a b = r.deepEqualWithin n b a := by
  induction n generalizing a b with
  | zero => exact BEq.comm
  | succ n ih =>
    have hswap : (fun x y => r.deepEqualWithin n y x) = r.deepEqualWithin n :=
      funext₂ fun x y => ih y x
    rw [deepEqualWithin, deepEqualWithin, BEq.comm (a := a)]
    cases r.get? a with
    | none => cases r.get? b <;> rfl
    | some d =>
      cases r.get? b with
      | none => rfl
      | some e => simp only [← Descriptor.agrees_swap (r.deepEqualWithin n) d e, hswap]

theorem deepEqualWithin_trans (h : r.deepEqualWithin n a b) (h' : r.deepEqualWithin n b c) :
    r.deepEqualWithin n a c := by
  induction n generalizing a b c with
  | zero => exact beq_iff_eq.2 ((eq_of_beq h).trans (eq_of_beq h'))
  | succ n ih =>
    by_cases hab : a = b
    · exact hab ▸ h'
    by_cases hbc : b = c
    · exact hbc ▸ h
    simp only [deepEqualWithin, Bool.or_eq_true, beq_iff_eq, hab, hbc, false_or] at h h' ⊢
    refine .inr ?_
    cases hd : r.get? a with
    | none => simp [hd] at h
    | some d =>
      cases he : r.get? b with
      | none => simp [hd, he] at h
      | some e =>
        cases hf : r.get? c with
        | none => simp [he, hf] at h'
        | some f =>
          simp only [hd, he] at h
          simp only [he, hf] at h'
          have ht : ∀ x y z, r.deepEqualWithin n x y → r.deepEqualWithin n y z →
              r.deepEqualWithin n x z := fun _ _ _ => ih
          exact Descriptor.agrees_trans ht h h'

/-- A handle that names no descriptor is equal to itself only. -/
theorem eq_of_deepEqual_of_not_live (ha : ¬r.Live a) (h : r.deepEqual a b) : a = b := by
  have hnone : r.get? a = none := List.getElem?_eq_none (Nat.le_of_not_lt ha)
  rw [deepEqual] at h
  cases hsize : r.size with
  | zero => rw [hsize] at h; exact eq_of_beq h
  | succ n =>
    rw [hsize, deepEqualWithin, hnone, Bool.or_false] at h
    exact eq_of_beq h

/-! ### Registries in use -/

/-- The budget of structural equality is not used up: a handle is equal to itself, and live handles
are equal when their descriptors agree. -/
theorem Descends.deepEqual_eq (hr : r.Descends) (a b : TypeHandle) :
    r.deepEqual a b = (a == b ||
      match r.get? a, r.get? b with
      | some d, some e => d.agrees r.deepEqual e
      | _, _ => false) := by
  by_cases ha : r.Live a
  swap
  · have hnone : r.get? a = none := List.getElem?_eq_none (Nat.le_of_not_lt ha)
    rw [hnone, Bool.or_false, Bool.eq_iff_iff, beq_iff_eq]
    exact ⟨eq_of_deepEqual_of_not_live ha, fun h => h ▸ r.deepEqual_self a⟩
  obtain ⟨n, hn⟩ : ∃ n, r.size = n + 1 := ⟨r.size - 1, by have : a.index < r.size := ha; omega⟩
  rw [deepEqual, hn, deepEqualWithin]
  cases hd : r.get? a with
  | none => rfl
  | some d =>
    cases he : r.get? b with
    | none => rfl
    | some e =>
      -- What the descriptors name is in earlier places, for which the rest of the budget is enough.
      have hagrees : d.agrees (r.deepEqualWithin n) e = d.agrees r.deepEqual e := by
        refine Descriptor.agrees_congr fun x hx y hy => ?_
        have hx' := Descriptor.mem_handles_of_compared hx
        have hy' := Descriptor.mem_handles_of_compared hy
        have hlt := hr hd x hx'
        have hlive : a.index < r.size := ha
        exact deepEqualWithin_congr hr (List.prefix_refl _) (hr.live hd hx') (hr.live he hy')
          (by omega) (by omega)
      simp only [hagrees]

/-- **The budget is enough.** In a registry that steps on live handles lead to, handles are
structurally equal when they are one or when they name descriptors that agree in handles that are
structurally equal. -/
theorem deepEqual_eq_of_reaches (hr : Reaches RegistryStep.Live .new r) (a b : TypeHandle) :
    r.deepEqual a b = (a == b ||
      match r.get? a, r.get? b with
      | some d, some e => d.agrees r.deepEqual e
      | _, _ => false) :=
  have hwell : r.WellFormed False := hr.wellFormed (fun h => ⟨h, False.elim⟩) (.fresh 0)
  hwell.descends.deepEqual_eq a b

/-- **Structural equality is a stable equivalence.** In a registry that steps on live handles lead
to, structural equality is an equivalence of handles, those that name nothing included, and for live
handles it answers the same after further such steps, unless the registry is cleared. -/
theorem deepEqual_equivalence_of_reaches (hr : Reaches RegistryStep.Live .new r) :
    Equivalence (fun a b => r.deepEqual a b = true) ∧
      ∀ a b, r.Live a → r.Live b → ∀ s, Reaches (fun r o => o.Live r ∧ o ≠ .clear) r s →
        s.deepEqual a b = r.deepEqual a b := by
  have hwell : r.WellFormed False := hr.wellFormed (fun h => ⟨h, False.elim⟩) (.fresh 0)
  refine ⟨⟨r.deepEqual_self, fun {a b} h => ?_, deepEqualWithin_trans⟩, fun a b ha hb s hs => ?_⟩
  · rwa [deepEqual, deepEqualWithin_comm]
  · have hgrows : Grows False r s := hs.grows (fun h => ⟨h.1, False.elim, h.2⟩) hwell
    exact (deepEqual_congr hwell.descends hgrows.slots ha hb).symm

/-- Two methods that differ in their names only are equal both ways, also when a third is there;
handles that name nothing are not. -/
theorem deepEqual_equivalence_of_reaches_methods :
    let method (name : Text) := RegistryStep.build (.methodType
      ⟨.publicOnly, .object, name, none, none, [], [], []⟩)
    let r := (method ['g']).run ((method ['f']).run .new)
    let s := (method ['h']).run r
    r.size = 16 ∧ r.deepEqual ⟨14⟩ ⟨15⟩ ∧ r.deepEqual ⟨15⟩ ⟨14⟩ ∧ ¬r.deepEqual ⟨16⟩ ⟨17⟩ ∧
      s.size = 17 ∧ s.deepEqual ⟨14⟩ ⟨15⟩ = r.deepEqual ⟨14⟩ ⟨15⟩ := by
  intro method r s
  have hr : Reaches RegistryStep.Live .new r :=
    .step (.step .refl (method ['f']) (by decide)) (method ['g']) (by decide)
  have hs : Reaches (fun r o => o.Live r ∧ o ≠ .clear) r s :=
    .step .refl (method ['h']) ⟨by decide, by nofun⟩
  obtain ⟨hequivalence, hstable⟩ := deepEqual_equivalence_of_reaches hr
  have hequal : r.deepEqual ⟨14⟩ ⟨15⟩ := by decide
  exact ⟨by decide, hequal, hequivalence.symm hequal, by decide, by decide,
    hstable ⟨14⟩ ⟨15⟩ (by decide) (by decide) s hs⟩

end Registry

end JavaSource
