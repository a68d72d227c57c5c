import JavaSource.Types.Build

/-!
# What structural equality compares

`Descriptor.compared` lists the handles that structural equality looks behind; the methods and the
owner of a class are not among them.  Agreement of two descriptors depends on these handles only
(`Descriptor.agrees_congr`), and where handles agree only with themselves it is equality of what is
compared (`Descriptor.essence_eq_of_agrees`).

When every descriptor names earlier places only, structural equality does not depend on its budget,
nor on what is put behind the two handles later (`Registry.deepEqual_congr`).
-/

namespace JavaSource

/-! ### The handles in a descriptor -/

/-- The handles in a signature. -/
def Signature.handles (s : Signature) : List TypeHandle := s.returns.toList ++ s.parameters

namespace Descriptor

/-- The handles that structural equality looks behind. -/
def compared : Descriptor → List TypeHandle
  | primitive _ | shallow _ | cyclic _ => []
  | array element => element.toList
  | classType c => c.members ++ c.interfaces ++ c.supertype.toList ++ c.annotations
  | parameterized raw arguments => raw :: arguments
  | typeVariable _ bound => bound.toList
  | variableType v => v.owner :: (v.type.toList ++ v.annotations)
  | methodType m =>
    m.declaring :: (m.generic.toList.flatMap Signature.handles ++
      m.resolved.toList.flatMap Signature.handles ++ m.thrown ++ m.annotations)
  | multiCatch alternatives => alternatives

/-- The handles that stand for anything but a method of a class. -/
def components : Descriptor → List TypeHandle
  | classType c => (classType c).compared ++ c.owner.toList
  | d => d.compared

/-- All handles. -/
def handles : Descriptor → List TypeHandle
  | classType c => (classType c).components ++ c.methods
  | d => d.compared

/-- The name of a method. -/
def methodName? : Descriptor → Option Text
  | methodType m => some m.name
  | _ => none

/-- The descriptor without what structural equality leaves out of a class. -/
def essence : Descriptor → Descriptor
  | classType c => classType { c with methods := [], owner := none }
  | d => d

theorem mem_components_of_compared {d : Descriptor} {x : TypeHandle} (h : x ∈ d.compared) :
    x ∈ d.components := by
  cases d <;> first | exact h | exact List.mem_append_left _ h

theorem mem_handles_of_components {d : Descriptor} {x : TypeHandle} (h : x ∈ d.components) :
    x ∈ d.handles := by
  cases d <;> first | exact h | exact List.mem_append_left _ h

theorem mem_handles_of_compared {d : Descriptor} {x : TypeHandle} (h : x ∈ d.compared) :
    x ∈ d.handles :=
  mem_handles_of_components (mem_components_of_compared h)

end Descriptor

/-! ### Agreement -/

section Agreement

variable {same same' : TypeHandle → TypeHandle → Bool}

theorem handlesAgree_imp {as bs : List TypeHandle}
    (h : ∀ a ∈ as, ∀ b ∈ bs, same a b → same' a b) (hs : handlesAgree same as bs) :
    handlesAgree same' as bs := by
  induction as generalizing bs with
  | nil => cases bs <;> simp_all [handlesAgree]
  | cons a as ih =>
    cases bs with
    | nil => simp [handlesAgree] at hs
    | cons b bs =>
      simp only [handlesAgree, Bool.and_eq_true] at hs ⊢
      exact ⟨h a (.head _) b (.head _) hs.1,
        ih (fun a ha b hb => h a (.tail _ ha) b (.tail _ hb)) hs.2⟩

theorem optionsAgree_imp {a b : Option TypeHandle}
    (h : ∀ x ∈ a.toList, ∀ y ∈ b.toList, same x y → same' x y) (hs : optionsAgree same a b) :
    optionsAgree same' a b := by
  cases a <;> cases b <;> simp_all [optionsAgree]

theorem signaturesAgree_imp {a b : Option Signature}
    (h : ∀ x ∈ a.toList.flatMap Signature.handles, ∀ y ∈ b.toList.flatMap Signature.handles,
      same x y → same' x y)
    (hs : signaturesAgree same a b) : signaturesAgree same' a b := by
  cases a with
  | none => cases b <;> simp_all [signaturesAgree]
  | some a =>
    cases b with
    | none => simp [signaturesAgree] at hs
    | some b =>
      simp only [Option.toList_some, List.flatMap_singleton, Signature.handles,
        List.mem_append] at h
      simp only [signaturesAgree, Bool.and_eq_true] at hs ⊢
      exact ⟨optionsAgree_imp (fun x hx y hy => h x (.inl hx) y (.inl hy)) hs.1,
        handlesAgree_imp (fun x hx y hy => h x (.inr hx) y (.inr hy)) hs.2⟩

namespace Descriptor

/-- How descriptors agree: they are of one kind, and their fields do. -/
inductive Agree (same : TypeHandle → TypeHandle → Bool) : Descriptor → Descriptor → Prop where
  | primitive (p : Primitive) : Agree same (primitive p) (primitive p)
  | array {a b : TypeHandle} (h : same a b) : Agree same (array (some a)) (array (some b))
  | classType {a b : ClassType} (h : a.agrees same b) : Agree same (classType a) (classType b)
  | shallow (name : Text) : Agree same (shallow name) (shallow name)
  | cyclic (name : Text) : Agree same (cyclic name) (cyclic name)
  | parameterized {a b : TypeHandle} {as bs : List TypeHandle} (h : same a b)
      (hs : handlesAgree same as bs) : Agree same (parameterized a as) (parameterized b bs)
  | typeVariable (name : Text) {a b : Option TypeHandle} (h : optionsAgree same a b) :
      Agree same (typeVariable name a) (typeVariable name b)
  | variableType {a b : VariableType} (h : a.agrees same b) :
      Agree same (variableType a) (variableType b)
  | methodType {a b : MethodType} (h : a.agrees same b) : Agree same (methodType a) (methodType b)
  | multiCatch {as bs : List TypeHandle} (h : handlesAgree same as bs) :
      Agree same (multiCatch as) (multiCatch bs)

theorem agrees_iff {d e : Descriptor} : d.agrees same e ↔ Agree same d e := by
  constructor
  · intro h
    unfold agrees at h
    split at h
    case h_1 => exact eq_of_beq h ▸ .primitive _
    case h_2 => exact .array h
    case h_3 => exact .classType h
    case h_4 => exact eq_of_beq h ▸ .shallow _
    case h_5 => exact eq_of_beq h ▸ .cyclic _
    case h_6 =>
      obtain ⟨h, hs⟩ := Bool.and_eq_true_iff.1 h
      exact .parameterized h hs
    case h_7 =>
      obtain ⟨h, hs⟩ := Bool.and_eq_true_iff.1 h
      exact eq_of_beq h ▸ .typeVariable _ hs
    case h_8 => exact .variableType h
    case h_9 => exact .methodType h
    case h_10 => exact .multiCatch h
    case h_11 => cases h
  · intro h
    cases h <;> simp_all [agrees]

/-- Agreement depends on the handles that are compared. -/
theorem Agree.imp {d e : Descriptor} (h : ∀ x ∈ d.compared, ∀ y ∈ e.compared, same x y → same' x y)
    (hs : Agree same d e) : Agree same' d e := by
  cases hs with
  | primitive p => exact .primitive p
  | shallow name => exact .shallow name
  | cyclic name => exact .cyclic name
  | array hs => exact .array (h _ (.head _) _ (.head _) hs)
  | classType hs =>
    simp only [compared, List.mem_append] at h
    simp only [ClassType.agrees, Bool.and_eq_true] at hs
    obtain ⟨⟨⟨⟨hfixed, hmembers⟩, hinterfaces⟩, hsupertype⟩, hannotations⟩ := hs
    refine .classType ?_
    simp only [ClassType.agrees, Bool.and_eq_true]
    exact ⟨⟨⟨⟨hfixed, handlesAgree_imp (by grind) hmembers⟩,
      handlesAgree_imp (by grind) hinterfaces⟩, optionsAgree_imp (by grind) hsupertype⟩,
      handlesAgree_imp (by grind) hannotations⟩
  | parameterized hs hss =>
    exact .parameterized (h _ (.head _) _ (.head _) hs)
      (handlesAgree_imp (fun x hx y hy => h x (.tail _ hx) y (.tail _ hy)) hss)
  | typeVariable name hs => exact .typeVariable name (optionsAgree_imp h hs)
  | variableType hs =>
    simp only [compared, List.mem_cons, List.mem_append] at h
    simp only [VariableType.agrees, Bool.and_eq_true] at hs
    obtain ⟨⟨⟨hfixed, howner⟩, htype⟩, hannotations⟩ := hs
    refine .variableType ?_
    simp only [VariableType.agrees, Bool.and_eq_true]
    exact ⟨⟨⟨hfixed, h _ (.inl rfl) _ (.inl rfl) howner⟩, optionsAgree_imp (by grind) htype⟩,
      handlesAgree_imp (by grind) hannotations⟩
  | methodType hs =>
    simp only [compared, List.mem_cons, List.mem_append] at h
    simp only [MethodType.agrees, Bool.and_eq_true] at hs
    obtain ⟨⟨⟨⟨⟨hfixed, hdeclaring⟩, hgeneric⟩, hresolved⟩, hthrown⟩, hannotations⟩ := hs
    refine .methodType ?_
    simp only [MethodType.agrees, Bool.and_eq_true]
    exact ⟨⟨⟨⟨⟨hfixed, h _ (.inl rfl) _ (.inl rfl) hdeclaring⟩,
      signaturesAgree_imp (by grind) hgeneric⟩, signaturesAgree_imp (by grind) hresolved⟩,
      handlesAgree_imp (by grind) hthrown⟩, handlesAgree_imp (by grind) hannotations⟩
  | multiCatch hs => exact .multiCatch (handlesAgree_imp h hs)

theorem agrees_imp {d e : Descriptor} (h : ∀ x ∈ d.compared, ∀ y ∈ e.compared, same x y → same' x y)
    (hs : d.agrees same e) : d.agrees same' e :=
  agrees_iff.2 ((agrees_iff.1 hs).imp h)

theorem agrees_congr {d e : Descriptor}
    (h : ∀ x ∈ d.compared, ∀ y ∈ e.compared, same x y = same' x y) :
    d.agrees same e = d.agrees same' e :=
  Bool.eq_iff_iff.2 ⟨agrees_imp fun x hx y hy => (h x hx y hy ▸ ·),
    agrees_imp fun x hx y hy => (h x hx y hy ▸ ·)⟩

/-- Only a method agrees with a method. -/
theorem isSome_methodName?_of_agrees {d e : Descriptor} (h : d.agrees same e) :
    d.methodName?.isSome = e.methodName?.isSome := by
  cases agrees_iff.1 h <;> rfl

end Descriptor

end Agreement

/-! ### Agreement of handles with themselves only -/

@[simp] theorem handlesAgree_beq {as bs : List TypeHandle} :
    handlesAgree (· == ·) as bs = true ↔ as = bs := by
  induction as generalizing bs with
  | nil => cases bs <;> simp [handlesAgree]
  | cons a as ih => cases bs <;> simp [handlesAgree, ih]

@[simp] theorem optionsAgree_beq {a b : Option TypeHandle} :
    optionsAgree (· == ·) a b = true ↔ a = b := by
  cases a <;> cases b <;> simp [optionsAgree]

@[simp] theorem signaturesAgree_beq {a b : Option Signature} :
    signaturesAgree (· == ·) a b = true ↔ a = b := by
  cases a with
  | none => cases b <;> simp [signaturesAgree]
  | some a =>
    cases b with
    | none => simp [signaturesAgree]
    | some b => cases a; cases b; simp [signaturesAgree]

namespace Descriptor

/-- Descriptors with the same compared fields are equal but for what is left out of a class, if they
are not methods of different names. -/
theorem essence_eq_of_agrees {d e : Descriptor} (hn : d.methodName? = e.methodName?)
    (h : d.agrees (· == ·) e) : d.essence = e.essence := by
  cases agrees_iff.1 h with
  | primitive | shallow | cyclic => rfl
  | array ha => rw [eq_of_beq ha]
  | @classType a b h =>
    cases a; cases b
    simp_all [ClassType.agrees, essence]
  | parameterized ha has => rw [eq_of_beq ha, handlesAgree_beq.1 has]
  | typeVariable name ha => rw [optionsAgree_beq.1 ha]
  | @variableType a b h =>
    cases a; cases b
    simp_all [VariableType.agrees, essence]
  | @methodType a b h =>
    cases a; cases b
    simp_all [MethodType.agrees, essence, methodName?]
  | multiCatch has => rw [handlesAgree_beq.1 has]

theorem agrees_essence {same : TypeHandle → TypeHandle → Bool} (d e : Descriptor) :
    d.essence.agrees same e.essence = d.agrees same e := by
  cases d with
  | array element => cases element <;> cases e <;> rfl
  | _ => cases e <;> rfl

/-- Where handles agree with themselves, so does every descriptor but an unresolved array. -/
theorem agrees_refl {same : TypeHandle → TypeHandle → Bool} (hr : ∀ x, same x x) {d : Descriptor}
    (hd : d ≠ array none) : d.agrees same d := by
  have hbeq : d.agrees (· == ·) d := by
    cases d with
    | array element => cases element <;> simp_all [agrees]
    | _ => simp [agrees, ClassType.agrees, VariableType.agrees, MethodType.agrees]
  exact agrees_imp (fun x _ y _ (hxy : (x == y) = true) => eq_of_beq hxy ▸ hr x) hbeq

theorem agrees_of_essence_eq {same : TypeHandle → TypeHandle → Bool} (hr : ∀ x, same x x)
    {d e : Descriptor} (he : e.essence ≠ array none) (h : d.essence = e.essence) :
    d.agrees same e := by
  rw [← agrees_essence, h]
  exact agrees_refl hr he

end Descriptor

/-! ### Structural equality in a registry -/

namespace Registry

variable {r s : Registry} {a b : TypeHandle}

/-- The handle names a descriptor. -/
def Live (r : Registry) (h : TypeHandle) : Prop := h.index < r.size

instance (r : Registry) (h : TypeHandle) : Decidable (r.Live h) :=
  inferInstanceAs (Decidable (h.index < r.size))

/-- Descriptors name descriptors in earlier places only. -/
def Descends (r : Registry) : Prop :=
  ∀ ⦃h d⦄, r.get? h = some d → ∀ x ∈ d.handles, x.index < h.index

theorem Live.exists_get? (h : r.Live a) : ∃ d, r.get? a = some d :=
  ⟨_, List.getElem?_eq_getElem h⟩

theorem live_of_get? {d : Descriptor} (h : r.get? a = some d) : r.Live a :=
  (List.getElem?_eq_some_iff.1 h).1

/-- A registry with a live handle is not empty. -/
theorem Live.exists_size (h : r.Live a) : ∃ n, r.size = n + 1 :=
  Nat.exists_eq_add_one_of_ne_zero (Nat.ne_zero_of_lt h)

/-- A descriptor stays when descriptors are put behind it. -/
theorem Live.get?_eq (hgrown : r.slots <+: s.slots) (h : r.Live a) : s.get? a = r.get? a := by
  obtain ⟨more, hmore⟩ := hgrown
  rw [get?, get?, ← hmore, List.getElem?_append_left h]

theorem Descends.live (hr : r.Descends) {d : Descriptor} (hd : r.get? a = some d) {x : TypeHandle}
    (hx : x ∈ d.handles) : r.Live x :=
  Nat.lt_trans (hr hd x hx) (live_of_get? hd)

@[simp] theorem deepEqualWithin_self (r : Registry) (n : Nat) (a : TypeHandle) :
    r.deepEqualWithin n a a := by
  cases n <;> simp [deepEqualWithin]

@[simp] theorem deepEqual_self (r : Registry) (a : TypeHandle) : r.deepEqual a a :=
  deepEqualWithin_self r r.size a

/-- A budget above the place of the first handle is as good as any other, and what is put behind
both handles does not count. -/
theorem deepEqualWithin_congr (hr : r.Descends) (hgrown : r.slots <+: s.slots) {n m : Nat}
    (ha : r.Live a) (hb : r.Live b) (hn : a.index < n) (hm : a.index < m) :
    r.deepEqualWithin n a b = s.deepEqualWithin m a b := by
  induction n generalizing m a b with
  | zero => omega
  | succ n ih =>
    obtain ⟨m, rfl⟩ : ∃ k, m = k + 1 := ⟨m - 1, by omega⟩
    obtain ⟨d, hd⟩ := ha.exists_get?
    obtain ⟨e, he⟩ := hb.exists_get?
    have hagrees : d.agrees (r.deepEqualWithin n) e = d.agrees (s.deepEqualWithin m) e := by
      refine Descriptor.agrees_congr fun x hx y hy => ?_
      have hx' := Descriptor.mem_handles_of_compared hx
      have hy' := Descriptor.mem_handles_of_compared hy
      have hlt := hr hd x hx'
      exact ih (hr.live hd hx') (hr.live he hy') (by omega) (by omega)
    simp only [deepEqualWithin, ha.get?_eq hgrown, hb.get?_eq hgrown, hd, he, hagrees]

/-- Structural equality does not change when descriptors are put behind. -/
theorem deepEqual_congr (hr : r.Descends) (hgrown : r.slots <+: s.slots) (ha : r.Live a)
    (hb : r.Live b) : r.deepEqual a b = s.deepEqual a b :=
  deepEqualWithin_congr hr hgrown ha hb ha (Nat.lt_of_lt_of_le ha hgrown.length_le)

end Registry

end JavaSource
