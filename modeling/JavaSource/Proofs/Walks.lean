import JavaSource.Pattern.Method
import JavaSource.Proofs.Requests
import JavaSource.Types.Display

/-!
# Walks over types

A descriptor names earlier places only, so a walk from type to type comes to an end
(`Registry.returns_of_reaches`).  A walk is a `Recursion`: one round of it, and where the round may
call the walk again.  `Recursion.Returns` is its evaluation without any budget: the walk returns when
each of these calls does.

The walk of a method pattern leaves the order, since it goes on at `java.lang.Object` where a type has
no supertype.  The class is in the last place that is there from the start, below every other type
with a name, and the walk does not go on from there.
-/

namespace JavaSource

/-! ### Recursive functions -/

/-- A recursive function. -/
structure Recursion (τ β : Type) where
  /-- The answer, given the answers of the recursive calls. -/
  step : (τ → β) → τ → β
  /-- Where the function may be called for an answer. -/
  calls : τ → List τ
  /-- An answer depends on these calls only. -/
  reads : ∀ {f g : τ → β} {t : τ}, (∀ x ∈ calls t, f x = g x) → step f t = step g t

namespace Recursion

variable {τ β : Type} {w : Recursion τ β} {t : τ} {a b : β}

/-- The function returns an answer: each call returns, and this is the answer from what they
return. -/
inductive Returns (w : Recursion τ β) : τ → β → Prop where
  | intro {t : τ} (f : τ → β) (calls : ∀ x ∈ w.calls t, Returns w x (f x)) :
      Returns w t (w.step f t)

/-- No more than one answer is returned. -/
theorem Returns.unique (ha : w.Returns t a) (hb : w.Returns t b) : a = b := by
  induction ha generalizing b with
  | intro f _ ih =>
    cases hb with
    | intro g hg => exact w.reads fun x hx => ih x hx (hg x hx)

/-- A function that gives up when a budget is used up returns what it returns without one, where the
budget is above a measure that every call makes smaller. -/
theorem returns_within {g : Nat → τ → β} {μ : τ → Nat}
    (hstep : ∀ n t, g (n + 1) t = w.step (g n) t) (hcalls : ∀ t, ∀ x ∈ w.calls t, μ x < μ t)
    {n : Nat} (hn : μ t < n) : w.Returns t (g n t) := by
  induction n generalizing t with
  | zero => omega
  | succ n ih =>
    rw [hstep]
    refine .intro _ fun x hx => ?_
    have hlt := hcalls t x hx
    exact ih (by omega)

end Recursion

namespace Registry

variable {r : Registry} {a b h : TypeHandle} {d : Descriptor}

/-! ### Handles that a walk comes to -/

theorem any_congr_left {α : Type} {xs : List α} {p q : α → Bool} (h : ∀ x ∈ xs, p x = q x) :
    xs.any p = xs.any q := by
  induction xs with
  | nil => rfl
  | cons x xs ih =>
    rw [List.any_cons, List.any_cons, h x (.head _), ih fun y hy => h y (.tail _ hy)]

/-- The handles of the descriptor at a handle. -/
def handlesAt (r : Registry) (h : TypeHandle) : List TypeHandle :=
  (r.get? h).toList.flatMap Descriptor.handles

theorem mem_handlesAt {x : TypeHandle} :
    x ∈ r.handlesAt h ↔ ∃ d, r.get? h = some d ∧ x ∈ d.handles := by
  simp [handlesAt]

theorem showDescriptor_congr {text text' : TypeHandle → Text}
    (h : ∀ x ∈ d.handles, text x = text' x) : showDescriptor text d = showDescriptor text' d := by
  have hmap (xs : List TypeHandle) (hxs : xs ⊆ d.handles) : xs.map text = xs.map text' :=
    List.map_congr_left fun x hx => h x (hxs hx)
  cases d with
  | primitive | classType | shallow | cyclic => rfl
  | array element =>
    cases element with
    | none => rfl
    | some x => exact congrArg (· ++ ['[', ']']) (h x (.head _))
  | parameterized raw arguments =>
    simp only [showDescriptor, h raw (.head _), hmap _ (List.subset_cons_self _ _)]
  | typeVariable name bound =>
    cases bound with
    | none => rfl
    | some x => exact congrArg (name ++ " extends ".toList ++ ·) (h x (.head _))
  | variableType v =>
    obtain ⟨name, owner, type, annotations, flags⟩ := v
    cases type with
    | none => rfl
    | some x => exact congrArg (· ++ [' '] ++ name) (h x (.tail _ (.head _)))
  | methodType m =>
    obtain ⟨flags, declaring, name, generic, resolved, names, thrown, annotations⟩ := m
    cases resolved with
    | none => simp only [showDescriptor, h declaring (.head _)]
    | some signature =>
      have hparameters := hmap signature.parameters fun x hx => by
        simp [Descriptor.handles, Descriptor.compared, Signature.handles, hx]
      simp only [showDescriptor, h declaring (.head _), hparameters]
  | multiCatch alternatives => simp only [showDescriptor, hmap alternatives (List.Subset.refl _)]

/-! ### The walks -/

/-- Structural equality. -/
def equalityWalk (r : Registry) : Recursion (TypeHandle × TypeHandle) Bool where
  step same p :=
    p.1 == p.2 ||
      match r.get? p.1, r.get? p.2 with
      | some d, some e => d.agrees (fun x y => same (x, y)) e
      | _, _ => false
  calls p := (r.handlesAt p.1).product (r.handlesAt p.2)
  reads {same same' p} h := by
    congr 1
    split
    · next d e hd he =>
      refine Descriptor.agrees_congr fun x hx y hy => h (x, y) (List.pair_mem_product.2 ⟨?_, ?_⟩)
      · exact mem_handlesAt.2 ⟨d, hd, Descriptor.mem_handles_of_compared hx⟩
      · exact mem_handlesAt.2 ⟨e, he, Descriptor.mem_handles_of_compared hy⟩
    · rfl

/-- The fully qualified name of a type. -/
def nameWalk (r : Registry) : Recursion TypeHandle (Option Text) where
  step name h :=
    match r.get? h with
    | some (.classType c) => some c.name
    | some (.shallow n) | some (.cyclic n) | some (.typeVariable n _) => some n
    | some (.parameterized raw _) => some ((name raw).getD [])
    | _ => none
  calls := r.handlesAt
  reads {name name' h} hcalls := by
    split <;> try rfl
    next raw arguments hd => rw [hcalls raw (mem_handlesAt.2 ⟨_, hd, .head _⟩)]

/-- The descriptor behind generic types and type variables. -/
def behindWalk (r : Registry) : Recursion TypeHandle (Option Descriptor) where
  step behind h :=
    match r.get? h with
    | some (.parameterized raw _) => behind raw
    | some (.typeVariable _ bound) => bound.bind behind
    | d => d
  calls := r.handlesAt
  reads {behind behind' h} hcalls := by
    split
    · next raw arguments hd => exact hcalls raw (mem_handlesAt.2 ⟨_, hd, .head _⟩)
    · next bound hd =>
      cases bound with
      | none => rfl
      | some x => exact hcalls x (mem_handlesAt.2 ⟨_, hd, .head _⟩)
    · rfl

/-- A type as text. -/
def displayWalk (r : Registry) : Recursion TypeHandle Text where
  step text h :=
    match r.get? h with
    | none => unresolved
    | some d => showDescriptor text d
  calls := r.handlesAt
  reads {text text' h} hcalls := by
    split
    · rfl
    · next d hd => exact showDescriptor_congr fun x hx => hcalls x (mem_handlesAt.2 ⟨d, hd, hx⟩)

/-- A type under another name, and the registry that has it. -/
def renameWalk (r : Registry) (name : Text) :
    Recursion TypeHandle (Option (TypeHandle × Registry)) where
  step renamed h :=
    match r.get? h with
    | some (.classType c) =>
      if c.name = name then some (h, r) else some (r.buildExactClass { c with name })
    | some (.shallow _) => some (r.buildShallow name)
    | some (.cyclic _) => some (r.buildCyclic name)
    | some (.typeVariable _ bound) => some (r.buildTypeVariable name bound)
    | some (.parameterized raw arguments) =>
      (renamed raw).map fun (x, r) => if x = raw then (h, r) else r.buildParameterized x arguments
    | _ => none
  calls := r.handlesAt
  reads {renamed renamed' h} hcalls := by
    split <;> try rfl
    next raw arguments hd => rw [hcalls raw (mem_handlesAt.2 ⟨_, hd, .head _⟩)]

/-- The members of the supertypes that are not private, nearest supertype first. -/
def inheritanceWalk (r : Registry) : Recursion TypeHandle (List TypeHandle) where
  step inherited h :=
    match r.behind h with
    | some (.classType c) =>
      match c.supertype with
      | some s => ((r.members s).filter fun m => !r.hasFlags m .privateOnly) ++ inherited s
      | none => []
    | _ => []
  calls h := (r.supertype? h).toList
  reads {inherited inherited' h} hcalls := by
    split
    · next c hc =>
      cases hs : c.supertype with
      | none => rfl
      | some s => exact congrArg _ (hcalls s (by simp [supertype?, hc, hs]))
    · rfl

/-- A value of the type can be assigned to the target. -/
def assignmentWalk (r : Registry) (target : TypeHandle) : Recursion (Option TypeHandle) Bool where
  step assignable source :=
    match source with
    | none => false
    | some h =>
      target == .object ||
        match r.name? target, r.name? h with
        | some wanted, some name =>
          name == wanted || assignable (r.supertype? h) ||
            (r.interfaces h).any fun x => assignable (some x)
        | _, _ => false
  calls source := source.toList.flatMap fun h => r.supertype? h :: (r.interfaces h).map some
  reads {assignable assignable' source} hcalls := by
    cases source with
    | none => rfl
    | some h =>
      have hsupertype := hcalls (r.supertype? h) (by simp)
      have hinterfaces : ((r.interfaces h).any fun x => assignable (some x)) =
          (r.interfaces h).any fun x => assignable' (some x) :=
        any_congr_left fun x hx => hcalls (some x) (by simp [hx])
      simp only [hsupertype, hinterfaces]

/-- A type or one above it fits a method pattern; above every type is `java.lang.Object`. -/
def matchWalk (r : Registry) (p : MethodPattern) : Recursion TypeHandle Bool where
  step fits h :=
    match r.name? h with
    | none => false
    | some name =>
      p.fitsType name || (name != objectName && fits ((r.supertype? h).getD .object)) ||
        (p.withInterfaces && (r.interfaces h).any fits)
  calls h :=
    match r.name? h with
    | none => []
    | some name =>
      if name = objectName then r.interfaces h
      else (r.supertype? h).getD .object :: r.interfaces h
  reads {fits fits' h} hcalls := by
    split
    · rfl
    · next name hname =>
      rw [hname] at hcalls
      dsimp only at hcalls
      by_cases hobject : name = objectName
      · rw [if_pos hobject] at hcalls
        simp only [hobject, bne_self_eq_false, Bool.false_and, any_congr_left hcalls]
      · rw [if_neg hobject, List.forall_mem_cons] at hcalls
        rw [hcalls.1, any_congr_left hcalls.2]

/-! ### The walks end -/

section Descends

variable (hr : r.Descends)

include hr

theorem Descends.of_mem_handlesAt {x : TypeHandle} (hx : x ∈ r.handlesAt h) :
    r.Live x ∧ x.index < h.index := by
  obtain ⟨d, hd, hx⟩ := mem_handlesAt.1 hx
  exact ⟨hr.live hd hx, hr hd x hx⟩

/-- What is behind a type is in its place or an earlier one. -/
theorem Descends.exists_of_behindWithin {n : Nat} (hd : r.behindWithin n h = some d) :
    ∃ x, r.get? x = some d ∧ x.index ≤ h.index := by
  induction n generalizing h with
  | zero => cases hd
  | succ n ih =>
    rw [behindWithin] at hd
    split at hd
    · next raw arguments hget =>
      obtain ⟨x, hx, hle⟩ := ih hd
      have hlt := hr hget raw (.head _)
      exact ⟨x, hx, by omega⟩
    · next bound hget =>
      obtain ⟨b, rfl, hb⟩ := Option.bind_eq_some_iff.1 hd
      obtain ⟨x, hx, hle⟩ := ih hb
      have hlt := hr hget b (.head _)
      exact ⟨x, hx, by omega⟩
    · exact ⟨h, hd, Nat.le_refl _⟩

theorem Descends.of_behind {c : ClassType} (hc : r.behind h = some (.classType c)) {x : TypeHandle}
    (hx : x ∈ (Descriptor.classType c).handles) : r.Live x ∧ x.index < h.index := by
  obtain ⟨y, hy, hle⟩ := hr.exists_of_behindWithin hc
  have hlt := hr hy x hx
  exact ⟨hr.live hy hx, by omega⟩

theorem Descends.of_mem_interfaces {x : TypeHandle} (hx : x ∈ r.interfaces h) :
    r.Live x ∧ x.index < h.index := by
  rw [interfaces, askClass] at hx
  split at hx
  · next c hc => exact hr.of_behind hc (by simp [Descriptor.handles, Descriptor.components,
      Descriptor.compared, hx])
  · cases hx

end Descends

section Grounded

variable (hr : r.Grounded)

include hr

theorem Grounded.live_object : r.Live .object :=
  live_of_get? (get?_of_seeded hr.seeded (a := .object) (by decide))

/-- Below the first place that is filled by a request nothing but `java.lang.Object` has a name. -/
theorem Grounded.object_lt_of_name? {name : Text} (hname : r.name? h = some name)
    (hobject : name ≠ objectName) : TypeHandle.object.index < h.index := by
  by_contra hle
  have hlt : h.index < seedSlots.length := Nat.lt_succ_of_le (Nat.not_lt.1 hle)
  have hseed : ∀ i (hi : i < seedSlots.length),
      seedSlots[i].isPrimitive ∨ seedSlots[i] = .classType objectClass := by decide
  have hget := get?_of_seeded hr.seeded hlt
  obtain ⟨n, hn⟩ := (live_of_get? hget).exists_size
  rw [name?, hn, nameWithin, hget] at hname
  rcases hseed h.index hlt with hprimitive | hclass
  · cases hd : seedSlots[h.index] <;> rw [hd] at hname hprimitive <;> cases hname <;>
      cases hprimitive
  · rw [hclass] at hname
    exact hobject (Option.some.inj hname).symm

/-- The supertype of a type is in an earlier place, also where it is `java.lang.Object` because the
type is known by name only. -/
theorem Grounded.of_supertype? {x : TypeHandle} (hx : r.supertype? h = some x) :
    r.Live x ∧ x.index < h.index := by
  rw [supertype?] at hx
  have hnamed {d : Descriptor} (hd : r.behind h = some d) (hseed : d ∉ seedSlots) :
      TypeHandle.object.index < h.index := by
    obtain ⟨y, hy, hle⟩ := hr.descends.exists_of_behindWithin hd
    refine Nat.lt_of_lt_of_le (Nat.lt_of_not_le fun hlt => hseed ?_) hle
    have hlt : y.index < seedSlots.length := Nat.lt_succ_of_le hlt
    rw [get?_of_seeded hr.seeded hlt] at hy
    exact Option.some.inj hy ▸ List.getElem_mem hlt
  split at hx
  · next c hc => exact hr.descends.of_behind hc (by simp [Descriptor.handles,
      Descriptor.components, Descriptor.compared, hx])
  · next name hd =>
    obtain rfl := Option.some.inj hx
    exact ⟨hr.live_object, hnamed hd (by simp [seedSlots, Primitive.all])⟩
  · next name hd =>
    obtain rfl := Option.some.inj hx
    exact ⟨hr.live_object, hnamed hd (by simp [seedSlots, Primitive.all])⟩
  · cases hx

end Grounded

section WellFormed

variable {strict : Prop} (hr : r.WellFormed strict)

include hr

theorem WellFormed.returns_deepEqual (ha : r.Live a) :
    r.equalityWalk.Returns (a, b) (r.deepEqual a b) :=
  Recursion.returns_within (w := r.equalityWalk) (t := (a, b)) (n := r.size) (μ := (·.1.index))
    (g := fun n p => r.deepEqualWithin n p.1 p.2) (fun _ _ => rfl)
    (fun _ _ hx => (hr.descends.of_mem_handlesAt (List.pair_mem_product.1 hx).1).2) ha

/-- A walk that asks at the handles of a descriptor returns. -/
theorem WellFormed.returns_handlesAt {β : Type} {w : Recursion TypeHandle β}
    {g : Nat → TypeHandle → β} (hcalls : w.calls = r.handlesAt)
    (hstep : ∀ n t, g (n + 1) t = w.step (g n) t) (hh : r.Live h) : w.Returns h (g r.size h) := by
  refine Recursion.returns_within (μ := TypeHandle.index) hstep (fun y x hx => ?_) hh
  rw [hcalls] at hx
  exact (hr.descends.of_mem_handlesAt hx).2

theorem WellFormed.returns_inheritedMembers (hh : r.Live h) :
    r.inheritanceWalk.Returns h (r.inheritedMembers h) :=
  Recursion.returns_within (μ := TypeHandle.index) (fun _ _ => rfl)
    (fun _ _ hx => (hr.grounded.of_supertype? (Option.mem_toList.1 hx)).2) hh

theorem WellFormed.returns_isAssignable (target : TypeHandle) (hh : r.Live h) :
    (r.assignmentWalk target).Returns (some h) (r.isAssignable target (some h)) := by
  let within (n : Nat) (source : Option TypeHandle) : Bool :=
    source.any fun h => target == .object ||
      match r.name? target with
      | none => false
      | some name => r.isBelowWithin name n h
  have hstep (n : Nat) (source : Option TypeHandle) :
      within (n + 1) source = (r.assignmentWalk target).step (within n) source := by
    cases source with
    | none => rfl
    | some h =>
      cases hobject : target == .object with
      | true => simp [within, assignmentWalk, hobject]
      | false =>
        cases htarget : r.name? target with
        | none => simp [within, assignmentWalk, hobject, htarget]
        | some wanted =>
          cases hname : r.name? h <;>
            simp [within, assignmentWalk, hobject, htarget, hname, isBelowWithin]
  have hnone (n : Nat) : (r.assignmentWalk target).Returns none (within n none) :=
    .intro (w := r.assignmentWalk target) (within n) (t := none) nofun
  have hsome (n : Nat) (h : TypeHandle) (hlt : h.index < n) :
      (r.assignmentWalk target).Returns (some h) (within n (some h)) := by
    induction n generalizing h with
    | zero => omega
    | succ n ih =>
      rw [hstep]
      refine .intro _ fun x hx => ?_
      simp only [assignmentWalk, Option.toList_some, List.flatMap_singleton, List.mem_cons,
        List.mem_map] at hx
      cases x with
      | none => exact hnone n
      | some y =>
        have hbefore : y.index < h.index := by
          rcases hx with hx | ⟨y, hy, ⟨⟩⟩
          · exact (hr.grounded.of_supertype? hx.symm).2
          · exact (hr.descends.of_mem_interfaces hy).2
        exact ih y (by omega)
  exact hsome r.size h hh

theorem WellFormed.returns_matchesType (p : MethodPattern) (hh : r.Live h) :
    (r.matchWalk p).Returns h (p.matchesType r h) := by
  refine Recursion.returns_within (μ := TypeHandle.index) (g := p.matchesTypeWithin r)
    (fun n h => ?_) (fun y x hx => ?_) hh
  · rw [MethodPattern.matchesTypeWithin]
    rfl
  · simp only [matchWalk] at hx
    split at hx
    · cases hx
    · next name hname =>
      split at hx
      · exact (hr.descends.of_mem_interfaces hx).2
      · next hobject =>
        rcases List.mem_cons.1 hx with rfl | hx
        · -- where there is no supertype the walk goes on at the class above all others
          cases hs : r.supertype? y with
          | some s => exact (hr.grounded.of_supertype? hs).2
          | none => exact hr.grounded.object_lt_of_name? hname hobject
        · exact (hr.descends.of_mem_interfaces hx).2

end WellFormed

/-! ### The main result -/

/-- From a handle each walk returns what the library answers. -/
structure WalksEnd (r : Registry) (h : TypeHandle) : Prop where
  equality : ∀ b, r.Live b → r.equalityWalk.Returns (h, b) (r.deepEqual h b)
  name : r.nameWalk.Returns h (r.name? h)
  behind : r.behindWalk.Returns h (r.behind h)
  display : r.displayWalk.Returns h (r.showType h)
  rename : ∀ name, (r.renameWalk name).Returns h (r.withName h name)
  inheritance : r.inheritanceWalk.Returns h (r.inheritedMembers h)
  assignment : ∀ target, r.Live target →
    (r.assignmentWalk target).Returns (some h) (r.isAssignable target (some h))
  matching : ∀ p : MethodPattern, (r.matchWalk p).Returns h (p.matchesType r h)

/-- **Walks over types end.** In a registry that steps on live handles lead to, a descriptor names
earlier places only, and each walk from a live handle returns what the library answers, without any
budget. -/
theorem returns_of_reaches (hr : Reaches RegistryStep.Live .new r) :
    (∀ h d, r.get? h = some d → ∀ x ∈ d.handles, x.index < h.index) ∧
      ∀ h, r.Live h → r.WalksEnd h := by
  have hwell : r.WellFormed False := hr.wellFormed (fun h => ⟨h, False.elim⟩) (.fresh 0)
  refine ⟨fun h d hd => hwell.descends hd, fun h hh => ?_⟩
  exact {
    equality := fun b _ => hwell.returns_deepEqual hh
    name := hwell.returns_handlesAt rfl (fun _ _ => rfl) hh
    behind := hwell.returns_handlesAt rfl (fun _ _ => rfl) hh
    display := hwell.returns_handlesAt rfl (fun _ _ => rfl) hh
    rename := fun name => hwell.returns_handlesAt (g := r.withNameWithin name) rfl
      (fun _ _ => rfl) hh
    inheritance := hwell.returns_inheritedMembers hh
    assignment := fun target _ => hwell.returns_isAssignable target hh
    matching := fun p => hwell.returns_matchesType p hh }

/-- A generic type whose raw type is known by name only: the walks go on at `java.lang.Object`. -/
theorem returns_of_reaches_shallow :
    let q := RegistryStep.build (.shallow ['A'])
    let o := RegistryStep.build (.parameterized .firstDynamic [.object])
    let r := o.run (q.run .new)
    let p : MethodPattern := ⟨"java.lang.Object *(..)".toList, objectName, ['*'], [.any], false⟩
    Reaches RegistryStep.Live .new r ∧ r.Live ⟨15⟩ ∧ r.nameWalk.Returns ⟨15⟩ (some ['A']) ∧
      (r.assignmentWalk .firstDynamic).Returns (some ⟨15⟩) true ∧
        (r.matchWalk p).Returns ⟨15⟩ true := by
  intro q o r p
  have hr : Reaches RegistryStep.Live .new r :=
    .step (.step .refl q (by decide)) o (by decide)
  have hends := (returns_of_reaches hr).2 ⟨15⟩ (by decide)
  have hmatches : p.matchesType r ⟨15⟩ = true := by decide +kernel
  exact ⟨hr, by decide, hends.name, hends.assignment _ (by decide), hmatches ▸ hends.matching p⟩

end Registry

end JavaSource
