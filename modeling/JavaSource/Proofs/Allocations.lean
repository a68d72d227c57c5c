import JavaSource.Proofs.Requests

/-!
# Registries with descriptors put in by hand

A descriptor can be put into a registry outside all tables, so that no request finds it.  Such a
registry is not well formed, but what is there from the start stays there whatever is done
(`Registry.Arises.seeded`); and where only live handles are passed on, descriptors name earlier places
(`Registry.Arises.grounded`).
-/

namespace JavaSource

/-- What can be done to a registry, by hand as well. -/
inductive RegistryMove where
  | step (o : RegistryStep)
  /-- Puts a descriptor into a new place, outside all tables. -/
  | alloc (d : Descriptor)

namespace RegistryMove

/-- The registry after a move. -/
def run (r : Registry) : RegistryMove → Registry
  | step o => o.run r
  | alloc d => (r.alloc d).2

/-- The handles of the move are live. -/
def Live (r : Registry) : RegistryMove → Prop
  | step o => o.Live r
  | alloc d => ∀ x ∈ d.handles, r.Live x

instance (r : Registry) : (o : RegistryMove) → Decidable (o.Live r)
  | step o => inferInstanceAs (Decidable (o.Live r))
  | alloc d => inferInstanceAs (Decidable (∀ x ∈ d.handles, r.Live x))

end RegistryMove

namespace Registry

variable {r s : Registry} {d e : Descriptor} {a h : TypeHandle} {relaxed : Bool} {live : Prop}
  {p : TypeHandle × Registry} {name : Text}

/-- A registry that moves lead to from a new one, each allowed when it is made. -/
inductive Arises (allowed : Registry → RegistryMove → Prop) : Registry → Prop where
  | new : Arises allowed .new
  | move {r : Registry} (before : Arises allowed r) (o : RegistryMove) (ho : allowed r o) :
    Arises allowed (o.run r)

/-! ### Sound registries -/

/-- What holds of a registry after any moves.  When `live` holds, these were on live handles. -/
structure Sound (live : Prop) (r : Registry) : Prop where
  seeded : seedSlots <+: r.slots
  descends : live → r.Descends
  /-- What is found under a key is live. -/
  known : live → ∀ ⦃k h⦄, h ∈ r.under k → r.Live h

/-- The registry has grown into a sound one, and the handle is live in it. -/
structure Gives (live : Prop) (r : Registry) (p : TypeHandle × Registry) : Prop where
  sound : p.2.Sound live
  grown : r.slots <+: p.2.slots
  found : live → p.2.Live p.1

theorem live_ofPrimitive (hr : seedSlots <+: r.slots) (p : Primitive) :
    r.Live (.ofPrimitive p) := by
  have hlt : (TypeHandle.ofPrimitive p).index < seedSlots.length := by cases p <;> decide
  exact Nat.lt_of_lt_of_le hlt hr.length_le

theorem Gives.trans (h : Gives live r (a, s)) (h' : Gives live s p) : Gives live r p :=
  ⟨h'.sound, h.grown.trans h'.grown, h'.found⟩

namespace Sound

protected theorem fresh (n : Nat) : (Registry.fresh n).Sound live :=
  have hr : (Registry.fresh n).WellFormed False := .fresh n
  ⟨hr.seeded, fun _ => hr.descends, fun _ _ _ => hr.live_of_mem_under⟩

theorem gives_self (hr : r.Sound live) (ha : live → r.Live a) : Gives live r (a, r) :=
  ⟨hr, List.prefix_rfl, ha⟩

theorem alloc (hr : r.Sound live) (hd : live → ∀ x ∈ d.handles, r.Live x) :
    Gives live r (r.alloc d) := by
  have hgrown : r.slots <+: (r.alloc d).2.slots := List.prefix_append _ _
  refine ⟨⟨hr.seeded.trans hgrown, fun hl h e he x hx => ?_, fun hl k h hh => ?_⟩, hgrown, ?_⟩
  · have he : (r.register d).2.get? h = some e := by rwa [get?, slots_register]
    rcases get?_register_cases he with he | ⟨rfl, rfl⟩
    · exact hr.descends hl he x hx
    · exact hd hl x hx
  · exact (hr.known hl (k := k) hh).grown hgrown
  · intro _
    change r.slots.length < (r.slots ++ [d]).length
    rw [List.length_append, List.length_singleton]
    exact Nat.lt_succ_self _

/-- Filing a live handle keeps a registry sound. -/
theorem file (hr : r.Sound live) (hh : live → r.Live h) {k : RegistryKey}
    (hpath : ∀ p, k = .path p → r.under k = []) : (r.file h k).Sound live where
  seeded := by rw [slots_file]; exact hr.seeded
  descends hl h' d hd := hr.descends hl (by rwa [get?, slots_file] at hd)
  known hl k' h' hh' := by
    have hlive {x : TypeHandle} (hx : r.Live x) : (r.file h k).Live x := by
      rwa [Live, size, slots_file]
    rw [under_file r h k k' hpath] at hh'
    split at hh'
    · rcases List.mem_append.1 hh' with hh' | hh'
      · exact hlive (hr.known hl hh')
      · exact hlive (List.mem_singleton.1 hh' ▸ hh hl)
    · exact hlive (hr.known hl hh')

theorem register (hr : r.Sound live) (hd : live → ∀ x ∈ d.handles, r.Live x)
    (hpath : ∀ p, d.key = .path p → r.under d.key = []) : Gives live r (r.register d) := by
  obtain ⟨hsound, hgrown, hfound⟩ := hr.alloc hd
  refine ⟨hsound.file hfound hpath, ?_, fun hl => ?_⟩
  · exact hgrown.trans (by rw [slots_register]; exact List.prefix_rfl)
  · exact live_of_get? (get?_register_self r d)

/-- A request for a descriptor of live handles is answered with a live one. -/
theorem intern (hr : r.Sound live) (hd : live → ∀ x ∈ d.handles, r.Live x) :
    Gives live r (r.intern relaxed d) := by
  rw [Registry.intern]
  split
  · next h hfound => exact hr.gives_self fun hl => hr.known hl (mem_under_of_lookUp hfound)
  · next hnone =>
    refine hr.register hd fun p hp => ?_
    have hsought : d.isSought = false := by
      cases d <;> simp_all [Descriptor.isSought, Descriptor.key]
    rwa [lookUp_of_not_isSought hsought, List.head?_eq_none_iff] at hnone

/-- The form in which a descriptor is registered holds no other handles. -/
theorem intern_canonical (hr : r.Sound live) (hd : live → ∀ x ∈ d.handles, r.Live x) :
    Gives live r (r.intern relaxed (r.canonical d)) :=
  hr.intern fun hl x hx => hd hl x (mem_handles_canonical hx)

theorem buildClass (hr : r.Sound live) (name : Text) : Gives live r (r.buildClass name) := by
  have hbare {r : Registry} (hr : r.Sound live) (name : Text) {kind : ClassKind}
      {owner : Option TypeHandle} (howner : live → ∀ x ∈ owner, r.Live x) :
      Gives live r (r.buildRelaxedClass (bareClass name kind owner)) := by
    rw [buildRelaxedClass_eq]
    exact hr.intern_canonical (d := .classType _) fun hl x hx =>
      howner hl x (mem_handles_bareClass.1 hx)
  fun_induction Registry.buildClass r name with
  | case1 name h => exact hbare hr name fun _ _ hx => by cases hx
  | case2 name owner h around s hbuilt ih =>
    rw [hbuilt] at ih
    refine ih.trans (hbare ih.sound name fun hl x hx => ?_)
    obtain rfl := Option.some.inj hx
    exact ih.found hl

theorem request (hr : r.Sound live) {q : TypeRequest} (hq : live → q.Live r) :
    Gives live r (q.run r) := by
  cases hd : q.descriptor? with
  | some d =>
    rw [run_of_descriptor? hd]
    exact hr.intern_canonical fun hl => hq hl d hd
  | none =>
    cases q with
    | named name =>
      rw [TypeRequest.run, buildType]
      split
      · next p _ => exact hr.gives_self fun _ => live_ofPrimitive hr.seeded p
      · exact hr.buildClass name
    | className name => exact hr.buildClass name
    | classOfKind name kind =>
      rw [TypeRequest.run, buildClassOfKind, buildRelaxedClass_eq]
      exact hr.intern_canonical (d := .classType _) fun _ x hx => by cases mem_handles_bareClass.1 hx
    | _ => cases hd

/-- A descriptor that differs from one that is there in live handles only. -/
theorem revised (hr : r.Sound live) {handles components : List TypeHandle}
    (hd : Revises e handles components d) (he : r.get? h = some e)
    (hhandles : live → ∀ x ∈ handles, r.Live x) :
    Gives live r (r.intern relaxed (r.canonical d)) :=
  hr.intern_canonical fun hl x hx =>
    (hd.handles x hx).elim ((hr.descends hl).live he) (hhandles hl x)

theorem withNameWithin (hr : r.Sound live) {n : Nat} (h : r.withNameWithin name n a = some p) :
    Gives live r p := by
  induction n generalizing a p with
  | zero => cases h
  | succ n ih =>
    obtain ⟨e, he, ⟨rfl, -⟩ | ⟨d, hd, -, rfl⟩ | ⟨raw, arguments, q, rfl, hq, hp⟩⟩ :=
      withNameWithin_cases h
    · exact hr.gives_self fun _ => live_of_get? he
    · exact hr.revised hd he (by nofun)
    · have hrenamed := ih hq
      -- the raw type is renamed, and the generic type is the same or is asked for again
      rcases hp with rfl | rfl
      · exact ⟨hrenamed.sound, hrenamed.grown, fun _ => (live_of_get? he).grown hrenamed.grown⟩
      · refine hrenamed.trans (hrenamed.sound.intern_canonical fun hl x hx => ?_)
        rcases List.mem_cons.1 hx with rfl | hx
        · exact hrenamed.found hl
        · exact ((hr.descends hl).live he (List.mem_cons_of_mem _ hx)).grown hrenamed.grown

theorem change (hr : r.Sound live) {c : TypeChange} (hc : live → ∀ x ∈ c.handles, r.Live x)
    (hp : c.run r a = some p) : Gives live r p := by
  by_cases hname : ∃ n, c = .name n
  · obtain ⟨n, rfl⟩ := hname
    exact hr.withNameWithin hp
  · obtain ⟨e, he, rfl | ⟨d, hd, rfl⟩⟩ := TypeChange.run_cases (fun n h => hname ⟨n, h⟩) hp
    · exact hr.gives_self fun _ => live_of_get? he
    · exact hr.revised hd he hc

/-- A move keeps a registry sound. -/
theorem move (hr : r.Sound live) {o : RegistryMove} (ho : live → o.Live r) :
    (o.run r).Sound live := by
  cases o with
  | alloc d => exact (hr.alloc ho).sound
  | step o =>
    cases o with
    | build q => exact (hr.request ho).sound
    | copy of c =>
      rw [RegistryMove.run, RegistryStep.run]
      cases hp : c.run r of with
      | none => exact hr
      | some p => exact (hr.change (fun hl => (ho hl).2) hp).sound
    | clear => exact .fresh _

end Sound

/-- Moves lead to sound registries. -/
theorem Arises.sound {allowed : Registry → RegistryMove → Prop} (h : Arises allowed r)
    (hallowed : live → ∀ r o, allowed r o → o.Live r) : r.Sound live := by
  induction h with
  | new => exact .fresh 0
  | move _ o ho ih => exact ih.move fun hl => hallowed hl _ o ho

/-- What is there from the start is there after any moves. -/
theorem Arises.seeded {allowed : Registry → RegistryMove → Prop} (h : Arises allowed r) :
    seedSlots <+: r.slots :=
  have hr : r.Sound False := h.sound False.elim
  hr.seeded

/-- After moves on live handles, descriptors name earlier places. -/
theorem Arises.grounded (h : Arises (fun r o => o.Live r) r) : r.Grounded :=
  have hr : r.Sound True := h.sound fun _ _ _ ho => ho
  ⟨hr.seeded, hr.descends trivial⟩

end Registry

end JavaSource
