import JavaSource.Proofs.Run
import JavaSource.Proofs.Trivia
import JavaSource.Proofs.VisitOrder

/-!
# Spaces that are gaps between tokens

`FromGaps ts a` says that every space in the data `a` is empty or the gap before one of the tokens
`ts`.  A parser that puts no other spaces into what it gives lays them out (`Parser.Lays`); one rule
for each way to put parsers together.
-/

namespace JavaSource

/-- Data that holds spaces. -/
class Spaced (α : Type) where
  /-- Every space in the data is empty or the gap before one of the tokens. -/
  FromGaps : List Token → α → Prop

export Spaced (FromGaps)

section Instances

variable {α β : Type} [Spaced α] [Spaced β]

instance : Spaced Space := ⟨fun ts s => s = .empty ∨ ∃ t ∈ ts, s = Space.ofText t.gap⟩

instance : Spaced Tree := ⟨fun ts t => ∀ p ∈ t.spaces, FromGaps ts p.2⟩

instance : Spaced (Slot Tree) := ⟨fun ts x => ∀ p ∈ x.spaces, FromGaps ts p.2⟩

instance : Spaced Unit := ⟨fun _ _ => True⟩

instance : Spaced Bool := ⟨fun _ _ => True⟩

instance : Spaced (Followed α) := ⟨fun ts x => FromGaps ts x.element ∧ FromGaps ts x.after⟩

instance : Spaced (Preceded α) := ⟨fun ts x => FromGaps ts x.before ∧ FromGaps ts x.element⟩

instance : Spaced (List α) := ⟨fun ts as => ∀ a ∈ as, FromGaps ts a⟩

instance : Spaced (Option α) := ⟨fun ts o => ∀ a ∈ o, FromGaps ts a⟩

instance : Spaced (Series α) := ⟨fun ts s => FromGaps ts s.before ∧ FromGaps ts s.elements⟩

instance : Spaced (α × β) := ⟨fun ts c => FromGaps ts c.1 ∧ FromGaps ts c.2⟩

end Instances

section FromGaps

variable {α β : Type} [Spaced α] [Spaced β] {ts : List Token}

@[simp] theorem fromGaps_empty : FromGaps ts Space.empty := .inl rfl

@[simp] theorem fromGaps_bool {b : Bool} : FromGaps ts b := trivial

@[simp] theorem fromGaps_followed {a : α} {s : Space} :
    FromGaps ts (Followed.mk a s) ↔ FromGaps ts a ∧ FromGaps ts s := Iff.rfl

@[simp] theorem fromGaps_bare {a : α} : FromGaps ts (Followed.bare a) ↔ FromGaps ts a := by
  simp [Followed.bare]

@[simp] theorem fromGaps_preceded {a : α} {s : Space} :
    FromGaps ts (Preceded.mk s a) ↔ FromGaps ts s ∧ FromGaps ts a := Iff.rfl

@[simp] theorem fromGaps_series {s : Space} {xs : List (Followed α)} :
    FromGaps ts (Series.mk s xs) ↔ FromGaps ts s ∧ FromGaps ts xs := Iff.rfl

@[simp] theorem fromGaps_pair {a : α} {b : β} :
    FromGaps ts (a, b) ↔ FromGaps ts a ∧ FromGaps ts b := Iff.rfl

@[simp] theorem fromGaps_nil : FromGaps ts ([] : List α) := fun _ h => absurd h List.not_mem_nil

@[simp] theorem fromGaps_cons {a : α} {as : List α} :
    FromGaps ts (a :: as) ↔ FromGaps ts a ∧ FromGaps ts as := List.forall_mem_cons

@[simp] theorem fromGaps_append {as bs : List α} :
    FromGaps ts (as ++ bs) ↔ FromGaps ts as ∧ FromGaps ts bs := List.forall_mem_append

@[simp] theorem fromGaps_reverse {as : List α} : FromGaps ts as.reverse ↔ FromGaps ts as := by
  simp [FromGaps]

@[simp] theorem fromGaps_none : FromGaps ts (none : Option α) :=
  fun _ h => absurd h (Option.not_mem_none _)

@[simp] theorem fromGaps_some {a : α} : FromGaps ts (some a) ↔ FromGaps ts a := by
  simp [FromGaps]

@[simp] theorem fromGaps_toList {o : Option α} : FromGaps ts o.toList ↔ FromGaps ts o := by
  cases o <;> simp

theorem fromGaps_getD {o : Option Space} (h : FromGaps ts o) : FromGaps ts (o.getD .empty) := by
  cases o with
  | none => exact fromGaps_empty
  | some s => exact fromGaps_some.1 h

theorem fromGaps_zipWith {as : List α} {ss : List Space} (ha : FromGaps ts as)
    (hs : FromGaps ts ss) : FromGaps ts (as.zipWith Followed.mk ss) := by
  induction as generalizing ss with
  | nil => exact fromGaps_nil
  | cons a as ih =>
    cases ss with
    | nil => exact fromGaps_nil
    | cons s ss =>
      obtain ⟨ha, has⟩ := fromGaps_cons.1 ha
      obtain ⟨hs, hss⟩ := fromGaps_cons.1 hs
      exact fromGaps_cons.2 ⟨⟨ha, hs⟩, ih has hss⟩

end FromGaps

/-! ### Slots and nodes -/

section Nodes

variable {ts : List Token}

open Slot

@[simp] theorem fromGaps_slot_part {t : Tree} : FromGaps ts (part t) ↔ FromGaps ts t := by
  simp only [FromGaps, spaces_part]

@[simp] theorem fromGaps_slot_space {l : SpaceSlot} {s : Space} :
    FromGaps ts (Slot.space (α := Tree) l s) ↔ FromGaps ts s := by
  simp [FromGaps, spaces, mets, pieces, Tree.pieceMets, Met.space?]

@[simp] theorem fromGaps_slot_word {l : PrecededSlot} {s : Space} :
    FromGaps ts (word (α := Tree) l s) ↔ FromGaps ts s := by
  simp [FromGaps, spaces, mets, pieces, Tree.pieceMets, Met.space?]

@[simp] theorem fromGaps_slot_followed {l : FollowedSlot} {x : Followed Tree} :
    FromGaps ts (followed l x) ↔ FromGaps ts x := by
  simp only [FromGaps, spaces_followed, List.forall_mem_append, List.forall_mem_singleton]

@[simp] theorem fromGaps_slot_preceded {l : PrecededSlot} {x : Preceded Tree} :
    FromGaps ts (preceded l x) ↔ FromGaps ts x := by
  simp [FromGaps, spaces, mets, pieces, Tree.pieceMets, Met.space?, Tree.spaces]

@[simp] theorem fromGaps_slot_series {l : SeriesSlot} {s : Series Tree} :
    FromGaps ts (series l s) ↔ FromGaps ts s := by
  simp only [FromGaps, spaces_series, spaces_followed, List.forall_mem_cons,
    List.forall_mem_flatMap, List.forall_mem_append, List.not_mem_nil, IsEmpty.forall_iff,
    implies_true, and_true]

/-- Slots that are filled from data in the same way hold what the data holds. -/
theorem fromGaps_map {α : Type} [Spaced α] {f : α → Slot Tree}
    (hf : ∀ a, FromGaps ts (f a) ↔ FromGaps ts a) (as : List α) :
    FromGaps ts (as.map f) ↔ FromGaps ts as := by
  simp only [FromGaps, List.forall_mem_map]
  exact forall₂_congr fun a _ => hf a

@[simp] theorem fromGaps_map_part {as : List Tree} : FromGaps ts (as.map part) ↔ FromGaps ts as :=
  fromGaps_map (fun _ => fromGaps_slot_part) as

@[simp] theorem fromGaps_map_space {l : SpaceSlot} {ss : List Space} :
    FromGaps ts (ss.map (Slot.space (α := Tree) l)) ↔ FromGaps ts ss :=
  fromGaps_map (fun _ => fromGaps_slot_space) ss

@[simp] theorem fromGaps_map_followed {l : FollowedSlot} {xs : List (Followed Tree)} :
    FromGaps ts (xs.map (followed l)) ↔ FromGaps ts xs :=
  fromGaps_map (fun _ => fromGaps_slot_followed) xs

@[simp] theorem fromGaps_map_preceded {l : PrecededSlot} {xs : List (Preceded Tree)} :
    FromGaps ts (xs.map (preceded l)) ↔ FromGaps ts xs :=
  fromGaps_map (fun _ => fromGaps_slot_preceded) xs

@[simp] theorem fromGaps_map_series {l : SeriesSlot} {ss : List (Series Tree)} :
    FromGaps ts (ss.map (series l)) ↔ FromGaps ts ss :=
  fromGaps_map (fun _ => fromGaps_slot_series) ss

theorem fromGaps_node {i : NodeId} {s : Space} {x : Shape Tree} :
    FromGaps ts (Tree.node i s x) ↔ FromGaps ts s ∧ FromGaps ts x.slots := by
  simp only [FromGaps, Tree.spaces_eq, List.forall_mem_cons, List.forall_mem_flatMap, Tree.leading,
    Tree.shape]

theorem fromGaps_leading {t : Tree} (h : FromGaps ts t) : FromGaps ts t.leading := by
  cases t with
  | node i s x => exact (fromGaps_node.1 h).1

theorem fromGaps_lifted {t : Tree} (h : FromGaps ts t) :
    FromGaps ts (t.withLeading .empty) := by
  cases t with
  | node i s x => exact fromGaps_node.2 ⟨fromGaps_empty, (fromGaps_node.1 h).2⟩

end Nodes

/-! ### Parsers -/

/-- The tokens that are left are among these. -/
def Input.Within (ts : List Token) (i : Input) : Prop := i.tokens ⊆ ts

namespace Parser

variable {ts : List Token} {α β γ : Type}

/-- What the parser gives holds no spaces but gaps between tokens of the input. -/
def Lays (ts : List Token) [Spaced α] (p : Parser α) : Prop :=
  ∀ i : Input, i.Within ts → p.Ensures i fun a j => FromGaps ts a ∧ j.Within ts

/-- The parser looks ahead and takes nothing. -/
class Looks (p : Parser α) : Prop where
  tokens_eq : ∀ i, p.Ensures i fun _ j => j.tokens = i.tokens

instance : Looks tokens := ⟨fun _ => ensures_tokens.2 rfl⟩

instance : Looks peek := ⟨fun _ => ensures_peek.2 rfl⟩

instance : Looks peekNext := ⟨fun _ => ensures_peekNext.2 rfl⟩

instance : Looks text := ⟨fun _ => ensures_text.2 rfl⟩

instance {k : TokenKind} : Looks (at? k) := ⟨fun _ => ensures_at?.2 rfl⟩

instance {a : α} : Looks (pure a : Parser α) := ⟨fun _ => ensures_pure.2 rfl⟩

instance {p : Parser α} {f : α → Parser β} [hp : Looks p] [hf : ∀ a, Looks (f a)] :
    Looks (p >>= f) :=
  ⟨fun i => ensures_bind.2 ((hp.tokens_eq i).mono fun a j hj =>
    ((hf a).tokens_eq j).mono fun _ _ hk => hk.trans hj)⟩

section Steps

variable [Spaced α] [Spaced β]

theorem Lays.pure {a : α} (h : FromGaps ts a) : Lays ts (Pure.pure a : Parser α) :=
  fun _ hi => ensures_pure.2 ⟨h, hi⟩

theorem Lays.bind {p : Parser α} {f : α → Parser β} (hp : p.Lays ts)
    (hf : ∀ a, FromGaps ts a → (f a).Lays ts) : (p >>= f).Lays ts :=
  fun i hi => ensures_bind.2 ((hp i hi).mono fun a j h => hf a h.1 j h.2)

/-- To look ahead takes no spaces. -/
theorem Lays.look {p : Parser γ} [hp : Looks p] {f : γ → Parser β} (hf : ∀ c, (f c).Lays ts) :
    (p >>= f).Lays ts := by
  intro i hi
  refine ensures_bind.2 ((hp.tokens_eq i).mono fun c j hj => hf c j ?_)
  rwa [Input.Within, hj]

theorem Lays.ite {c : Prop} [Decidable c] {p q : Parser α} (hp : p.Lays ts) (hq : q.Lays ts) :
    (if c then p else q).Lays ts := by
  split
  · exact hp
  · exact hq

theorem lays_throw {e : SyntaxError} : Lays ts (throw e : Parser α) := fun _ _ => ensures_throw

theorem lays_failAt {us : List Token} {x : Expectation} : Lays ts (failAt us x : Parser α) :=
  fun _ _ => ensures_failAt

theorem lays_fail {x : Expectation} : Lays ts (fail x : Parser α) := fun _ _ => ensures_fail

theorem lays_repeating {step : α → Parser (Option α)}
    (h : ∀ a, FromGaps ts a → (step a).Lays ts) {a : α} (ha : FromGaps ts a) :
    (repeating a step).Lays ts := by
  have within (n : Nat) : ∀ a, FromGaps ts a → (repeatWithin step n a).Lays ts := by
    induction n with
    | zero => exact fun _ _ => lays_throw
    | succ n ih =>
      intro a ha
      refine (h a ha).bind fun o ho => ?_
      cases o with
      | none => exact .pure ha
      | some b => exact ih b (fromGaps_some.1 ho)
  exact .look fun _ => within _ a ha

theorem lays_collecting {item : Parser (Option α)} (h : item.Lays ts) :
    (collecting item).Lays ts := by
  have within (n : Nat) : (collectWithin item n).Lays ts := by
    induction n with
    | zero => exact lays_throw
    | succ n ih =>
      refine h.bind fun o ho => ?_
      cases o with
      | none => exact .pure fromGaps_nil
      | some a =>
        exact ih.bind fun as has => .pure (fromGaps_cons.2 ⟨fromGaps_some.1 ho, has⟩)
  exact .look fun _ => within _

theorem lays_ifAt {k : TokenKind} {item : Parser α} (h : item.Lays ts) : (ifAt k item).Lays ts :=
  .look fun _ => .ite (h.bind fun _ ha => .pure (fromGaps_some.2 ha)) (.pure fromGaps_none)

theorem lays_whileAt {k : TokenKind} {item : Parser α} (h : item.Lays ts) :
    (whileAt k item).Lays ts :=
  lays_collecting (lays_ifAt h)

end Steps

/-! ### Tokens and nodes -/

/-- The gap before the current token is the gap before one of the tokens. -/
theorem lays_takeSpace : takeSpace.Lays ts := by
  intro i hi
  simp only [takeSpace, ensures_bind, ensures_get, ensures_ite, ensures_pure, ensures_set]
  refine ⟨fun _ => ⟨fromGaps_empty, hi⟩, fun _ => ⟨?_, hi⟩⟩
  cases ht : i.tokens with
  | nil => exact .inl Space.ofText_nil
  | cons t rest =>
    have hmem : t ∈ ts := hi (by rw [ht]; exact List.mem_cons_self)
    exact .inr ⟨t, hmem, rfl⟩

theorem lays_bump : bump.Lays ts := by
  refine lays_takeSpace.bind fun s hs i hi => ?_
  rw [ensures_bind, ensures_get]
  cases ht : i.tokens with
  | nil => exact ensures_pure.2 ⟨hs, hi⟩
  | cons t rest =>
    have hrest : rest ⊆ ts := fun u hu => hi (by rw [ht]; exact List.mem_cons_of_mem t hu)
    simp only [ensures_bind, ensures_ite, ensures_set, ensures_pure]
    exact ⟨fun _ => ⟨hs, hrest⟩, fun _ => ⟨hs, hi⟩⟩

theorem lays_expect {k : TokenKind} : (expect k).Lays ts :=
  .look fun _ => .ite lays_bump lays_fail

theorem lays_skip (n : Nat) : (skip n).Lays ts := by
  induction n with
  | zero => exact .pure trivial
  | succ n ih => exact lays_bump.bind fun _ _ => ih

theorem lays_node {s : Space} {x : Shape Tree} (hs : FromGaps ts s) (hx : FromGaps ts x.slots) :
    (node s x).Lays ts :=
  fun _ hi => ensures_node.2 ⟨fromGaps_node.2 ⟨hs, hx⟩, hi⟩

theorem lays_placeholder : placeholder.Lays ts :=
  lays_takeSpace.bind fun _ hs => (lays_node hs fromGaps_nil).bind fun _ ht =>
    .pure (fromGaps_bare.2 ht)

theorem lays_anyName : anyName.Lays ts :=
  lays_takeSpace.bind fun _ hs => .look fun _ => lays_bump.bind fun _ _ =>
    lays_node hs fromGaps_nil

theorem lays_identifier : identifier.Lays ts := .look fun _ => .ite lays_anyName lays_fail

theorem lays_followed {p : Parser Tree} (h : p.Lays ts) : (followed p).Lays ts :=
  h.bind fun _ ht => lays_takeSpace.bind fun _ hs => .pure ⟨ht, hs⟩

theorem lays_elementsUntil {k : TokenKind} {p : Parser Tree} (h : p.Lays ts) :
    (elementsUntil k p).Lays ts := by
  have hfirst := lays_followed h
  refine .look fun _ => .ite ?_ ?_
  · exact lays_placeholder.bind fun x hx => .pure (fromGaps_cons.2 ⟨hx, fromGaps_nil⟩)
  · refine hfirst.bind fun x hx => .bind (lays_whileAt ?_) fun xs hxs =>
      .pure (fromGaps_cons.2 ⟨hx, hxs⟩)
    exact lays_bump.bind fun _ _ => .look fun _ => .ite lays_placeholder hfirst

theorem lays_delimited {k k' : TokenKind} {p : Parser Tree} (h : p.Lays ts) :
    (delimited k k' p).Lays ts :=
  lays_expect.bind fun _ hs => (lays_elementsUntil h).bind fun _ hxs =>
    lays_expect.bind fun _ _ => .pure ⟨hs, hxs⟩

theorem lays_separatedBy {k : TokenKind} {p : Parser Tree} (h : p.Lays ts) :
    (separatedBy k p).Lays ts := by
  refine h.bind fun t ht => ?_
  refine .bind (lays_repeating (fun a ha => ?_) (fromGaps_pair.2 ⟨ht, fromGaps_nil⟩)) fun a ha => ?_
  · refine .look fun _ => .ite ?_ (.pure fromGaps_none)
    exact lays_bump.bind fun after hs => h.bind fun u hu =>
      .pure (fromGaps_some.2 ⟨hu, fromGaps_cons.2 ⟨⟨ha.1, hs⟩, ha.2⟩⟩)
  · exact .pure (fromGaps_reverse.2 (fromGaps_cons.2 ⟨fromGaps_bare.2 ha.1, ha.2⟩))

end Parser

end JavaSource
