import JavaSource.Proofs.Run
import JavaSource.Proofs.VisitOrder
import Mathlib.Algebra.Order.BigOperators.Group.List
import Mathlib.Algebra.Ring.Int.Defs

/-!
# What a parse uses up

A `Scale` gives tokens, and nodes by their identities, a weight.  A parser that `Spends` no more than
a credit takes what its answer weighs from the input: the answer and what is left of the input weigh
no more than the input did, but for the credit.  So no identity is given out twice, and no closing
parenthesis is read without an opening one, whatever scale is chosen.
-/

namespace JavaSource

/-- What tokens and nodes weigh. -/
structure Scale where
  token : TokenKind → Int
  /-- All identities from this one on. -/
  rest : NodeId → Int
  light : ∀ k, k ≠ .openParen → 0 ≤ token k
  paired : 0 ≤ token .openParen + token .closeParen
  falls : ∀ i, rest (i + 1) ≤ rest i

namespace Scale

/-- The weight of a node of this identity. -/
def node (w : Scale) (i : NodeId) : Int := w.rest i - w.rest (i + 1)

/-- The weight of all nodes of a tree. -/
def tree (w : Scale) (t : Tree) : Int := (t.preorder.map fun u => w.node u.id).sum

end Scale

/-- Data that holds trees. -/
class Weighs (α : Type) where
  /-- The weight of all trees in the data. -/
  weight : Scale → α → Int

export Weighs (weight)

section Instances

variable {α β : Type} [Weighs α] [Weighs β]

instance : Weighs Tree := ⟨Scale.tree⟩

instance : Weighs Space := ⟨fun _ _ => 0⟩

instance : Weighs Bool := ⟨fun _ _ => 0⟩

instance : Weighs (Followed α) := ⟨fun w x => weight w x.element⟩

instance : Weighs (Preceded α) := ⟨fun w x => weight w x.element⟩

instance : Weighs (List α) := ⟨fun w as => (as.map (weight w)).sum⟩

instance : Weighs (Option α) := ⟨fun w o => (o.map (weight w)).getD 0⟩

instance : Weighs (Series α) := ⟨fun w s => weight w s.elements⟩

instance : Weighs (α × β) := ⟨fun w c => weight w c.1 + weight w c.2⟩

end Instances

section Weight

variable {α β : Type} [Weighs α] [Weighs β] {w : Scale}

@[simp] theorem weight_space (s : Space) : weight w s = 0 := rfl

@[simp] theorem weight_bool (b : Bool) : weight w b = 0 := rfl

@[simp] theorem weight_followed (x : Followed α) : weight w x = weight w x.element := rfl

@[simp] theorem weight_bare (t : Tree) : weight w (Followed.bare t) = weight w t := rfl

@[simp] theorem weight_preceded (x : Preceded α) : weight w x = weight w x.element := rfl

@[simp] theorem weight_series (s : Series α) : weight w s = weight w s.elements := rfl

@[simp] theorem weight_pair (a : α) (b : β) : weight w (a, b) = weight w a + weight w b := rfl

@[simp] theorem weight_nil : weight w ([] : List α) = 0 := rfl

@[simp] theorem weight_cons (a : α) (as : List α) :
    weight w (a :: as) = weight w a + weight w as := rfl

@[simp] theorem weight_append (as bs : List α) :
    weight w (as ++ bs) = weight w as + weight w bs := by
  simp [weight]

@[simp] theorem weight_reverse (as : List α) : weight w as.reverse = weight w as := by
  simp [weight]

@[simp] theorem weight_none : weight w (none : Option α) = 0 := rfl

@[simp] theorem weight_some (a : α) : weight w (some a) = weight w a := rfl

@[simp] theorem weight_option_space (o : Option Space) : weight w o = 0 := by
  cases o <;> rfl

@[simp] theorem weight_items (xs : List (Followed Tree)) : weight w (items xs) = weight w xs := by
  simp [weight, items, Function.comp_def]

@[simp] theorem weight_itemsOf (o : Option (Series Tree)) :
    weight w (Series.itemsOf o) = weight w o := by
  cases o with
  | none => rfl
  | some s => exact weight_items s.elements

@[simp] theorem weight_toList (o : Option Tree) : weight w o.toList = weight w o := by
  cases o with
  | none => rfl
  | some t => simp

@[simp] theorem weight_map_followed (o : Option (Followed Tree)) :
    weight w (o.map Followed.element) = weight w o := by
  cases o <;> rfl

@[simp] theorem weight_map_preceded (o : Option (Preceded Tree)) :
    weight w (o.map Preceded.element) = weight w o := by
  cases o <;> rfl

@[simp] theorem weight_map_snd (xs : List (Space × Tree)) :
    weight w (xs.map Prod.snd) = weight w xs := by
  simp [weight, Function.comp_def]

theorem weight_zipWith_followed (ts : List Tree) (ss : List Space) (h : ts.length ≤ ss.length) :
    weight w (ts.zipWith Followed.mk ss) = weight w ts := by
  induction ts generalizing ss with
  | nil => rfl
  | cons t ts ih =>
    cases ss with
    | nil => exact absurd h (by simp)
    | cons s ss =>
      rw [List.zipWith_cons_cons, weight_cons, weight_cons, ih ss (Nat.le_of_succ_le_succ h)]
      rfl

theorem weight_node (i : NodeId) (s : Space) (x : Shape Tree) :
    weight w (Tree.node i s x) = w.node i + weight w x.children := by
  have hsum (ts : List Tree) : ((ts.flatMap Tree.preorder).map fun u => w.node u.id).sum =
      weight w ts := by
    induction ts with
    | nil => rfl
    | cons t ts ih =>
      rw [List.flatMap_cons, List.map_append, List.sum_append, ih, weight_cons]
      rfl
  change ((Tree.node i s x).preorder.map fun u => w.node u.id).sum = _
  rw [Tree.preorder_eq, List.map_cons, List.sum_cons]
  exact congrArg (w.node i + ·) (hsum x.children)

theorem weight_tree_nonneg (t : Tree) : 0 ≤ weight w t := by
  refine List.sum_nonneg (List.forall_mem_map.2 fun u _ => ?_)
  exact Int.sub_nonneg_of_le (w.falls u.id)

theorem weight_nonneg (o : Option (Series Tree)) : 0 ≤ weight w o := by
  cases o with
  | none => exact Int.le_refl 0
  | some s => exact List.sum_nonneg (List.forall_mem_map.2 fun x _ => weight_tree_nonneg x.element)

@[simp] theorem weight_withLeading (t : Tree) (s : Space) :
    weight w (t.withLeading s) = weight w t := by
  obtain ⟨i, s', x⟩ := t
  rw [weight_node]
  exact weight_node i s x

end Weight

/-- The weight of an input: of its tokens, and of the identities that are left. -/
def Input.weight (w : Scale) (i : Input) : Int :=
  (i.tokens.map fun t => w.token t.kind).sum + w.rest i.nextId

namespace Parser

variable {α β γ : Type} {w : Scale} {c d : Int} {v : α → Int} {u : β → Int} {i : Input}

/-- From the input the parser takes the weight of what it gives, but for the credit. -/
def SpendsAt (w : Scale) (c : Int) (v : α → Int) (i : Input) (p : Parser α) : Prop :=
  p.Ensures i fun a j => j.tokens <:+ i.tokens ∧ v a + j.weight w ≤ c + i.weight w

/-- From every input the parser takes the weight of what it gives, but for the credit. -/
def Spends (w : Scale) (c : Int) (v : α → Int) (p : Parser α) : Prop := ∀ i, p.SpendsAt w c v i

/-! ### Composing -/

theorem SpendsAt.mono {p : Parser α} (hp : p.SpendsAt w d v i) (h : d ≤ c) : p.SpendsAt w c v i :=
  Ensures.mono hp fun _ _ ⟨htokens, hweight⟩ => ⟨htokens, by omega⟩

theorem Spends.mono {p : Parser α} (hp : p.Spends w d v) (h : d ≤ c) : p.Spends w c v :=
  fun i => (hp i).mono h

theorem SpendsAt.bind {p : Parser α} {f : α → Parser β} (hp : p.SpendsAt w d v i)
    (hf : ∀ a, (f a).Spends w (c - d + v a) u) : (p >>= f).SpendsAt w c u i := by
  refine ensures_bind.2 (Ensures.mono hp fun a j ⟨htokens, hweight⟩ => ?_)
  exact Ensures.mono (hf a j) fun b k ⟨htokens', hweight'⟩ =>
    ⟨htokens'.trans htokens, by omega⟩

/-- What the first step gives is credit for the next one. -/
theorem Spends.bind {p : Parser α} {f : α → Parser β} (hp : p.Spends w 0 v)
    (hf : ∀ a, (f a).Spends w (c + v a) u) : (p >>= f).Spends w c u :=
  fun i => (hp i).bind fun a => (hf a).mono (by omega)

/-- A step that uses up credit. -/
theorem Spends.into {p : Parser α} {f : α → Parser β} (hp : p.Spends w d v)
    (hf : ∀ a, (f a).Spends w (c - d + v a) u) : (p >>= f).Spends w c u :=
  fun i => (hp i).bind hf

/-- A step that gives no trees. -/
theorem Spends.after {p : Parser γ} {f : γ → Parser β} (hp : p.Spends w 0 fun _ => 0)
    (hf : ∀ a, (f a).Spends w c u) : (p >>= f).Spends w c u :=
  hp.bind fun a => (hf a).mono (by omega)

theorem spends_pure {a : α} (h : v a ≤ c) : (pure a : Parser α).Spends w c v :=
  fun _ => ensures_pure.2 ⟨List.suffix_rfl, by omega⟩

theorem Spends.ite {p q : Parser α} {b : Prop} [Decidable b] (hp : p.Spends w c v)
    (hq : q.Spends w c v) : (if b then p else q).Spends w c v := by
  split
  · exact hp
  · exact hq

theorem spends_throw {e : SyntaxError} : (throw e : Parser α).Spends w c v := fun _ => ensures_throw

theorem spends_failAt {ts : List Token} {x : Expectation} : (failAt ts x : Parser α).Spends w c v :=
  fun _ => ensures_failAt

theorem spends_fail {x : Expectation} : (fail x : Parser α).Spends w c v := fun _ => ensures_fail

/-! ### Looking -/

theorem spendsAt_peek {f : TokenKind → Parser β} (h : (f (kindOf i.tokens)).SpendsAt w c u i) :
    (peek >>= f).SpendsAt w c u i :=
  ensures_bind.2 (ensures_peek.2 h)

theorem spendsAt_at? {k : TokenKind} {p q : Parser β}
    (hp : kindOf i.tokens = k → p.SpendsAt w c u i) (hq : q.SpendsAt w c u i) :
    (at? k >>= fun b => if b then p else q).SpendsAt w c u i := by
  refine ensures_bind.2 (ensures_at?.2 ?_)
  split
  · next h => exact hp (beq_iff_eq.1 h)
  · exact hq

theorem spends_peek : peek.Spends w 0 fun _ => 0 :=
  fun _ => ensures_peek.2 ⟨List.suffix_rfl, Int.le_refl _⟩

theorem spends_peekNext : peekNext.Spends w 0 fun _ => 0 :=
  fun _ => ensures_peekNext.2 ⟨List.suffix_rfl, Int.le_refl _⟩

theorem spends_at? {k : TokenKind} : (at? k).Spends w 0 fun _ => 0 :=
  fun _ => ensures_at?.2 ⟨List.suffix_rfl, Int.le_refl _⟩

theorem spends_tokens : tokens.Spends w 0 fun _ => 0 :=
  fun _ => ensures_tokens.2 ⟨List.suffix_rfl, Int.le_refl _⟩

/-! ### Taking -/

theorem Input.weight_eq {j : Input} (htokens : j.tokens = i.tokens) (hid : j.nextId = i.nextId) :
    j.weight w = i.weight w := by
  rw [Input.weight, Input.weight, htokens, hid]

theorem spendsAt_takeSpace {f : Space → Parser β}
    (h : ∀ s j, j.tokens = i.tokens → (f s).SpendsAt w c u j) :
    (takeSpace >>= f).SpendsAt w c u i := by
  refine ensures_bind.2 (ensures_takeSpace fun s j htokens hid => ?_)
  refine Ensures.mono (h s j htokens) fun b k ⟨hk, hweight⟩ => ⟨htokens ▸ hk, ?_⟩
  rw [Input.weight_eq htokens hid] at hweight
  exact hweight

theorem spends_takeSpace : takeSpace.Spends w 0 fun _ => 0 := fun _ =>
  ensures_takeSpace fun _ _ htokens hid =>
    ⟨htokens ▸ List.suffix_rfl, Int.le_of_eq (congrArg (0 + ·) (Input.weight_eq htokens hid))⟩

theorem spendsAt_bump (h : kindOf i.tokens ≠ .openParen) : bump.SpendsAt w 0 (fun _ => 0) i := by
  refine ensures_bump (fun t ts s ht _ => ?_) fun _ s j htokens hid => ?_
  · have hlight := w.light t.kind (by rw [ht] at h; exact h)
    refine ⟨ht ▸ List.suffix_cons t ts, ?_⟩
    simp only [Input.weight, ht, List.map_cons, List.sum_cons]
    omega
  · exact ⟨htokens ▸ List.suffix_rfl, Int.le_of_eq (congrArg (0 + ·) (Input.weight_eq htokens hid))⟩

/-- What a token weighs is credit for what is behind it. -/
theorem spendsAt_bump_bind {k : TokenKind} {f : Space → Parser β} (hk : kindOf i.tokens = k)
    (heof : k ≠ .eof)
    (h : ∀ s j, j.tokens = i.tokens.drop 1 → (f s).SpendsAt w (c + w.token k) u j) :
    (bump >>= f).SpendsAt w c u i := by
  refine ensures_bind.2 (ensures_bump (fun t ts s ht _ => ?_) fun hend => ?_)
  · have hrest := h s ⟨ts, false, i.nextId⟩ (by rw [ht]; rfl)
    refine Ensures.mono hrest fun b l ⟨htokens, hweight⟩ => ?_
    obtain rfl : t.kind = k := by rw [ht] at hk; exact hk
    refine ⟨htokens.trans (ht ▸ List.suffix_cons t ts), ?_⟩
    simp only [Input.weight, ht, List.map_cons, List.sum_cons] at hweight ⊢
    omega
  · exact absurd (hk.symm.trans hend) heof

theorem Spends.expect {k : TokenKind} {f : Space → Parser β} (heof : k ≠ .eof)
    (h : ∀ s, (f s).Spends w (c + w.token k) u) : (expect k >>= f).Spends w c u := by
  intro i
  rw [Parser.expect, bind_assoc]
  refine ensures_bind.2 (ensures_at?.2 ?_)
  split
  · next hk => exact spendsAt_bump_bind (beq_iff_eq.1 hk) heof fun s j _ => h s j
  · exact ensures_bind.2 ensures_fail

theorem spends_expect {k : TokenKind} (h : k ≠ .openParen) :
    (expect k).Spends w 0 fun _ => 0 := by
  intro i
  refine spendsAt_at? (fun hk => spendsAt_bump (hk ▸ h)) ?_
  exact spends_fail i

theorem spends_node {s : Space} {x : Shape Tree} (h : weight w x.children ≤ c) :
    (node s x).Spends w c (weight w) := by
  refine fun i => ensures_node.2 ⟨List.suffix_rfl, ?_⟩
  rw [weight_node, Input.weight, Input.weight, Scale.node]
  dsimp only
  omega

/-! ### Loops -/

/-- A round weighs what the loop has so far. -/
theorem spends_repeating {step : α → Parser (Option α)}
    (h : ∀ a, (step a).Spends w (v a) fun o => v (o.getD a)) {a : α} (ha : v a ≤ c) :
    (repeating a step).Spends w c v := by
  have within (n : Nat) : ∀ a, (repeatWithin step n a).Spends w (v a) v := by
    induction n with
    | zero => exact fun _ => spends_throw
    | succ n ih =>
      intro a
      refine fun i => ensures_bind.2 (Ensures.mono (h a i) fun o j ⟨htokens, hweight⟩ => ?_)
      cases o with
      | none => exact ensures_pure.2 ⟨htokens, hweight⟩
      | some b =>
        exact Ensures.mono (ih b j) fun e k ⟨htokens', hweight'⟩ =>
          ⟨htokens'.trans htokens, by dsimp only [Option.getD_some] at hweight; omega⟩
  exact .after spends_tokens fun _ => (within _ a).mono ha

variable [Weighs α]

theorem spends_collecting {item : Parser (Option α)} (h : item.Spends w 0 (weight w)) :
    (collecting item).Spends w 0 (weight w) := by
  have within (n : Nat) : (collectWithin item n).Spends w 0 (weight w) := by
    induction n with
    | zero => exact spends_throw
    | succ n ih =>
      refine h.bind fun o => ?_
      cases o with
      | none => exact spends_pure (Int.le_refl _)
      | some a => exact ih.bind fun as => spends_pure (by rw [weight_cons, weight_some]; omega)
  exact .after spends_tokens fun _ => within _

theorem SpendsAt.some {p : Parser α} {i : Input} (hp : p.SpendsAt w c (weight w) i) :
    (p >>= fun a => pure (some a)).SpendsAt w c (weight w) i :=
  ensures_bind.2 (Ensures.mono hp fun _ _ h => ensures_pure.2 h)

theorem spends_ifAt {k : TokenKind} {item : Parser α}
    (h : ∀ i, kindOf i.tokens = k → item.SpendsAt w 0 (weight w) i) :
    (ifAt k item).Spends w 0 (weight w) := by
  refine fun i => spendsAt_at? (fun hk => ?_) ?_
  · exact (h i hk).some
  · exact spends_pure (Int.le_refl _) i

theorem spends_whileAt {k : TokenKind} {item : Parser α}
    (h : ∀ i, kindOf i.tokens = k → item.SpendsAt w 0 (weight w) i) :
    (whileAt k item).Spends w 0 (weight w) :=
  spends_collecting (spends_ifAt h)

/-! ### Names and lists -/

theorem spends_followed {p : Parser Tree} (h : p.Spends w 0 (weight w)) :
    (followed p).Spends w 0 (weight w) :=
  h.bind fun _ => .after spends_takeSpace fun _ => spends_pure (Int.le_of_eq (Int.zero_add _).symm)

theorem spends_placeholder : placeholder.Spends w 0 (weight w) :=
  .after spends_takeSpace fun _ => (spends_node (Int.le_refl _)).bind fun _ =>
    spends_pure (Int.le_of_eq (Int.zero_add _).symm)

theorem spendsAt_anyName {i : Input} (h : kindOf i.tokens ≠ .openParen) :
    anyName.SpendsAt w 0 (weight w) i := by
  refine spendsAt_takeSpace fun leading j htokens => ?_
  refine ensures_bind.2 (ensures_text.2 ((spendsAt_bump (htokens ▸ h)).bind fun _ => ?_))
  exact spends_node (Int.le_refl _)

theorem spends_identifier : identifier.Spends w 0 (weight w) := by
  refine fun i => spendsAt_at? (fun hk => ?_) (spends_fail i)
  exact spendsAt_anyName (by rw [hk]; nofun)

theorem spends_elementsUntil {k : TokenKind} {p : Parser Tree} (h : p.Spends w 0 (weight w)) :
    (elementsUntil k p).Spends w 0 (weight w) := by
  have hfirst := spends_followed h
  refine .after spends_at? fun _ => .ite ?_ ?_
  · exact spends_placeholder.bind fun x => spends_pure (by simp)
  · refine hfirst.bind fun x => .bind (spends_whileAt fun i hk => ?_) fun xs =>
      spends_pure (by simp)
    refine (spendsAt_bump (by rw [hk]; nofun)).bind fun _ => ?_
    exact .after spends_at? fun _ => .ite spends_placeholder hfirst

theorem spends_delimited {k k' : TokenKind} {p : Parser Tree} (hk : k ≠ .eof) (hk' : k' ≠ .eof)
    (hpair : 0 ≤ w.token k + w.token k') (h : p.Spends w 0 (weight w)) :
    (delimited k k' p).Spends w 0 (weight w) := by
  refine .expect hk fun before => (spends_elementsUntil h).bind fun xs => .expect hk' fun _ => ?_
  exact spends_pure (by change weight w xs ≤ _; omega)

theorem spends_separatedBy {k : TokenKind} {p : Parser Tree} (hk : k ≠ .openParen)
    (h : p.Spends w 0 (weight w)) : (separatedBy k p).Spends w 0 (weight w) := by
  refine h.bind fun t => .into (spends_repeating (c := 0 + weight w t) (v := weight w)
    (fun a i => ?_) (by simp)) fun a => ?_
  · obtain ⟨current, earlier⟩ := a
    refine spendsAt_at? (fun hi => ?_) (spends_pure (Int.le_refl _) i)
    refine (spendsAt_bump (by rw [hi]; exact hk)).bind fun after => h.bind fun next =>
      spends_pure ?_
    simp only [Option.getD_some, weight_pair, weight_cons, weight_followed]
    omega
  · obtain ⟨last, earlier⟩ := a
    refine spends_pure ?_
    simp only [weight_reverse, weight_cons, weight_bare, weight_pair]
    omega

end Parser

end JavaSource
