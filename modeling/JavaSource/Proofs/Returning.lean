import JavaSource.Proofs.Persisting

/-!
# What returns within its budget

The productions get a budget of levels, and a loop one of rounds.  `Parser.Settles n c p p'` says of
a production `p`, and of the same production `p'` with more levels, that they give the same from
every input with fewer than `n` tokens left, that this is not that a budget is used up, and that an
answer `a` costs at least `c a` tokens.  A production that costs a token (`Parser.Passes`) leaves a
smaller `n` to what follows it; this is how each production can call the others one level down.
-/

namespace JavaSource

/-- How many tokens are left before the end of the input. -/
def Input.left (i : Input) : Nat := (i.tokens.takeWhile fun t => t.kind ≠ .eof).length

namespace Input

variable {i j : Input}

theorem left_congr (h : j.tokens = i.tokens) : j.left = i.left := by rw [left, left, h]

theorem left_le_length : i.left ≤ i.tokens.length := (List.takeWhile_prefix _).length_le

theorem left_of_cons {t : Token} {ts : List Token} (h : i.tokens = t :: ts) (hk : t.kind ≠ .eof)
    (taken : Bool) (n : NodeId) : i.left = left ⟨ts, taken, n⟩ + 1 := by
  rw [left, h, List.takeWhile_cons_of_pos (by simpa using hk)]
  rfl

end Input

namespace Parser

variable {α β : Type}

/-- From this input, if fewer than `n` tokens are left, the two parsers give the same. This is not
that a budget is used up, and what is given costs as many tokens as `c` says. -/
def SettlesAt (n : Nat) (c : α → Nat) (p p' : Parser α) (i : Input) : Prop :=
  i.left < n → p'.run i = p.run i ∧ p.run i ≠ .error .outOfBudget ∧
    p.Ensures i fun a j => j.left + c a ≤ i.left

/-- From every input with fewer than `n` tokens left the two parsers give the same within their
budget. -/
def Settles (n : Nat) (c : α → Nat) (p p' : Parser α) : Prop := ∀ i, SettlesAt n c p p' i

/-- The two parsers give the same within their budget. -/
abbrev Returns (n : Nat) (p p' : Parser α) : Prop := Settles n (fun _ => 0) p p'

/-- From this input the two parsers give the same within their budget, past at least one token. -/
abbrev PassesAt (n : Nat) (p p' : Parser α) (i : Input) : Prop := SettlesAt n (fun _ => 1) p p' i

/-- The two parsers give the same within their budget, past at least one token. -/
abbrev Passes (n : Nat) (p p' : Parser α) : Prop := Settles n (fun _ => 1) p p'

/-- The round of a loop costs a token if another one follows. -/
def roundCost (o : Option α) : Nat := o.elim 0 fun _ => 1

variable {n m : Nat} {c : α → Nat} {d : β → Nat} {p p' : Parser α} {f f' : α → Parser β} {i : Input}

/-! ### Composing -/

theorem SettlesAt.mono {e : α → Nat} (h : SettlesAt n c p p' i) (he : ∀ a, e a ≤ c a) :
    SettlesAt n e p p' i := fun hi =>
  ⟨(h hi).1, (h hi).2.1, (h hi).2.2.mono fun a _ hj => by have := he a; omega⟩

theorem Settles.mono {e : α → Nat} (h : Settles n c p p') (he : ∀ a, e a ≤ c a) :
    Settles n e p p' := fun i => (h i).mono he

theorem Settles.le (h : Settles n c p p') (hm : m ≤ n) : Settles m c p p' :=
  fun i hi => h i (Nat.lt_of_lt_of_le hi hm)

theorem Passes.returns (h : Passes n p p') : Returns n p p' := h.mono fun _ => Nat.zero_le 1

theorem PassesAt.returns (h : PassesAt n p p' i) : SettlesAt n (fun _ => 0) p p' i :=
  h.mono fun _ => Nat.zero_le 1

/-- Behind a token the parsers are used with fewer tokens left. -/
theorem Settles.later (h : Settles n c p p') : Returns (n - 1) p p' :=
  (h.le n.pred_le).mono fun _ => Nat.zero_le _

/-- What follows may depend on what is given first, and on what that costs. -/
theorem SettlesAt.bind {e : β → Nat} (hp : SettlesAt n c p p' i)
    (hf : ∀ a, Settles (n - c a) (fun b => e b - c a) (f a) (f' a)) :
    SettlesAt n e (p >>= f) (p' >>= f') i := by
  intro hi
  obtain ⟨heq, hbudget, hcost⟩ := hp hi
  rw [StateT.run_bind, StateT.run_bind, heq]
  cases hrun : p.run i with
  | error x =>
    rw [hrun] at hbudget
    refine ⟨rfl, fun h => hbudget ?_, ensures_bind.2 fun a j hj => ?_⟩
    · cases h
      rfl
    · rw [hrun] at hj
      cases hj
  | ok r =>
    obtain ⟨a, j⟩ := r
    have hj := hcost a j hrun
    obtain ⟨heq', hbudget', hcost'⟩ := hf a j (by omega)
    refine ⟨heq', hbudget', fun b k hk => ?_⟩
    rw [StateT.run_bind, hrun] at hk
    have hk' := hcost' b k hk
    dsimp only at hk'
    omega

/-- Behind a token there are fewer left, and there is nothing more to pass. -/
theorem PassesAt.bind (hp : PassesAt n p p' i) (hf : ∀ a, Returns (n - 1) (f a) (f' a)) :
    PassesAt n (p >>= f) (p' >>= f') i := SettlesAt.bind hp hf

theorem Passes.bind (hp : Passes n p p') (hf : ∀ a, Returns (n - 1) (f a) (f' a)) :
    Passes n (p >>= f) (p' >>= f') := fun i => PassesAt.bind (hp i) hf

theorem Returns.bind (hp : Returns n p p') (hf : ∀ a, Settles n d (f a) (f' a)) :
    Settles n d (p >>= f) (p' >>= f') := fun i => SettlesAt.bind (hp i) hf

theorem settles_pure {a : α} (h : c a = 0) : Settles n c (pure a) (pure a) :=
  fun _ _ => ⟨rfl, nofun, ensures_pure.2 (by rw [h]; exact Nat.le_refl _)⟩

theorem returns_pure {a : α} : Returns n (pure a) (pure a) := settles_pure rfl

theorem settlesAt_ite {b : Prop} [Decidable b] {q q' : Parser α} (hp : b → SettlesAt n c p p' i)
    (hq : ¬ b → SettlesAt n c q q' i) :
    SettlesAt n c (if b then p else q) (if b then p' else q') i := by
  split
  · exact hp ‹_›
  · exact hq ‹_›

theorem settles_ite {b : Prop} [Decidable b] {q q' : Parser α} (hp : Settles n c p p')
    (hq : Settles n c q q') : Settles n c (if b then p else q) (if b then p' else q') :=
  fun i => settlesAt_ite (fun _ => hp i) fun _ => hq i

theorem settles_failAt {ts : List Token} {x : Expectation} :
    Settles n c (failAt ts x) (failAt ts x) := by
  refine fun i _ => ⟨rfl, ?_, ensures_failAt⟩
  unfold failAt
  cases ts with
  | nil => nofun
  | cons t ts => dsimp only; split <;> nofun

theorem settles_fail {x : Expectation} : Settles n c (fail x) (fail x) :=
  fun i => (settles_failAt : Settles n c (failAt i.tokens x) (failAt i.tokens x)) i

theorem settles_node {s : Space} {x : Shape Tree} {c : Tree → Nat}
    (h : ∀ id, c (.node id s x) = 0) : Settles n c (node s x) (node s x) :=
  fun _ _ => ⟨rfl, nofun, ensures_node.2 (by rw [h]; exact Nat.le_refl _)⟩

theorem returns_node {s : Space} {x : Shape Tree} : Returns n (node s x) (node s x) :=
  settles_node fun _ => rfl

/-! ### Looking -/

theorem settlesAt_peek {f f' : TokenKind → Parser α}
    (h : SettlesAt n c (f (kindOf i.tokens)) (f' (kindOf i.tokens)) i) :
    SettlesAt n c (peek >>= f) (peek >>= f') i := h

theorem settlesAt_at? {k : TokenKind} {f f' : Bool → Parser α}
    (h : ∀ b : Bool, (b → kindOf i.tokens = k) → SettlesAt n c (f b) (f' b) i) :
    SettlesAt n c (at? k >>= f) (at? k >>= f') i := h _ beq_iff_eq.1

/-- A choice by the token that comes next. -/
theorem settlesAt_choice {k : TokenKind} {q q' : Parser α}
    (hp : kindOf i.tokens = k → SettlesAt n c p p' i) (hq : SettlesAt n c q q' i) :
    SettlesAt n c (at? k >>= fun b => if b then p else q)
      (at? k >>= fun b => if b then p' else q') i :=
  settlesAt_at? fun _ hk => settlesAt_ite (fun hb => hp (hk hb)) fun _ => hq

theorem settlesAt_peekNext {f f' : TokenKind → Parser α}
    (h : SettlesAt n c (f (kindOf (i.tokens.drop 1))) (f' (kindOf (i.tokens.drop 1))) i) :
    SettlesAt n c (peekNext >>= f) (peekNext >>= f') i := h

theorem settlesAt_tokens {f f' : List Token → Parser α}
    (h : SettlesAt n c (f i.tokens) (f' i.tokens) i) :
    SettlesAt n c (tokens >>= f) (tokens >>= f') i := h

theorem settlesAt_text {f f' : Text → Parser α} (h : ∀ t, SettlesAt n c (f t) (f' t) i) :
    SettlesAt n c (text >>= f) (text >>= f') i := h _

theorem settles_peek {f f' : TokenKind → Parser α} (h : ∀ k, Settles n c (f k) (f' k)) :
    Settles n c (peek >>= f) (peek >>= f') := fun i => h _ i

theorem settles_peekNext {f f' : TokenKind → Parser α} (h : ∀ k, Settles n c (f k) (f' k)) :
    Settles n c (peekNext >>= f) (peekNext >>= f') := fun i => h _ i

theorem settles_at? {k : TokenKind} {f f' : Bool → Parser α} (h : ∀ b, Settles n c (f b) (f' b)) :
    Settles n c (at? k >>= f) (at? k >>= f') := fun i => h _ i

theorem settles_tokens {f f' : List Token → Parser α} (h : ∀ ts, Settles n c (f ts) (f' ts)) :
    Settles n c (tokens >>= f) (tokens >>= f') := fun i => h _ i

theorem settles_text {f f' : Text → Parser α} (h : ∀ t, Settles n c (f t) (f' t)) :
    Settles n c (text >>= f) (text >>= f') := fun i => h _ i

/-- Two tokens ahead, the first of which is not the end. -/
theorem settles_both {k k' : TokenKind} {p p' q q' : Parser α}
    (hp : ∀ i, kindOf i.tokens = k → SettlesAt n c p p' i) (hq : Settles n c q q') :
    Settles n c (at? k >>= fun b => peekNext >>= fun x => if b && x == k' then p else q)
      (at? k >>= fun b => peekNext >>= fun x => if b && x == k' then p' else q') := by
  intro i
  refine settlesAt_ite (b := (kindOf i.tokens == k && kindOf (i.tokens.drop 1) == k') = true)
    (fun h => hp i ?_) fun _ => hq i
  simpa using (Bool.and_eq_true_iff.1 h).1

/-! ### Taking -/

theorem returns_takeSpace : Returns n takeSpace takeSpace := by
  refine fun i _ => ⟨rfl, ?_, ensures_takeSpace fun _ j hj _ => ?_⟩
  · rw [run_takeSpace]
    nofun
  · exact Nat.le_of_eq (Input.left_congr hj)

/-- The space that is taken leaves the tokens as they are. -/
theorem settlesAt_takeSpace {f f' : Space → Parser α}
    (h : ∀ s, SettlesAt n c (f s) (f' s) { i with gapTaken := true }) :
    SettlesAt n c (takeSpace >>= f) (takeSpace >>= f') i := by
  have hrun (f : Space → Parser α) :
      (takeSpace >>= f).run i = (f i.space).run { i with gapTaken := true } :=
    run_bind_ok (run_takeSpace i)
  intro hi
  obtain ⟨heq, hbudget, hcost⟩ := h i.space hi
  refine ⟨by rw [hrun, hrun, heq], by rwa [hrun], fun a j hj => ?_⟩
  rw [hrun] at hj
  exact hcost a j hj

theorem run_bump_ne_error (i : Input) (x : SyntaxError) : bump.run i ≠ .error x := by
  have hget {f : Input → Parser Space} (j : Input) : (get >>= f).run j = (f j).run j := rfl
  rw [bump, run_bind_ok (run_takeSpace i), hget]
  dsimp only
  split
  · rintro ⟨⟩
  · split <;> rintro ⟨⟩

theorem returns_bump : Returns n bump bump := by
  refine fun i _ => ⟨rfl, run_bump_ne_error i _,
    ensures_bump (fun t ts s ht hk => ?_) fun _ s j hj _ => ?_⟩
  · have hleft := Input.left_of_cons ht hk false i.nextId
    exact Nat.le_of_lt (Nat.lt_of_succ_le (Nat.le_of_eq hleft.symm))
  · exact Nat.le_of_eq (Input.left_congr hj)

theorem passesAt_bump (hk : kindOf i.tokens ≠ .eof) : PassesAt n bump bump i := by
  refine fun _ => ⟨rfl, run_bump_ne_error i _, ensures_bump (fun t ts s ht hk => ?_) fun heof => ?_⟩
  · exact Nat.le_of_eq (Input.left_of_cons ht hk false i.nextId).symm
  · exact absurd heof hk

theorem passesAt_bump_of {k : TokenKind} (hk : kindOf i.tokens = k) (heof : k ≠ .eof) :
    PassesAt n bump bump i := passesAt_bump (hk ▸ heof)

theorem passes_expect {k : TokenKind} (heof : k ≠ .eof) : Passes n (expect k) (expect k) :=
  fun i => settlesAt_choice (fun hk => passesAt_bump_of hk heof) (settles_fail i)

theorem returns_skip (k : Nat) : Returns n (skip k) (skip k) := by
  induction k with
  | zero => exact returns_pure
  | succ k ih => exact returns_bump.bind fun _ => ih

theorem passesAt_skip {k : Nat} (hk : kindOf i.tokens ≠ .eof) (hpos : 0 < k) :
    PassesAt n (skip k) (skip k) i := by
  cases k with
  | zero => exact absurd hpos (Nat.lt_irrefl 0)
  | succ k => exact (passesAt_bump hk).bind fun _ => returns_skip k

/-! ### Loops -/

/-- A loop that passes a token in each round it is not over with has rounds enough. -/
theorem returns_repeating {step step' : α → Parser (Option α)}
    (h : ∀ a, Settles n roundCost (step a) (step' a)) (a : α) :
    Returns n (repeating a step) (repeating a step') := by
  have within (m : Nat) : ∀ (a : α) (i : Input), i.left < m →
      SettlesAt n (fun _ => 0) (repeatWithin step m a) (repeatWithin step' m a) i := by
    induction m with
    | zero => exact fun a i hm => absurd hm (Nat.not_lt_zero _)
    | succ m ih =>
      intro a i hm hi
      -- the rest of the loop has one round less, and the round has passed a token
      have hround := h a i hi
      refine SettlesAt.bind (n := min n (m + 1)) (fun _ => hround) (fun o => ?_) (by omega)
      cases o with
      | none => exact returns_pure
      | some b => exact fun j hj => ih b j (by rw [roundCost, Option.elim] at hj; omega) (by omega)
  intro i
  exact within (i.tokens.length + 1) a i (Nat.lt_succ_of_le i.left_le_length)

theorem returns_collecting {item item' : Parser (Option α)} (h : Settles n roundCost item item') :
    Returns n (collecting item) (collecting item') := by
  have within (m : Nat) : ∀ i : Input, i.left < m →
      SettlesAt n (fun _ => 0) (collectWithin item m) (collectWithin item' m) i := by
    induction m with
    | zero => exact fun i hm => absurd hm (Nat.not_lt_zero _)
    | succ m ih =>
      intro i hm hi
      have hround := h i hi
      refine SettlesAt.bind (n := min n (m + 1)) (fun _ => hround) (fun o => ?_) (by omega)
      cases o with
      | none => exact returns_pure
      | some b =>
        refine Returns.bind (fun j hj => ?_) fun _ => returns_pure
        exact ih j (by rw [roundCost, Option.elim] at hj; omega) (by omega)
  intro i
  exact within (i.tokens.length + 1) i (Nat.lt_succ_of_le i.left_le_length)

theorem PassesAt.some {p p' : Parser α} (h : PassesAt n p p' i) :
    SettlesAt n roundCost (p >>= fun a => pure (some a)) (p' >>= fun a => pure (some a)) i :=
  SettlesAt.bind h fun _ => settles_pure rfl

theorem settles_none : Settles n roundCost (pure (none : Option α)) (pure none) := settles_pure rfl

theorem returns_whileAt {k : TokenKind} {item item' : Parser α}
    (h : ∀ i, kindOf i.tokens = k → PassesAt n item item' i) :
    Returns n (whileAt k item) (whileAt k item') :=
  returns_collecting fun i => settlesAt_choice (fun hk => (h i hk).some) (settles_none i)

theorem returns_ifAt {k : TokenKind} {item item' : Parser α} (h : Returns n item item') :
    Returns n (ifAt k item) (ifAt k item') :=
  settles_at? fun _ => settles_ite (h.bind fun _ => returns_pure) returns_pure

/-! ### Names and lists -/

theorem Settles.followed {p p' : Parser Tree} (h : Returns n p p') :
    Returns n (followed p) (followed p') :=
  h.bind fun _ => returns_takeSpace.bind fun _ => returns_pure

theorem returns_placeholder : Returns n placeholder placeholder :=
  returns_takeSpace.bind fun _ => returns_node.bind fun _ => returns_pure

theorem passesAt_anyName (hk : kindOf i.tokens ≠ .eof) : PassesAt n anyName anyName i :=
  settlesAt_takeSpace fun _ => PassesAt.bind (p := bump) (i := { i with gapTaken := true })
    (passesAt_bump hk) fun _ => returns_node

theorem returns_anyName : Returns n anyName anyName :=
  returns_takeSpace.bind fun _ => settles_text fun _ => returns_bump.bind fun _ => returns_node

theorem passes_identifier : Passes n identifier identifier := by
  refine fun i => settlesAt_choice (fun hk => passesAt_anyName ?_) (settles_fail i)
  rw [hk]
  nofun

theorem returns_elementsUntil {k : TokenKind} {p p' : Parser Tree} (h : Returns n p p') :
    Returns n (elementsUntil k p) (elementsUntil k p') := by
  refine settles_at? fun _ => settles_ite (returns_placeholder.bind fun _ => returns_pure) ?_
  refine Returns.bind h.followed fun _ => Returns.bind (returns_whileAt fun i hk => ?_) fun _ =>
    returns_pure
  refine (passesAt_bump_of hk nofun).bind fun _ => settles_at? fun _ =>
    settles_ite returns_placeholder (Settles.followed h.later)

theorem passes_delimited {k k' : TokenKind} {p p' : Parser Tree} (hk : k ≠ .eof) (hk' : k' ≠ .eof)
    (h : Returns (n - 1) p p') : Passes n (delimited k k' p) (delimited k k' p') :=
  (passes_expect hk).bind fun _ => (returns_elementsUntil h).bind fun _ =>
    (passes_expect hk').returns.bind fun _ => returns_pure

theorem passes_separatedBy {k : TokenKind} {p p' : Parser Tree} (hk : k ≠ .eof)
    (h : Passes n p p') : Passes n (separatedBy k p) (separatedBy k p') := by
  refine h.bind fun first =>
    Returns.bind (returns_repeating (fun c i => ?_) _) fun _ => returns_pure
  refine settlesAt_choice (fun hi => ?_) (settles_none i)
  refine SettlesAt.bind (passesAt_bump_of hi hk) fun _ => ?_
  exact Returns.bind (h.later.later) fun _ => settles_pure rfl

end Parser

end JavaSource
