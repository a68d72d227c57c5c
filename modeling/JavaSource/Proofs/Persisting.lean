import JavaSource.Proofs.Ahead
import JavaSource.Proofs.Renumbering
import JavaSource.Proofs.Run

/-!
# What a parser gives from a text that goes on

A parser persists (`Parser.Persists`) if it gives from a longer text what it gives from a text that ends
with the statement, as long as it does not come to the end.  It may come to the end, with answers that
leave nothing of the statement to read (`C`); and it may be run at the end, if the statement is over
there (`D`).  Of the statement alone this says that whatever brings it to such an end has read a token
that statements end with.

The trees from the longer text are those from the other one, moved (`Moves`).
-/

namespace JavaSource

/-! ### Moving what a parser gives -/

/-- Data that holds trees. -/
class Moves (α : Type) where
  /-- The data with trees from another place of another text. -/
  move : Nat → Option Space → α → α

export Moves (move)

section Instances

variable {α β : Type} [Moves α] [Moves β]

instance : Moves Tree := ⟨Tree.moved⟩

instance : Moves Space := ⟨fun _ front s => front.getD s⟩

instance : Moves Bool := ⟨fun _ _ b => b⟩

instance : Moves Unit := ⟨fun _ _ u => u⟩

instance : Moves (Followed α) := ⟨fun d front => Followed.map (move d front)⟩

instance : Moves (Preceded α) := ⟨fun d front => Preceded.map (move d front)⟩

-- in the form in which `Shape.map` goes through the lists and options of a layer
instance : Moves (List α) := ⟨fun d front as => Id.run (as.mapM fun a => pure (move d front a))⟩

instance : Moves (Option α) := ⟨fun d front o => Id.run (o.mapM fun a => pure (move d front a))⟩

instance : Moves (Series α) := ⟨fun d front s => ⟨s.before, s.elements.map (move d front)⟩⟩

instance : Moves (α × β) := ⟨fun d front c => (move d front c.1, move d front c.2)⟩

end Instances

section Move

variable {α β : Type} [Moves α] [Moves β] {d : Nat} {front : Option Space}

theorem move_list (as : List α) : move d front as = as.map (move d front) := run_list_mapM ..

theorem move_option (o : Option α) : move d front o = o.map (move d front) := run_option_mapM ..

@[simp] theorem move_nil : move d front ([] : List α) = [] := rfl

@[simp] theorem move_cons (a : α) (as : List α) :
    move d front (a :: as) = move d front a :: move d front as := by
  rw [move_list, move_list, List.map_cons]

@[simp] theorem move_append (as bs : List α) :
    move d front (as ++ bs) = move d front as ++ move d front bs := by
  rw [move_list, move_list, move_list, List.map_append]

@[simp] theorem move_reverse (as : List α) : move d front as.reverse = (move d front as).reverse := by
  rw [move_list, move_list, List.map_reverse]

@[simp] theorem isEmpty_move (as : List α) : (move d front as).isEmpty = as.isEmpty := by
  rw [move_list, List.isEmpty_map]

@[simp] theorem isSome_move (o : Option α) : (move d front o).isSome = o.isSome := by
  rw [move_option, Option.isSome_map]

@[simp] theorem isNone_move (o : Option α) : (move d front o).isNone = o.isNone := by
  rw [move_option, Option.isNone_map]

theorem move_series (before : Space) (as : List (Followed α)) :
    move d front (Series.mk before as) = ⟨before, move d front as⟩ := by
  rw [move_list]
  rfl

theorem move_zipWith_followed (ts : List Tree) (ss : List Space) :
    move d none (ts.zipWith Followed.mk ss) = (move d none ts).zipWith Followed.mk ss := by
  rw [move_list, move_list, List.map_zipWith, List.zipWith_map_left]
  rfl

@[simp] theorem move_option_space (o : Option Space) : move d none o = o := by
  cases o <;> rfl

/-- A layer moves as its parts do. -/
theorem move_node (i : NodeId) (s : Space) (x : Shape Tree) :
    move d front (Tree.node i s x) = .node (i + d) (front.getD s) (x.map (move d none)) :=
  Tree.moved_node i s x

@[simp] theorem needsSemicolon_move (t : Tree) : (move d front t).needsSemicolon = t.needsSemicolon :=
  t.needsSemicolon_moved

@[simp] theorem lift_move (t : Tree) :
    (move d front t).lift = (front.getD t.lift.1, move d none t.lift.2) :=
  Prod.ext t.leading_moved (t.withLeading_moved .empty)

end Move

/-! ### Inputs of the two texts -/

namespace Input

/-- Nothing but the end of the input is left. -/
def AtEnd (i : Input) : Prop := ∃ e, i.tokens = [e] ∧ e.kind = .eof

/-- What is left of the gap before the first token. -/
def space (i : Input) : Space := if i.gapTaken then .empty else .ofText (gapOf i.tokens)

/-- The tokens from the one input to the other are read. If `after` says so, the last of them is one
that statements end with; if there are none, `before` said so. -/
def Advances (before after : Prop) (i j : Input) : Prop :=
  ∃ us, i.tokens = us ++ j.tokens ∧ (∀ u ∈ us, u.kind ≠ .eof) ∧
    (after → (us = [] → before) ∧ ∀ u ∈ us.getLast?, u.kind.closes)

variable {i j k : Input} {D C E : Prop}

theorem Advances.refl (h : i.tokens = j.tokens) (hD : C → D) : i.Advances D C j :=
  ⟨[], h, nofun, fun hC => ⟨fun _ => hD hC, nofun⟩⟩

theorem Advances.trans (h : i.Advances D C j) (h' : j.Advances C E k) : i.Advances D E k := by
  obtain ⟨us, hi, heof, hlast⟩ := h
  obtain ⟨vs, hj, heof', hlast'⟩ := h'
  refine ⟨us ++ vs, by rw [hi, hj, List.append_assoc], ?_, fun hE => ?_⟩
  · intro u hu
    rcases List.mem_append.1 hu with hu | hu
    · exact heof u hu
    · exact heof' u hu
  · obtain ⟨hnone, hcloses⟩ := hlast' hE
    by_cases hvs : vs = []
    · subst hvs
      rw [List.append_nil]
      exact hlast (hnone rfl)
    · refine ⟨fun h => absurd (List.append_eq_nil_iff.1 h).2 hvs, ?_⟩
      rwa [List.getLast?_append_of_ne_nil us hvs]

/-- Behind the end there is nothing to read. -/
theorem Advances.atEnd (h : i.Advances D C j) (hi : i.AtEnd) : j.AtEnd ∧ (C → D) := by
  obtain ⟨us, htokens, heof, hlast⟩ := h
  obtain ⟨e, he, hk⟩ := hi
  obtain rfl : us = [] := by
    cases us with
    | nil => rfl
    | cons u us =>
      rw [he, List.cons_append] at htokens
      obtain rfl := (List.cons.inj htokens).1
      exact absurd hk (heof e (.head _))
  exact ⟨⟨e, htokens.symm.trans he, hk⟩, fun hC => (hlast hC).1 rfl⟩

end Input

/-- An input of a text that ends with a statement, and one of a text that goes on behind it.  In front of
the first token that is left there may be another space. -/
structure Sequel.Agree (q : Sequel) (front : Option Space) (i i' : Input) : Prop where
  ids : i'.nextId = i.nextId + q.shift
  tokens : q.Ahead i.tokens i'.tokens ∧ i'.space = front.getD i.space ∨
    i.AtEnd ∧ i'.tokens = q.tokens

theorem Sequel.Agree.length_le {q : Sequel} {front : Option Space} {i i' : Input}
    (h : q.Agree front i i') : i.tokens.length ≤ i'.tokens.length := by
  rcases h.tokens with ⟨hahead, -⟩ | ⟨⟨e, he, -⟩, hi'⟩
  · exact hahead.length_le
  · rw [he, hi']
    exact List.length_pos_iff.2 q.nonempty

namespace Parser

variable {α β : Type}

section Persists

variable [Moves α] (q : Sequel) (s r : Option Space) (D : Prop) (C : α → Prop) (p p' : Parser α)

/-- From these inputs the two parsers give the same. -/
def PersistsAt (i i' : Input) : Prop :=
  p.Ensures i fun a j => i.Advances D (C a) j ∧
    (q.Agree s i i' → (j.AtEnd → C a) →
      ∃ j', p'.run i' = .ok (move q.shift r a, j') ∧ q.Agree none j j')

/-- From inputs of the two texts the two parsers give the same. The space in front may be another one,
and `s` and `r` say which, at the start and in what is given. -/
def Persists : Prop := ∀ i i', PersistsAt q s r D C p p' i i'

/-- The two parsers give the same inside of the statement. -/
abbrev Inside : Prop := Persists q s r False (fun _ => False) p p'

end Persists

variable [Moves α] [Moves β] {q : Sequel} {s r t : Option Space} {D : Prop} {C : α → Prop}
  {E : β → Prop} {i i' : Input}

/-! ### Composing -/

theorem Persists.mono {p p' : Parser α} {D' : Prop} {C' : α → Prop} (h : Persists q s r D C p p')
    (hD : D → D') (hC : ∀ a, C' a → C a) : Persists q s r D' C' p p' := by
  refine fun i i' => Ensures.mono (h i i') fun a j ⟨⟨us, htokens, heof, hlast⟩, hagree⟩ => ⟨?_, ?_⟩
  · exact ⟨us, htokens, heof, fun ha => ⟨fun hus => hD ((hlast (hC a ha)).1 hus), (hlast (hC a ha)).2⟩⟩
  · exact fun hi hj => hagree hi fun hend => hC a (hj hend)

/-- What persists at the end of a statement persists inside of it. -/
theorem Persists.inside {p p' : Parser α} (h : Persists q s r False C p p') :
    Inside q s r p p' := h.mono id fun _ => False.elim

theorem PersistsAt.bind {p p' : Parser α} {f f' : α → Parser β}
    (hp : PersistsAt q s r D C p p' i i')
    (hf : ∀ a, Persists q none t (C a) E (f a) (f' (move q.shift r a))) :
    PersistsAt q s t D E (p >>= f) (p' >>= f') i i' := by
  refine ensures_bind.2 (Ensures.mono hp fun a j ⟨hadvances, hagree⟩ => ?_)
  intro b k hrun
  -- what is read first does not depend on the other text
  obtain ⟨hadvances', -⟩ := hf a j j b k hrun
  refine ⟨hadvances.trans hadvances', fun hi hk => ?_⟩
  obtain ⟨j', hj', hagreej⟩ := hagree hi fun hj =>
    (hadvances'.atEnd hj).2 (hk (hadvances'.atEnd hj).1)
  obtain ⟨k', hk', hagreek⟩ := (hf a j j' b k hrun).2 hagreej hk
  exact ⟨k', by rw [StateT.run_bind, hj']; exact hk', hagreek⟩

theorem Persists.bind {p p' : Parser α} {f f' : α → Parser β} (hp : Persists q s r D C p p')
    (hf : ∀ a, Persists q none t (C a) E (f a) (f' (move q.shift r a))) :
    Persists q s t D E (p >>= f) (p' >>= f') :=
  fun i i' => (hp i i').bind hf

theorem persists_pure {a a' : α} (h : move q.shift r a = a') (hC : C a → D) :
    Persists q none r D C (pure a) (pure a') := by
  subst h
  exact fun i i' => ensures_pure.2 ⟨.refl rfl hC, fun hi _ => ⟨i', rfl, hi⟩⟩

theorem Persists.ite {p p' p₁ p₁' : Parser α} {b : Prop} [Decidable b]
    (hp : Persists q s r D C p p') (hp₁ : Persists q s r D C p₁ p₁') :
    Persists q s r D C (if b then p else p₁) (if b then p' else p₁') := by
  split
  · exact hp
  · exact hp₁

theorem persists_throw {e : SyntaxError} {p' : Parser α} :
    Persists q s r D C (throw e) p' := fun _ _ => ensures_throw

theorem persists_failAt {ts : List Token} {x : Expectation} {p' : Parser α} :
    Persists q s r D C (failAt ts x) p' := fun _ _ => ensures_failAt

theorem persists_fail {x : Expectation} {p' : Parser α} : Persists q s r D C (fail x) p' :=
  fun _ _ => ensures_fail

theorem persists_node {front : Space} {x x' : Shape Tree} {C : Tree → Prop}
    (hx : x.map (move q.shift none) = x') (hC : ∀ i, C (.node i front x) → D) :
    Persists q none r D C (node front x) (node (r.getD front) x') := by
  subst hx
  refine fun i i' => ensures_node.2 ⟨.refl rfl (hC _), fun hi hj => ?_⟩
  refine ⟨{ i' with nextId := i'.nextId + 1 }, ?_, ?_⟩
  · rw [move_node, ← hi.ids]
    rfl
  · exact ⟨(congrArg Nat.succ hi.ids).trans (Nat.succ_add ..).symm, hi.tokens⟩

theorem inside_node {front : Space} {x x' : Shape Tree} (hx : x.map (move q.shift none) = x') :
    Inside q none r (node front x) (node (r.getD front) x') := persists_node hx fun _ => id

/-! ### Looking -/

theorem PersistsAt.congr {p p' P P' : Parser α} (h : PersistsAt q s r D C p p' i i')
    (hp : P.run i = p.run i)
    (hp' : q.Agree s i i' → (i.AtEnd → D) → P'.run i' = p'.run i') :
    PersistsAt q s r D C P P' i i' := by
  intro a j hrun
  obtain ⟨hadvances, hagree⟩ := h a j (hp.symm.trans hrun)
  refine ⟨hadvances, fun hi hj => ?_⟩
  rw [hp' hi fun hend => (hadvances.atEnd hend).2 (hj (hadvances.atEnd hend).1)]
  exact hagree hi hj

/-- Inside of a statement it does not matter what is done at its end. -/
theorem PersistsAt.congr_ahead {p p' P P' : Parser α} (h : PersistsAt q s r False C p p' i i')
    (hp : P.run i = p.run i) (hp' : q.Ahead i.tokens i'.tokens → P'.run i' = p'.run i') :
    PersistsAt q s r False C P P' i i' := by
  refine h.congr hp fun hi hend => ?_
  rcases hi.tokens with ⟨hahead, -⟩ | ⟨h, -⟩
  · exact hp' hahead
  · exact (hend h).elim

theorem persistsAt_peek {f f' : TokenKind → Parser α}
    (h : PersistsAt q s r False C (f (kindOf i.tokens)) (f' (kindOf i.tokens)) i i') :
    PersistsAt q s r False C (peek >>= f) (peek >>= f') i i' := by
  refine h.congr_ahead rfl fun hahead => ?_
  rw [← hahead.kindOf_eq]
  rfl

theorem persists_peek {f f' : TokenKind → Parser α}
    (h : ∀ k, Persists q s r False C (f k) (f' k)) :
    Persists q s r False C (peek >>= f) (peek >>= f') :=
  fun i i' => persistsAt_peek (h _ i i')

theorem persists_at? {k : TokenKind} {f f' : Bool → Parser α}
    (h : ∀ b, Persists q s r False C (f b) (f' b)) :
    Persists q s r False C (at? k >>= f) (at? k >>= f') := by
  intro i i'
  refine (h (kindOf i.tokens == k) i i').congr_ahead rfl fun hahead => ?_
  rw [← hahead.kindOf_eq]
  rfl

/-- The second token matters only behind a first one that no statement ends with. -/
theorem persistsAt_peekNext_and {b : Bool} {k : TokenKind} {p p' p₁ p₁' : Parser α}
    (hb : b → (kindOf i.tokens).closes = false) (hp : PersistsAt q s r False C p p' i i')
    (hp₁ : PersistsAt q s r False C p₁ p₁' i i') :
    PersistsAt q s r False C (peekNext >>= fun n => if b && n == k then p else p₁)
      (peekNext >>= fun n => if b && n == k then p' else p₁') i i' := by
  have hboth (b : Bool) :
      PersistsAt q s r False C (if b then p else p₁) (if b then p' else p₁') i i' := by
    cases b
    · exact hp₁
    · exact hp
  refine (hboth (b && kindOf (i.tokens.drop 1) == k)).congr_ahead rfl fun hahead => ?_
  have heq : (b && kindOf (i'.tokens.drop 1) == k) = (b && kindOf (i.tokens.drop 1) == k) := by
    cases b with
    | false => rfl
    | true => rw [hahead.kindOf_tail (hb rfl)]
  rw [← heq]
  rfl

/-- Two tokens ahead, the first of which is none that statements end with. -/
theorem persists_both {k k' : TokenKind} {p p' p₁ p₁' : Parser α} (hk : k.closes = false)
    (hp : Persists q s r False C p p') (hp₁ : Persists q s r False C p₁ p₁') :
    Persists q s r False C
      (at? k >>= fun b => peekNext >>= fun n => if b && n == k' then p else p₁)
      (at? k >>= fun b => peekNext >>= fun n => if b && n == k' then p' else p₁') := by
  intro i i'
  have hfirst : kindOf i.tokens == k → (kindOf i.tokens).closes = false := fun hi => by
    rw [beq_iff_eq.1 hi, hk]
  refine (persistsAt_peekNext_and (k := k') hfirst (hp i i') (hp₁ i i')).congr_ahead rfl
    fun hahead => ?_
  rw [← hahead.kindOf_eq]
  rfl

theorem persistsAt_peekNext {f f' : TokenKind → Parser α} (hk : (kindOf i.tokens).closes = false)
    (h : ∀ n, Persists q s r False C (f n) (f' n)) :
    PersistsAt q s r False C (peekNext >>= f) (peekNext >>= f') i i' := by
  refine (h (kindOf (i.tokens.drop 1)) i i').congr_ahead rfl fun hahead => ?_
  rw [← hahead.kindOf_tail hk]
  rfl

theorem persistsAt_tokens {f f' : List Token → Parser α}
    (h : ∀ ts', q.Alike i.tokens ts' → PersistsAt q s r False C (f i.tokens) (f' ts') i i') :
    PersistsAt q s r False C (tokens >>= f) (tokens >>= f') i i' := by
  by_cases hahead : q.Ahead i.tokens i'.tokens
  · exact (h i'.tokens (.inr hahead)).congr_ahead rfl fun _ => rfl
  · exact (h i.tokens (.inl rfl)).congr_ahead rfl fun h => absurd h hahead

theorem persists_tokens {f f' : List Token → Parser α}
    (h : ∀ ts ts', q.Alike ts ts' → Persists q s r False C (f ts) (f' ts')) :
    Persists q s r False C (tokens >>= f) (tokens >>= f') :=
  fun i i' => persistsAt_tokens fun ts' hts => h i.tokens ts' hts i i'

theorem persists_text {f f' : Text → Parser α} (h : ∀ t, Persists q s r False C (f t) (f' t)) :
    Persists q s r False C (text >>= f) (text >>= f') := by
  intro i i'
  refine (h ((i.tokens.head?.map Token.text).getD []) i i').congr_ahead rfl fun hahead => ?_
  rw [← hahead.text_eq]
  rfl

/-! ### Taking -/

theorem run_takeSpace (i : Input) :
    takeSpace.run i = .ok (i.space, { i with gapTaken := true }) := by
  obtain ⟨ts, taken, n⟩ := i
  cases taken <;> rfl

theorem inside_takeSpace : Inside q s s takeSpace takeSpace := by
  intro i i' a j hrun
  rw [run_takeSpace] at hrun
  cases hrun
  refine ⟨.refl rfl id, fun hi hj => ⟨{ i' with gapTaken := true }, ?_, hi.ids, ?_⟩⟩
  · rcases hi.tokens with ⟨-, hspace⟩ | ⟨hend, -⟩
    · rw [run_takeSpace, hspace]
      rfl
    · exact (hj hend).elim
  · rcases hi.tokens with ⟨hahead, -⟩ | hend
    · exact .inl ⟨hahead, rfl⟩
    · exact .inr hend

theorem run_bump {t : Token} {ts : List Token} (ht : i.tokens = t :: ts) (hk : t.kind ≠ .eof) :
    bump.run i = .ok (i.space, ⟨ts, false, i.nextId⟩) := by
  have hok {γ δ : Type} (c : γ) (f : γ → Except SyntaxError δ) : (Except.ok c >>= f) = f c := rfl
  simp only [bump, StateT.run_bind, run_takeSpace, hok, StateT.run_get, pure_bind, ht, if_pos hk,
    StateT.run_set, StateT.run_pure]
  rfl

theorem run_expect {k : TokenKind} {t : Token} {ts : List Token} (ht : i.tokens = t :: ts)
    (hk : t.kind = k) (heof : k ≠ .eof) :
    (expect k).run i = .ok (i.space, ⟨ts, false, i.nextId⟩) := by
  have hat : (at? k).run i = .ok (true, i) := by
    change Except.ok (kindOf i.tokens == k, i) = _
    rw [ht, ← hk]
    exact congrArg (fun b => Except.ok (b, i)) (beq_self_eq_true t.kind)
  rw [expect, run_bind_ok hat]
  exact run_bump ht (hk ▸ heof)

/-- A token is passed in both texts. Only behind one that statements end with there can be nothing of
the statement left to read. -/
theorem persistsAt_bump {C : Space → Prop} (hk : kindOf i.tokens ≠ .eof)
    (hC : ∀ s, C s → (kindOf i.tokens).closes) : PersistsAt q s s False C bump bump i i' := by
  cases ht : i.tokens with
  | nil => exact absurd (by rw [ht]; rfl) hk
  | cons t ts =>
    replace hk : t.kind ≠ .eof := by rwa [ht] at hk
    replace hC : ∀ s, C s → t.kind.closes := by rwa [ht] at hC
    intro a j hrun
    rw [run_bump ht hk] at hrun
    cases hrun
    refine ⟨⟨[t], ht, by simpa using hk, fun hc => ⟨nofun, by simpa using hC _ hc⟩⟩, fun hi hj => ?_⟩
    obtain ⟨hids, ⟨hahead, hspace⟩ | ⟨⟨e, he, hend⟩, -⟩⟩ := hi
    · rw [ht] at hahead
      generalize hts : i'.tokens = ts' at hahead
      cases hahead with
      | @last _ t' e hkind htext hcloses he =>
        refine ⟨⟨q.tokens, false, i'.nextId⟩, ?_, hids, .inr ⟨⟨e, rfl, he⟩, rfl⟩⟩
        rw [run_bump hts (hkind ▸ hk), hspace]
        rfl
      | @next _ t' _ ts' hkind htext _ hgap h =>
        refine ⟨⟨ts', false, i'.nextId⟩, ?_, hids, .inl ⟨h, congrArg Space.ofText hgap⟩⟩
        rw [run_bump hts (hkind ▸ hk), hspace]
        rfl
    · rw [ht] at he
      obtain ⟨rfl, rfl⟩ := List.cons.inj he
      exact absurd hend hk

theorem inside_bump : Inside q s s bump bump := by
  intro i i'
  by_cases hk : kindOf i.tokens = .eof
  · refine ensures_bump (fun t ts s ht hne => ?_) fun _ s j htokens _ => ?_
    · rw [ht] at hk
      exact absurd hk hne
    · refine ⟨.refl htokens.symm id, fun hi hj => ?_⟩
      rcases hi.tokens with ⟨hahead, -⟩ | ⟨⟨e, he, hend⟩, -⟩
      · exact absurd hk hahead.kindOf_ne_eof
      · exact (hj ⟨e, htokens.trans he, hend⟩).elim
  · exact persistsAt_bump hk fun _ => False.elim

/-- What comes behind a token of this kind. -/
theorem persistsAt_at? {k : TokenKind} {p p' p₁ p₁' : Parser α}
    (hp : kindOf i.tokens = k → PersistsAt q s r False C p p' i i')
    (hp₁ : PersistsAt q s r False C p₁ p₁' i i') :
    PersistsAt q s r False C (at? k >>= fun b => if b then p else p₁)
      (at? k >>= fun b => if b then p' else p₁') i i' := by
  by_cases hk : kindOf i.tokens = k
  · refine (hp hk).congr_ahead ?_ fun hahead => ?_
    · change StateT.run (if kindOf i.tokens == k then p else p₁) i = _
      rw [hk, if_pos (beq_self_eq_true k)]
    · change StateT.run (if kindOf i'.tokens == k then p' else p₁') i' = _
      rw [hahead.kindOf_eq, hk, if_pos (beq_self_eq_true k)]
  · refine hp₁.congr_ahead ?_ fun hahead => ?_
    · change StateT.run (if kindOf i.tokens == k then p else p₁) i = _
      rw [if_neg (by simpa using hk)]
    · change StateT.run (if kindOf i'.tokens == k then p' else p₁') i' = _
      rw [hahead.kindOf_eq, if_neg (by simpa using hk)]

theorem persists_expect {k : TokenKind} (hk : k.closes) {C : Space → Prop} :
    Persists q s s False C (expect k) (expect k) := by
  refine fun i i' => persistsAt_at? (fun hi => persistsAt_bump ?_ fun _ _ => hi ▸ hk)
    (persists_fail i i')
  rintro hend
  rw [hi.symm.trans hend] at hk
  cases hk

theorem inside_expect {k : TokenKind} : Inside q s s (expect k) (expect k) :=
  persists_at? fun _ => .ite inside_bump persists_fail

theorem inside_skip (n : Nat) : Inside q none none (skip n) (skip n) := by
  induction n with
  | zero => exact persists_pure rfl id
  | succ n ih => exact inside_bump.bind fun _ => ih

/-! ### Loops -/

/-- A loop has as many rounds left as there are tokens, and those of a longer text are more. -/
theorem persists_rounds {P Q : Nat → Parser α}
    (h : ∀ n n', n ≤ n' → Persists q s r D C (P n) (Q n')) :
    Persists q s r D C (tokens >>= fun ts => P (ts.length + 1))
      (tokens >>= fun ts => Q (ts.length + 1)) := by
  intro i i' a j hrun
  refine ⟨(h _ _ (Nat.le_refl _) i i' a j hrun).1, fun hi hj => ?_⟩
  exact (h _ _ (Nat.succ_le_succ hi.length_le) i i' a j hrun).2 hi hj

theorem inside_repeating {step step' : α → Parser (Option α)}
    (h : ∀ a, Inside q none r (step a) (step' (move q.shift r a))) (a : α) :
    Inside q none r (repeating a step) (repeating (move q.shift r a) step') := by
  refine persists_rounds (P := fun n => repeatWithin step n a)
    (Q := fun n => repeatWithin step' n (move q.shift r a)) fun n n' hn => ?_
  induction n generalizing n' a with
  | zero => exact persists_throw
  | succ n ih =>
    obtain ⟨n', rfl⟩ := Nat.exists_eq_succ_of_ne_zero (n := n') (by omega)
    refine (h a).bind fun o => ?_
    cases o with
    | none => exact persists_pure rfl id
    | some b => exact ih b n' (by omega)

/-- Items that leave nothing of the statement to read may be the last ones. -/
theorem persists_collecting {D : Prop} {item item' : Parser (Option α)}
    (h : Persists q none none D (fun _ => D) item item') :
    Persists q none none D (fun _ => D) (collecting item) (collecting item') := by
  refine persists_rounds (P := collectWithin item) (Q := collectWithin item') fun n n' hn => ?_
  induction n generalizing n' with
  | zero => exact persists_throw
  | succ n ih =>
    obtain ⟨n', rfl⟩ := Nat.exists_eq_succ_of_ne_zero (n := n') (by omega)
    refine h.bind fun o => ?_
    cases o with
    | none => exact persists_pure rfl id
    | some a => exact (ih n' (by omega)).bind fun as => persists_pure (move_cons a as) id

/-- An item of another kind than what follows the statement, where the statement may be over. -/
theorem persists_ifAt {C : Option α → Prop} {k : TokenKind} {item item' : Parser α} (heof : k ≠ .eof)
    (hk : D → kindOf q.tokens ≠ k) (hC : C none → D)
    (h : Persists q none none False (fun a => C (some a)) item item') :
    Persists q none none D C (ifAt k item) (ifAt k item') := by
  have hsome : Persists q none none False C (item >>= fun a => pure (some a))
      (item' >>= fun a => pure (some a)) := h.bind fun a => persists_pure rfl id
  have hnone : Persists q none none D C (pure (none : Option α)) (pure none) := persists_pure rfl hC
  intro i i'
  by_cases hi : kindOf i.tokens = k
  · refine PersistsAt.congr (hsome.mono False.elim (fun _ h => h) i i') ?_ fun hagree _ => ?_
    · change StateT.run (if kindOf i.tokens == k then _ else _) i = _
      rw [hi, if_pos (beq_self_eq_true k)]
    · change StateT.run (if kindOf i'.tokens == k then _ else _) i' = _
      rcases hagree.tokens with ⟨hahead, -⟩ | ⟨⟨e, he, hend⟩, -⟩
      · rw [hahead.kindOf_eq, hi, if_pos (beq_self_eq_true k)]
      · rw [he] at hi
        exact absurd (hi.symm.trans hend) heof
  · refine PersistsAt.congr (hnone i i') ?_ fun hagree hD => ?_
    · change StateT.run (if kindOf i.tokens == k then _ else _) i = _
      rw [if_neg (by simpa using hi)]
    · change StateT.run (if kindOf i'.tokens == k then _ else _) i' = _
      have hi' : kindOf i'.tokens ≠ k := by
        rcases hagree.tokens with ⟨hahead, -⟩ | ⟨hend, hi'⟩
        · rwa [hahead.kindOf_eq]
        · rw [hi']
          exact hk (hD hend)
      rw [if_neg (by simpa using hi')]

theorem inside_ifAt {k : TokenKind} {item item' : Parser α} (heof : k ≠ .eof)
    (h : Inside q none none item item') : Inside q none none (ifAt k item) (ifAt k item') :=
  persists_ifAt heof False.elim id h

/-- What can end the statement, and what follows it is of another kind. -/
theorem persists_ifAt_last {k : TokenKind} {item item' : Parser α} (heof : k ≠ .eof)
    (hk : kindOf q.tokens ≠ k) (h : Persists q none none False (fun _ => True) item item') :
    Persists q none none True (fun _ => True) (ifAt k item) (ifAt k item') :=
  persists_ifAt heof (fun _ => hk) id h

theorem inside_whileAt {k : TokenKind} {item item' : Parser α} (heof : k ≠ .eof)
    (h : Inside q none none item item') : Inside q none none (whileAt k item) (whileAt k item') :=
  persists_collecting (persists_ifAt heof False.elim id h)

theorem persists_whileAt_last {k : TokenKind} {item item' : Parser α} (heof : k ≠ .eof)
    (hk : kindOf q.tokens ≠ k) (h : Persists q none none False (fun _ => True) item item') :
    Persists q none none True (fun _ => True) (whileAt k item) (whileAt k item') :=
  persists_collecting (persists_ifAt heof (fun _ => hk) id h)

/-! ### Names and lists -/

theorem inside_followed {p p' : Parser Tree} (h : Inside q none none p p') :
    Inside q none none (followed p) (followed p') :=
  h.bind fun _ => inside_takeSpace.bind fun _ => persists_pure rfl id

theorem inside_placeholder : Inside q none none placeholder placeholder :=
  inside_takeSpace.bind fun _ => (inside_node rfl).bind fun _ => persists_pure rfl id

theorem inside_anyName : Inside q s s anyName anyName :=
  inside_takeSpace.bind fun _ => persists_text fun _ => inside_bump.bind fun _ =>
    inside_node rfl

theorem inside_identifier : Inside q s s identifier identifier :=
  persists_at? fun _ => .ite inside_anyName persists_fail

theorem inside_elementsUntil {k : TokenKind} {p p' : Parser Tree} (h : Inside q none none p p') :
    Inside q none none (elementsUntil k p) (elementsUntil k p') := by
  have hfirst := inside_followed h
  refine persists_at? fun _ => .ite ?_ ?_
  · exact inside_placeholder.bind fun x => persists_pure (by simp) id
  · refine hfirst.bind fun x => (inside_whileAt (by nofun) ?_).bind fun xs => persists_pure (by simp) id
    exact inside_bump.bind fun _ => persists_at? fun _ => .ite inside_placeholder hfirst

theorem inside_delimited {k k' : TokenKind} {p p' : Parser Tree} (h : Inside q none none p p') :
    Inside q none none (delimited k k' p) (delimited k k' p') :=
  inside_expect.bind fun before => (inside_elementsUntil h).bind fun xs => inside_expect.bind fun _ =>
    persists_pure (move_series before xs) id

theorem inside_separatedBy {k : TokenKind} {p p' : Parser Tree} (h : Inside q none none p p') :
    Inside q none none (separatedBy k p) (separatedBy k p') := by
  refine h.bind fun first => (inside_repeating (fun c => ?_) (first, [])).bind fun c =>
    persists_pure ?_ id
  · obtain ⟨current, earlier⟩ := c
    refine persists_at? fun _ => .ite ?_ (persists_pure rfl id)
    refine inside_bump.bind fun after => h.bind fun next => persists_pure ?_ id
    exact congrArg some (Prod.ext rfl (move_cons ..))
  · obtain ⟨last, earlier⟩ := c
    rw [move_reverse, move_cons]
    rfl

end Parser

end JavaSource
