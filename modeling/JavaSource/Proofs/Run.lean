import JavaSource.Grammar.Parse

/-!
# What a step of a parse ensures
-/

namespace JavaSource

namespace Parser

variable {α β : Type}

/-- Whatever the parser gives from the input, the answer and the input after it are as `post`
says. -/
def Ensures (p : Parser α) (i : Input) (post : α → Input → Prop) : Prop :=
  ∀ a j, p.run i = .ok (a, j) → post a j

theorem Ensures.mono {p : Parser α} {i : Input} {P Q : α → Input → Prop} (h : p.Ensures i P)
    (hPQ : ∀ a j, P a j → Q a j) : p.Ensures i Q :=
  fun a j hr => hPQ a j (h a j hr)

theorem Ensures.and {p : Parser α} {i : Input} {P Q : α → Input → Prop} (hP : p.Ensures i P)
    (hQ : p.Ensures i Q) : p.Ensures i fun a j => P a j ∧ Q a j :=
  fun a j hr => ⟨hP a j hr, hQ a j hr⟩

theorem ensures_run {p : Parser α} {i : Input} :
    p.Ensures i fun a j => p.run i = .ok (a, j) := fun _ _ hr => hr

@[simp] theorem ensures_pure {a : α} {i : Input} {Q : α → Input → Prop} :
    Ensures (pure a) i Q ↔ Q a i := by
  constructor
  · intro h; exact h a i rfl
  · rintro h _ _ ⟨⟩; exact h

@[simp] theorem ensures_bind {p : Parser α} {f : α → Parser β} {i : Input}
    {Q : β → Input → Prop} :
    Ensures (p >>= f) i Q ↔ p.Ensures i fun a j => (f a).Ensures j Q := by
  constructor
  · intro h a j hp b k hf
    refine h b k ?_
    rw [StateT.run_bind, hp]
    exact hf
  · intro h b k hr
    rw [StateT.run_bind] at hr
    cases hp : p.run i with
    | error e => rw [hp] at hr; cases hr
    | ok r => rw [hp] at hr; exact h r.1 r.2 hp b k hr

theorem run_bind_ok {p : Parser α} {f : α → Parser β} {i j : Input} {a : α}
    (h : p.run i = .ok (a, j)) : (p >>= f).run i = (f a).run j := by
  rw [StateT.run_bind, h]
  rfl

@[simp] theorem ensures_get {i : Input} {Q : Input → Input → Prop} :
    Ensures (get : Parser Input) i Q ↔ Q i i := ensures_pure (a := i)

@[simp] theorem ensures_set {i j : Input} {Q : Unit → Input → Prop} :
    Ensures (set j : Parser Unit) i Q ↔ Q ⟨⟩ j := by
  constructor
  · intro h; exact h ⟨⟩ j rfl
  · rintro h _ _ ⟨⟩; exact h

@[simp] theorem ensures_throw {e : SyntaxError} {i : Input} {Q : α → Input → Prop} :
    Ensures (throw e) i Q := by
  rintro _ _ ⟨⟩

theorem ensures_ite {c : Prop} [Decidable c] {p q : Parser α} {i : Input}
    {Q : α → Input → Prop} :
    Ensures (if c then p else q) i Q ↔ (c → p.Ensures i Q) ∧ (¬ c → q.Ensures i Q) := by
  split <;> simp_all

@[simp] theorem ensures_tokens {i : Input} {Q : List Token → Input → Prop} :
    Ensures tokens i Q ↔ Q i.tokens i := by
  simp only [tokens, ensures_bind, ensures_get, ensures_pure]

@[simp] theorem ensures_peek {i : Input} {Q : TokenKind → Input → Prop} :
    Ensures peek i Q ↔ Q (kindOf i.tokens) i := by
  simp only [peek, ensures_bind, ensures_get, ensures_pure]

@[simp] theorem ensures_peekNext {i : Input} {Q : TokenKind → Input → Prop} :
    Ensures peekNext i Q ↔ Q (kindOf (i.tokens.drop 1)) i := by
  simp only [peekNext, ensures_bind, ensures_get, ensures_pure]

@[simp] theorem ensures_at? {k : TokenKind} {i : Input} {Q : Bool → Input → Prop} :
    Ensures (at? k) i Q ↔ Q (kindOf i.tokens == k) i := by
  simp only [at?, ensures_bind, ensures_peek, ensures_pure]

@[simp] theorem ensures_text {i : Input} {Q : Text → Input → Prop} :
    Ensures text i Q ↔ Q ((i.tokens.head?.map Token.text).getD []) i := by
  simp only [text, ensures_bind, ensures_get, ensures_pure]

@[simp] theorem ensures_failAt {ts : List Token} {x : Expectation} {i : Input}
    {Q : α → Input → Prop} : Ensures (failAt ts x) i Q := by
  unfold failAt
  cases ts with
  | nil => exact ensures_throw
  | cons t ts => dsimp only; split <;> exact ensures_throw

@[simp] theorem ensures_fail {x : Expectation} {i : Input} {Q : α → Input → Prop} :
    Ensures (fail x) i Q := by
  simp only [fail, ensures_bind, ensures_tokens, ensures_failAt]

@[simp] theorem ensures_node {s : Space} {x : Shape Tree} {i : Input} {Q : Tree → Input → Prop} :
    Ensures (node s x) i Q ↔ Q (.node i.nextId s x) { i with nextId := i.nextId + 1 } := by
  simp only [node, ensures_bind, ensures_get, ensures_set, ensures_pure]

theorem ensures_takeSpace {i : Input} {Q : Space → Input → Prop}
    (h : ∀ s j, j.tokens = i.tokens → j.nextId = i.nextId → Q s j) : takeSpace.Ensures i Q := by
  simp only [takeSpace, ensures_bind, ensures_get, ensures_ite, ensures_pure, ensures_set]
  exact ⟨fun _ => h _ _ rfl rfl, fun _ => h _ _ rfl rfl⟩

theorem ensures_bump {i : Input} {Q : Space → Input → Prop}
    (hpast : ∀ t ts s, i.tokens = t :: ts → t.kind ≠ .eof → Q s ⟨ts, false, i.nextId⟩)
    (hstay : kindOf i.tokens = .eof → ∀ s j, j.tokens = i.tokens → j.nextId = i.nextId → Q s j) :
    bump.Ensures i Q := by
  rw [bump]
  refine ensures_bind.2 (ensures_takeSpace fun s j htokens hid => ?_)
  rw [ensures_bind, ensures_get]
  cases ht : j.tokens with
  | nil => exact ensures_pure.2 (hstay (by rw [← htokens, ht]; rfl) s j htokens hid)
  | cons t ts =>
    rw [htokens] at ht
    simp only [ensures_bind, ensures_ite, ensures_set, ensures_pure, hid]
    refine ⟨hpast t ts s ht, fun heof => hstay ?_ s j htokens hid⟩
    rw [ht]
    exact Decidable.not_not.1 heof

end Parser

/-- What is parsed is what the production for the kind of text gives. -/
theorem exists_run_of_parseFrom {kind : SourceKind} {source : Text}
    {firstId nextId : NodeId} {t : Tree} (h : parseFrom kind source firstId = .ok (t, nextId)) :
    ∃ ts j, lex source = .ok ts ∧ j.nextId = nextId ∧
      (kind.parser (grammar (ts.length + 1))).run ⟨ts, false, firstId⟩ = .ok (t, j) := by
  cases hl : lex source with
  | error e => rw [parseFrom, hl] at h; cases h
  | ok ts =>
    rw [parseFrom, hl] at h
    change parseTokens kind ts firstId = .ok (t, nextId) at h
    rw [parseTokens] at h
    cases hr : (kind.parser (grammar (ts.length + 1))).run ⟨ts, false, firstId⟩ with
    | error e => rw [hr] at h; cases h
    | ok r =>
      rw [hr] at h
      cases h
      exact ⟨ts, r.2, rfl, rfl, hr⟩

/-- A result with a property is there. -/
theorem exists_of_toOption_any {ε α : Type} {x : Except ε α} {p : α → Bool}
    (h : x.toOption.any p) : ∃ a, x = .ok a ∧ p a := by
  cases x with
  | error e => cases h
  | ok a => exact ⟨a, rfl, h⟩

/-- What is parsed from a text, and that it has a property, can be found out by parsing it. -/
theorem exists_parseFrom {kind : SourceKind} {source : Text} {firstId : NodeId} {p : Tree → Bool}
    (h : (parseFrom kind source firstId).toOption.any fun r => p r.1) :
    ∃ t nextId, parseFrom kind source firstId = .ok (t, nextId) ∧ p t := by
  cases hr : parseFrom kind source firstId with
  | error e => rw [hr] at h; cases h
  | ok r => rw [hr] at h; exact ⟨r.1, r.2, rfl, h⟩

end JavaSource
