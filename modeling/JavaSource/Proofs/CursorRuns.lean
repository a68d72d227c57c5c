import JavaSource.Visit.Cursor
import Mathlib.Data.List.Perm.Subperm

/-!
# Runs with cursors

Two families hold cursors of one table and take turns: each step is an operation of one of them on
one of its cursors, and the cursor that the operation gives, if any, is a further one of that
family.

* `CursorOp.table_run`, `CursorOp.cursor_run`, `CursorOp.among_path`: all that an operation does is
  a `CursorChange` of frames on the way up from its cursor.
* `CursorRun.message?_after`: the message under a key on a frame is the one that the run has left
  there.
* `CursorRun.count_taken`: no message is taken more often than it was put.
* `CursorTable.Ordered.nearest?_eq_some_iff`: the nearest message is that of the first frame on the
  way up with one of the type.
-/

namespace JavaSource

namespace CursorTable

/-! ### The frames of a table -/

variable (table : CursorTable)

theorem getElem?_add (value : FrameValue) (parent : Option Cursor) (x : Cursor) :
    (table.add value parent).2.frames[x]? =
      if x = table.frames.size then some ⟨value, parent, []⟩ else table.frames[x]? :=
  Array.getElem?_push

theorem size_add (value : FrameValue) (parent : Option Cursor) :
    (table.add value parent).2.frames.size = table.frames.size + 1 := Array.size_push _

theorem getElem?_modifyMessages (c : Cursor) (f : List (String × Message) → List (String × Message))
    (x : Cursor) : (table.modifyMessages c f).frames[x]? =
      if c = x then (table.frames[x]?).map fun frame => { frame with messages := f frame.messages }
      else table.frames[x]? :=
  Array.getElem?_modify

theorem size_modifyMessages (c : Cursor) (f : List (String × Message) → List (String × Message)) :
    (table.modifyMessages c f).frames.size = table.frames.size := Array.size_modify

/-- Adds a frame for each value, the last one below `above` and each other one below the next;
gives the frame of the first. -/
def grow (table : CursorTable) (above : Option Cursor) :
    List FrameValue → Option Cursor × CursorTable
  | [] => (above, table)
  | value :: values =>
    let r := table.grow above values
    let r' := r.2.add value r.1
    (some r'.1, r'.2)

/-- Takes what is under the key off a frame. -/
def take (c : Cursor) (key : String) : CursorTable :=
  table.modifyMessages c fun ms => ms.filter fun e => e.1 != key

/-- A fork is a new chain of frames. -/
theorem fork_eq (c : Cursor) :
    table.fork c =
      ((table.grow none (table.values c)).1.getD c, (table.grow none (table.values c)).2) := by
  have hfold (values : List FrameValue) :
      values.foldr (fun value (r : Option Cursor × CursorTable) =>
        (some (r.2.add value r.1).1, (r.2.add value r.1).2)) (none, table) =
        table.grow none values := by
    induction values with
    | nil => rfl
    | cons value values ih => rw [List.foldr_cons, ih]; rfl
  rw [← hfold]
  rfl

end CursorTable

/-! ### Operations -/

/-- An operation on a cursor. -/
inductive CursorOp where
  /-- A chain of its own. -/
  | root
  | push (value : FrameValue)
  | clone
  | parent
  | fork
  | put (key : String) (m : Message)
  | get (key : String) (type : MessageType)
  | poll (key : String) (type : MessageType)
  | nearest (key : String) (type : MessageType)
  | pollNearest (key : String) (type : MessageType)
  | putOnEnclosing (p : Tree → Bool) (key : String) (m : Message)

/-- What an operation answers. Cursors are told apart by what is found with them only. -/
inductive CursorAnswer where
  /-- The family holds no such cursor. -/
  | absent
  | done
  | found (b : Bool)
  | message (m : Option Message)
deriving DecidableEq

/-- What an operation does to the frames. -/
inductive CursorChange where
  | none
  | put (frame : Cursor) (key : String) (m : Message)
  | take (frame : Cursor) (key : String) (m : Message)
  | grow (above : Option Cursor) (values : List FrameValue)

namespace CursorOp

/-- The answer to an operation on a cursor, the cursor that it gives, and the frames afterwards. -/
def run (table : CursorTable) (c : Cursor) :
    CursorOp → CursorAnswer × Option Cursor × CursorTable
  | root => let r := table.root; (.done, some r.1, r.2)
  | push value => let r := table.push c value; (.done, some r.1, r.2)
  | clone => (.done, some c, table)
  | parent => (.found (table.parent? c).isSome, table.parent? c, table)
  | fork => let r := table.fork c; (.done, some r.1, r.2)
  | put key m => (.done, none, table.put c key m)
  | get key type => (.message (table.get? c key type), none, table)
  | poll key type => let r := table.poll c key type; (.message r.1, none, r.2)
  | nearest key type => (.message (table.nearest? c key type), none, table)
  | pollNearest key type => let r := table.pollNearest c key type; (.message r.1, none, r.2)
  | putOnEnclosing p key m => let r := table.putOnEnclosing p c key m; (.found r.1, none, r.2)

/-- What the operation does to the frames. -/
def change (table : CursorTable) (c : Cursor) : CursorOp → CursorChange
  | root => .grow none [.root]
  | push value => .grow (some c) [value]
  | fork => .grow none (table.values c)
  | put key m => .put c key m
  | poll key type => ((table.get? c key type).map (.take c key)).getD .none
  | pollNearest key type =>
    ((table.nearestHolder? c key type).bind fun f =>
      (table.get? f key type).map (.take f key)).getD .none
  | putOnEnclosing p key m => ((table.enclosing? p c).map (.put · key m)).getD .none
  | clone | parent | get _ _ | nearest _ _ => .none

end CursorOp

namespace CursorChange

/-- The frames after a change. -/
def apply (table : CursorTable) : CursorChange → CursorTable
  | none => table
  | put frame key m => table.put frame key m
  | take frame key _ => table.take frame key
  | grow above values => (table.grow above values).2

/-- The first of the frames that a change adds. -/
def top? (table : CursorTable) : CursorChange → Option Cursor
  | grow above values => (table.grow above values).1
  | _ => Option.none

/-- The message under the key on the frame after a change, from what is there before. -/
def leaves (f : Cursor) (key : String) (old : Option Message) : CursorChange → Option Message
  | put frame key' m => if frame = f ∧ key' = key then some m else old
  | take frame key' _ => if frame = f ∧ key' = key then Option.none else old
  | none | grow _ _ => old

end CursorChange

namespace CursorTable

variable {table : CursorTable} {c f : Cursor} {key : String} {type : MessageType} {m : Message}

theorem mem_path_self : c ∈ table.path c := by
  rw [path]
  split
  · exact List.mem_cons_self
  · split <;> exact List.mem_cons_self

theorem get?_eq_some_iff :
    table.get? c key type = some m ↔ table.message? c key = some m ∧ m.type = type := by
  rw [get?, Option.filter_eq_some_iff, beq_iff_eq]

theorem poll_of_get? (h : table.get? c key type = some m) :
    table.poll c key type = (some m, table.take c key) := by
  rw [poll, h]
  rfl

theorem poll_of_get?_none (h : table.get? c key type = none) :
    table.poll c key type = (none, table) := by
  rw [poll, h]

end CursorTable

namespace CursorOp

variable {table : CursorTable} {c : Cursor}

/-- **An operation makes its change**, and no other. -/
theorem table_run (op : CursorOp) : (op.run table c).2.2 = (op.change table c).apply table := by
  cases op with
  | root => rfl
  | push value => rfl
  | clone => rfl
  | parent => rfl
  | fork => rw [run, change, CursorTable.fork_eq]; rfl
  | put key m => rfl
  | get key type => rfl
  | poll key type =>
    rw [run, change]
    cases h : table.get? c key type with
    | none => rw [CursorTable.poll_of_get?_none h]; rfl
    | some m => rw [CursorTable.poll_of_get? h]; rfl
  | nearest key type => rfl
  | pollNearest key type =>
    rw [run, change, CursorTable.pollNearest]
    cases hf : table.nearestHolder? c key type with
    | none => rfl
    | some f =>
      dsimp only [Option.bind_some]
      cases h : table.get? f key type with
      | none => rw [CursorTable.poll_of_get?_none h]; rfl
      | some m => rw [CursorTable.poll_of_get? h]; rfl
  | putOnEnclosing p key m =>
    rw [run, change, CursorTable.putOnEnclosing]
    cases table.enclosing? p c <;> rfl

/-- A cursor that an operation gives without a new frame. -/
def reached? (table : CursorTable) (c : Cursor) : CursorOp → Option Cursor
  | clone => some c
  | parent => table.parent? c
  | _ => none

/-- The cursor that an operation gives is one on the way up, or that of the frames it adds. -/
theorem cursor_run (op : CursorOp) : (op.run table c).2.1 =
    (op.reached? table c).or ((op.change table c).top? table) := by
  have hpath : table.path c ≠ [] := List.ne_nil_of_mem CursorTable.mem_path_self
  cases op with
  | parent => exact (Option.or_none).symm
  | fork =>
    rw [run, CursorTable.fork_eq, change, CursorTable.values]
    cases hp : table.path c with
    | nil => exact absurd hp hpath
    | cons x xs => rfl
  | poll key type =>
    rw [change]
    cases table.get? c key type <;> rfl
  | pollNearest key type =>
    rw [change]
    cases table.nearestHolder? c key type with
    | none => rfl
    | some f => rw [Option.bind_some]; cases table.get? f key type <;> rfl
  | putOnEnclosing p key m =>
    rw [change]
    cases table.enclosing? p c <;> rfl
  | _ => rfl

/-- What is taken was there. -/
theorem message?_of_change {op : CursorOp} {f : Cursor} {key : String} {m : Message}
    (h : op.change table c = .take f key m) : table.message? f key = some m := by
  cases op with
  | poll key type =>
    rw [change] at h
    cases hm : table.get? c key type with
    | none => rw [hm] at h; cases h
    | some m =>
      rw [hm] at h
      cases h
      exact (CursorTable.get?_eq_some_iff.1 hm).1
  | pollNearest key type =>
    rw [change] at h
    cases hf : table.nearestHolder? c key type with
    | none => rw [hf] at h; cases h
    | some f =>
      rw [hf, Option.bind_some] at h
      cases hm : table.get? f key type with
      | none => rw [hm] at h; cases h
      | some m =>
        rw [hm] at h
        cases h
        exact (CursorTable.get?_eq_some_iff.1 hm).1
  | putOnEnclosing p key m =>
    rw [change] at h
    cases hf : table.enclosing? p c with
    | none => rw [hf] at h; cases h
    | some f => rw [hf] at h; cases h
  | _ => cases h

end CursorOp

/-! ### What is left on a frame -/

namespace CursorTable

variable (table : CursorTable) (f : Cursor) (key : String)

theorem lookup_filter_ne (ms : List (String × Message)) (key' : String) :
    (ms.filter fun e => e.1 != key').lookup key = if key' = key then none else ms.lookup key := by
  induction ms with
  | nil => split <;> rfl
  | cons e ms ih =>
    obtain ⟨k, m⟩ := e
    by_cases hk : k = key'
    · subst hk
      rw [List.filter_cons, if_neg (by simp), ih, List.lookup_cons]
      by_cases hkey : k = key
      · rw [if_pos hkey, if_pos hkey]
      · have hbeq : (key == k) = false := beq_eq_false_iff_ne.2 (Ne.symm hkey)
        rw [if_neg hkey, if_neg hkey, hbeq]
    · rw [List.filter_cons, if_pos (by simpa using hk), List.lookup_cons, List.lookup_cons, ih]
      by_cases hkey : key' = key
      · have hbeq : (key == k) = false := beq_eq_false_iff_ne.2 (hkey ▸ Ne.symm hk)
        rw [if_pos hkey, if_pos hkey, hbeq]
      · rw [if_neg hkey, if_neg hkey]

theorem message?_modifyMessages (c : Cursor)
    (g : List (String × Message) → List (String × Message)) :
    (table.modifyMessages c g).message? f key =
      if c = f then (table.frames[f]?).bind fun frame => (g frame.messages).lookup key
      else table.message? f key := by
  rw [message?, getElem?_modifyMessages]
  split
  · rw [Option.bind_map]; rfl
  · rfl

theorem message?_add (value : FrameValue) (parent : Option Cursor) :
    (table.add value parent).2.message? f key = table.message? f key := by
  rw [message?, getElem?_add, message?]
  split
  · next h =>
    have hnone : table.frames[f]? = none := Array.getElem?_eq_none (Nat.le_of_eq h.symm)
    rw [hnone]
    rfl
  · rfl

theorem message?_grow (above : Option Cursor) (values : List FrameValue) :
    (table.grow above values).2.message? f key = table.message? f key := by
  induction values with
  | nil => rfl
  | cons value values ih => exact (message?_add _ f key value _).trans ih

end CursorTable

namespace CursorChange

/-- The frames that a change is made on or below have the property. -/
def Among (P : Cursor → Prop) : CursorChange → Prop
  | put frame _ _ | take frame _ _ => P frame
  | grow above _ => ∀ p ∈ above, P p
  | none => True

theorem Among.imp {P Q : Cursor → Prop} (h : ∀ x, P x → Q x) {change : CursorChange}
    (hp : change.Among P) : change.Among Q := by
  cases change with
  | none => trivial
  | put frame key m => exact h frame hp
  | take frame key m => exact h frame hp
  | grow above values => exact fun p hmem => h p (hp p hmem)

/-- The change is made on frames that are there, or below one. -/
def Within (table : CursorTable) (change : CursorChange) : Prop :=
  change.Among (· < table.frames.size)

/-- **A frame holds what a change leaves on it.** -/
theorem message?_apply {table : CursorTable} {change : CursorChange} (h : change.Within table)
    (f : Cursor) (key : String) :
    (change.apply table).message? f key = change.leaves f key (table.message? f key) := by
  cases change with
  | none => rfl
  | put frame key' m =>
    rw [apply, CursorTable.put, CursorTable.message?_modifyMessages, leaves]
    by_cases hc : frame = f
    · subst hc
      rw [if_pos rfl, Array.getElem?_eq_getElem h, Option.bind_some, List.lookup_cons,
        CursorTable.lookup_filter_ne]
      by_cases hkey : key' = key
      · simp only [hkey, beq_self_eq_true, and_self, if_true]
      · have hbeq : (key == key') = false := beq_eq_false_iff_ne.2 (Ne.symm hkey)
        rw [hbeq, if_neg hkey, if_neg fun h => hkey h.2, CursorTable.message?,
          Array.getElem?_eq_getElem h]
        rfl
    · rw [if_neg hc, if_neg fun h => hc h.1]
  | take frame key' m =>
    rw [apply, CursorTable.take, CursorTable.message?_modifyMessages, leaves]
    by_cases hc : frame = f
    · subst hc
      rw [if_pos rfl, Array.getElem?_eq_getElem h, Option.bind_some, CursorTable.lookup_filter_ne]
      by_cases hkey : key' = key
      · rw [if_pos hkey, if_pos ⟨rfl, hkey⟩]
      · rw [if_neg hkey, if_neg fun h => hkey h.2, CursorTable.message?,
          Array.getElem?_eq_getElem h]
        rfl
    · rw [if_neg hc, if_neg fun h => hc h.1]
  | grow above values => exact CursorTable.message?_grow table f key above values

end CursorChange

/-! ### The order of frames -/

namespace CursorTable

variable {table : CursorTable}

/-- The frames above a cursor were there before it. -/
theorem le_of_mem_path {c x : Cursor} (h : x ∈ table.path c) : x ≤ c := by
  fun_induction path table c with
  | case1 c hp => exact Nat.le_of_eq (List.mem_singleton.1 h)
  | case2 c p hp hlt ih =>
    rcases List.mem_cons.1 h with rfl | h
    · exact Nat.le_refl x
    · exact Nat.le_trans (ih h) (Nat.le_of_lt hlt)
  | case3 c p hp hlt => exact Nat.le_of_eq (List.mem_singleton.1 h)

theorem mem_path_of_enclosing? {p : Tree → Bool} {c f : Cursor}
    (h : table.enclosing? p c = some f) : f ∈ table.path c := List.mem_of_find?_eq_some h

theorem mem_path_of_nearestHolder? {c f : Cursor} {key : String} {type : MessageType}
    (h : table.nearestHolder? c key type = some f) : f ∈ table.path c := List.mem_of_find?_eq_some h

/-- Every parent was there before the frames below it. -/
def Ordered (table : CursorTable) : Prop :=
  ∀ (x : Cursor) (frame : CursorFrame), table.frames[x]? = some frame → ∀ p ∈ frame.parent, p < x

/-- Nothing cuts the way up short. -/
theorem Ordered.path_eq (h : table.Ordered) (c : Cursor) :
    table.path c = c :: ((table.parent? c).map table.path).getD [] := by
  rw [path]
  split
  · next hp => rw [hp]; rfl
  · next p hp =>
    obtain ⟨frame, hframe, hparent⟩ := Option.bind_eq_some_iff.1 hp
    rw [if_pos (h c frame hframe p hparent), hp]
    rfl

theorem Ordered.modifyMessages (h : table.Ordered) (c : Cursor)
    (f : List (String × Message) → List (String × Message)) :
    (table.modifyMessages c f).Ordered := by
  intro x frame hx
  rw [getElem?_modifyMessages] at hx
  split at hx
  · obtain ⟨frame', hx', rfl⟩ := Option.map_eq_some_iff.1 hx
    exact h x frame' hx'
  · exact h x frame hx

theorem Ordered.add (h : table.Ordered) (value : FrameValue) {parent : Option Cursor}
    (hp : ∀ p ∈ parent, p < table.frames.size) : (table.add value parent).2.Ordered := by
  intro x frame hx
  rw [getElem?_add] at hx
  split at hx
  · next heq => cases hx; exact heq ▸ hp
  · exact h x frame hx

theorem size_le_grow (table : CursorTable) (above : Option Cursor) (values : List FrameValue) :
    table.frames.size ≤ (table.grow above values).2.frames.size := by
  induction values with
  | nil => exact Nat.le_refl _
  | cons value values ih =>
    rw [CursorTable.grow, size_add]
    exact Nat.le_succ_of_le ih

theorem Ordered.grow (h : table.Ordered) {above : Option Cursor}
    (hp : ∀ p ∈ above, p < table.frames.size) (values : List FrameValue) :
    (table.grow above values).2.Ordered ∧
      ∀ c ∈ (table.grow above values).1, c < (table.grow above values).2.frames.size := by
  induction values with
  | nil => exact ⟨h, hp⟩
  | cons value values ih =>
    refine ⟨ih.1.add value ih.2, ?_⟩
    rintro _ ⟨⟩
    rw [CursorTable.grow, size_add]
    exact Nat.lt_succ_self _

theorem Ordered.grow_none (h : table.Ordered) (values : List FrameValue) :
    (table.grow none values).2.Ordered ∧
      ∀ c ∈ (table.grow none values).1, c < (table.grow none values).2.frames.size := by
  have habove : ∀ p ∈ (none : Option Cursor), p < table.frames.size := nofun
  exact h.grow habove values

end CursorTable

namespace CursorOp

variable {table : CursorTable} {c : Cursor}

/-- An operation makes its change on the way up. -/
theorem among_path (op : CursorOp) : (op.change table c).Among (· ∈ table.path c) := by
  have hself : c ∈ table.path c := CursorTable.mem_path_self
  cases op with
  | root => exact nofun
  | push value => rintro _ ⟨⟩; exact hself
  | clone => trivial
  | parent => trivial
  | fork => exact nofun
  | put key m => exact hself
  | get key type => trivial
  | poll key type =>
    rw [change]
    cases table.get? c key type with
    | none => trivial
    | some m => exact hself
  | nearest key type => trivial
  | pollNearest key type =>
    rw [change]
    cases hf : table.nearestHolder? c key type with
    | none => trivial
    | some f =>
      rw [Option.bind_some]
      cases table.get? f key type with
      | none => trivial
      | some m => exact CursorTable.mem_path_of_nearestHolder? hf
  | putOnEnclosing p key m =>
    rw [change]
    cases hf : table.enclosing? p c with
    | none => trivial
    | some f => exact CursorTable.mem_path_of_enclosing? hf

/-- An operation on a cursor that is there makes its change where there are frames. -/
theorem within_change (hc : c < table.frames.size) (op : CursorOp) :
    (op.change table c).Within table :=
  op.among_path.imp fun _ hx => Nat.lt_of_le_of_lt (CursorTable.le_of_mem_path hx) hc

theorem mem_path_of_reached? (h : table.Ordered) {op : CursorOp} {c' : Cursor}
    (hc : op.reached? table c = some c') : c' ∈ table.path c := by
  cases op with
  | clone => cases hc; exact CursorTable.mem_path_self
  | parent =>
    rw [h.path_eq, show table.parent? c = some c' from hc]
    exact List.mem_cons_of_mem c CursorTable.mem_path_self
  | _ => cases hc

end CursorOp

namespace CursorChange

variable {table : CursorTable}

theorem size_le_apply (table : CursorTable) (change : CursorChange) :
    table.frames.size ≤ (change.apply table).frames.size := by
  cases change with
  | none => exact Nat.le_refl _
  | put frame key m => exact Nat.le_of_eq (table.size_modifyMessages frame _).symm
  | take frame key m => exact Nat.le_of_eq (table.size_modifyMessages frame _).symm
  | grow above values => exact table.size_le_grow above values

theorem Within.ordered {change : CursorChange} (hw : change.Within table) (h : table.Ordered) :
    (change.apply table).Ordered ∧
      ∀ c ∈ change.top? table, c < (change.apply table).frames.size := by
  cases change with
  | none => exact ⟨h, nofun⟩
  | put frame key m => exact ⟨h.modifyMessages frame _, nofun⟩
  | take frame key m => exact ⟨h.modifyMessages frame _, nofun⟩
  | grow above values => exact h.grow hw values

end CursorChange

/-! ### Runs -/

/-- Those who hold cursors. -/
inductive CursorFamily where
  | first | second
deriving DecidableEq

/-- An operation of a family on one of its cursors, by the number it was given under. -/
structure CursorAction where
  family : CursorFamily
  cursor : Nat
  op : CursorOp

/-- The frames, and the cursors that each family holds in the order in which it was given them. -/
structure CursorRun where
  table : CursorTable
  held : CursorFamily → List Cursor

/-- What was done, what was answered, and what became of the frames. -/
structure CursorEntry where
  action : CursorAction
  answer : CursorAnswer
  change : CursorChange

namespace CursorRun

/-- One action. -/
def step (s : CursorRun) (a : CursorAction) : CursorEntry × CursorRun :=
  match (s.held a.family)[a.cursor]? with
  | none => (⟨a, .absent, .none⟩, s)
  | some c =>
    let r := a.op.run s.table c
    (⟨a, r.1, a.op.change s.table c⟩,
      ⟨r.2.2, Function.update s.held a.family (s.held a.family ++ r.2.1.toList)⟩)

/-- The state after actions. -/
def after (s : CursorRun) : List CursorAction → CursorRun
  | [] => s
  | a :: as => (s.step a).2.after as

/-- The record of actions. -/
def entries (s : CursorRun) : List CursorAction → List CursorEntry
  | [] => []
  | a :: as => (s.step a).1 :: (s.step a).2.entries as

theorem forall_entries {P : CursorEntry → Prop} (h : ∀ s a, P (step s a).1) (s : CursorRun)
    (as : List CursorAction) : ∀ e ∈ s.entries as, P e := by
  induction as generalizing s with
  | nil => exact List.forall_mem_nil P
  | cons a as ih => exact List.forall_mem_cons.2 ⟨h s a, ih (s.step a).2⟩

theorem action_step (s : CursorRun) (a : CursorAction) : (s.step a).1.action = a := by
  unfold step
  cases (s.held a.family)[a.cursor]? <;> rfl

theorem map_action_entries (s : CursorRun) (as : List CursorAction) :
    (s.entries as).map CursorEntry.action = as := by
  induction as generalizing s with
  | nil => rfl
  | cons a as ih => rw [entries, List.map_cons, action_step, ih]

/-- The cursors stand for frames of the table. -/
structure Valid (s : CursorRun) : Prop where
  ordered : s.table.Ordered
  held : ∀ family, ∀ c ∈ s.held family, c < s.table.frames.size

variable {s : CursorRun}

/-- **One action** makes its change on frames that are there. -/
theorem Valid.step (h : s.Valid) (a : CursorAction) :
    (s.step a).2.Valid ∧ (s.step a).1.change.Within s.table ∧
      (s.step a).2.table = (s.step a).1.change.apply s.table := by
  unfold CursorRun.step
  cases hc : (s.held a.family)[a.cursor]? with
  | none => exact ⟨h, trivial, rfl⟩
  | some c =>
    have hlt : c < s.table.frames.size := h.held a.family c (List.mem_of_getElem? hc)
    have hwithin : (a.op.change s.table c).Within s.table := a.op.within_change hlt
    have htable : (a.op.run s.table c).2.2 = (a.op.change s.table c).apply s.table :=
      a.op.table_run
    obtain ⟨hordered, htop⟩ := hwithin.ordered h.ordered
    have hsize := (a.op.change s.table c).size_le_apply s.table
    rw [← htable] at hordered htop hsize
    refine ⟨⟨hordered, fun family c' hc' => ?_⟩, hwithin, htable⟩
    dsimp only at hc' ⊢
    by_cases hf : family = a.family
    · subst hf
      rw [Function.update_self] at hc'
      rcases List.mem_append.1 hc' with hc' | hc'
      · exact Nat.lt_of_lt_of_le (h.held _ c' hc') hsize
      · rw [Option.mem_toList, CursorOp.cursor_run] at hc'
        rcases Option.or_eq_some_iff.1 hc' with hc' | ⟨-, hc'⟩
        · have hmem : c' ∈ s.table.path c := CursorOp.mem_path_of_reached? h.ordered hc'
          have hle : c' ≤ c := CursorTable.le_of_mem_path hmem
          exact Nat.lt_of_lt_of_le (Nat.lt_of_le_of_lt hle hlt) hsize
        · exact htop c' hc'
    · rw [Function.update_of_ne hf] at hc'
      exact Nat.lt_of_lt_of_le (h.held family c' hc') hsize

theorem Valid.after (h : s.Valid) (as : List CursorAction) : (s.after as).Valid := by
  induction as generalizing s with
  | nil => exact h
  | cons a as ih => exact ih (h.step a).1

/-- The message under a key on a frame after a record, from what is there before. -/
def left (f : Cursor) (key : String) (old : Option Message) (es : List CursorEntry) :
    Option Message := es.foldl (fun old e => e.change.leaves f key old) old

/-- **A frame holds what the run has left on it.** -/
theorem message?_after (h : s.Valid) (as : List CursorAction) (f : Cursor) (key : String) :
    (s.after as).table.message? f key =
      left f key (s.table.message? f key) (s.entries as) := by
  induction as generalizing s with
  | nil => rfl
  | cons a as ih =>
    obtain ⟨hvalid, hwithin, htable⟩ := h.step a
    rw [CursorRun.after, ih hvalid, htable, CursorChange.message?_apply hwithin]
    rfl

end CursorRun

/-! ### What is put and what is taken -/

namespace CursorChange

/-- What the change puts, and where. -/
def given? : CursorChange → Option (Cursor × String × Message)
  | put frame key m => some (frame, key, m)
  | _ => Option.none

/-- What the change takes, and from where. -/
def taken? : CursorChange → Option (Cursor × String × Message)
  | take frame key m => some (frame, key, m)
  | _ => Option.none

/-- A message that is taken is no longer there, and one that is there was there or is put. -/
theorem taken_le {change : CursorChange} {f : Cursor} {key : String} {m : Message}
    {old : Option Message} (h : change.taken? = some (f, key, m) → old = some m) :
    (if change.taken? = some (f, key, m) then 1 else 0) +
        (if change.leaves f key old = some m then 1 else 0) ≤
      (if change.given? = some (f, key, m) then 1 else 0) + if old = some m then 1 else 0 := by
  cases change with
  | none => exact Nat.le_refl _
  | grow above values => exact Nat.le_refl _
  | put frame key' m' =>
    by_cases hslot : frame = f ∧ key' = key
    · obtain ⟨rfl, rfl⟩ := hslot
      simp [taken?, given?, leaves]
    · rw [leaves, if_neg hslot]
      exact Nat.add_le_add_right (Nat.zero_le _) _
  | take frame key' m' =>
    by_cases hslot : frame = f ∧ key' = key
    · obtain ⟨rfl, rfl⟩ := hslot
      by_cases hm : m' = m
      · subst hm
        rw [h rfl]
        simp [taken?, given?, leaves]
      · simp [taken?, leaves, hm]
    · have hne : taken? (take frame key' m') ≠ some (f, key, m) := by
        intro heq
        cases heq
        exact hslot ⟨rfl, rfl⟩
      rw [leaves, if_neg hslot, if_neg hne]
      exact Nat.add_le_add_right (Nat.zero_le _) _

end CursorChange

namespace CursorRun

variable {s : CursorRun}

/-- What an action takes was there. -/
theorem message?_of_step {a : CursorAction} {f : Cursor} {key : String} {m : Message}
    (h : (s.step a).1.change.taken? = some (f, key, m)) : s.table.message? f key = some m := by
  unfold step at h
  cases hc : (s.held a.family)[a.cursor]? with
  | none => rw [hc] at h; cases h
  | some c =>
    rw [hc] at h
    cases hchange : a.op.change s.table c with
    | take frame key' m' =>
      dsimp only at h
      rw [hchange] at h
      cases h
      exact CursorOp.message?_of_change hchange
    | _ =>
      dsimp only at h
      rw [hchange] at h
      cases h

theorem count_filterMap_cons {α β : Type} [BEq β] [LawfulBEq β] [DecidableEq β] (g : α → Option β)
    (a : α) (as : List α) (b : β) : ((a :: as).filterMap g).count b =
      (if g a = some b then 1 else 0) + (as.filterMap g).count b := by
  rw [List.filterMap_cons]
  cases h : g a with
  | none => simp
  | some b' => simp [List.count_cons, Nat.add_comm]

/-- **No message is taken off a frame more often than it was put there**, or was there already. -/
theorem count_taken (h : s.Valid) (as : List CursorAction) (f : Cursor) (key : String)
    (m : Message) :
    ((s.entries as).filterMap (·.change.taken?)).count (f, key, m) +
        (if (s.after as).table.message? f key = some m then 1 else 0) ≤
      ((s.entries as).filterMap (·.change.given?)).count (f, key, m) +
        if s.table.message? f key = some m then 1 else 0 := by
  induction as generalizing s with
  | nil => exact Nat.le_refl _
  | cons a as ih =>
    obtain ⟨hvalid, hwithin, htable⟩ := h.step a
    have hrest := ih hvalid
    rw [htable, CursorChange.message?_apply hwithin] at hrest
    have hstep := CursorChange.taken_le fun h : (s.step a).1.change.taken? = some (f, key, m) =>
      message?_of_step h
    rw [entries, after, count_filterMap_cons, count_filterMap_cons]
    omega

end CursorRun

/-! ### What the family sees of it -/

namespace CursorEntry

/-- The action and the answer to it. -/
def reply (e : CursorEntry) : CursorAction × CursorAnswer := (e.action, e.answer)

end CursorEntry

/-- The message that was taken, and its key. -/
def polled? : CursorAction × CursorAnswer → Option (String × Message)
  | (⟨_, _, .poll key _⟩, .message (some m)) => some (key, m)
  | (⟨_, _, .pollNearest key _⟩, .message (some m)) => some (key, m)
  | _ => none

/-- The message that was put, and its key. -/
def put? : CursorAction × CursorAnswer → Option (String × Message)
  | (⟨_, _, .put key m⟩, .done) => some (key, m)
  | (⟨_, _, .putOnEnclosing _ key m⟩, .found true) => some (key, m)
  | _ => none

namespace CursorRun

variable {s : CursorRun}

/-- What is seen of an action is its change, but for the frame. -/
theorem reply_step (s : CursorRun) (a : CursorAction) :
    polled? (s.step a).1.reply = (s.step a).1.change.taken?.map Prod.snd ∧
      put? (s.step a).1.reply = (s.step a).1.change.given?.map Prod.snd := by
  obtain ⟨family, n, op⟩ := a
  unfold step
  cases hc : (s.held family)[n]? with
  | none => dsimp only; cases op <;> exact ⟨rfl, rfl⟩
  | some c =>
    dsimp only
    cases op with
    | poll key type =>
      rw [CursorEntry.reply, CursorOp.run, CursorOp.change]
      cases h : s.table.get? c key type with
      | none => rw [CursorTable.poll_of_get?_none h]; exact ⟨rfl, rfl⟩
      | some m => rw [CursorTable.poll_of_get? h]; exact ⟨rfl, rfl⟩
    | pollNearest key type =>
      rw [CursorEntry.reply, CursorOp.run, CursorOp.change, CursorTable.pollNearest]
      cases hf : s.table.nearestHolder? c key type with
      | none => exact ⟨rfl, rfl⟩
      | some f =>
        dsimp only [Option.bind_some]
        cases h : s.table.get? f key type with
        | none => rw [CursorTable.poll_of_get?_none h]; exact ⟨rfl, rfl⟩
        | some m => rw [CursorTable.poll_of_get? h]; exact ⟨rfl, rfl⟩
    | putOnEnclosing p key m =>
      rw [CursorEntry.reply, CursorOp.run, CursorOp.change, CursorTable.putOnEnclosing]
      cases s.table.enclosing? p c <;> exact ⟨rfl, rfl⟩
    | _ => exact ⟨rfl, rfl⟩

/-- **Each message is taken once at most.** On frames where none was left before. -/
theorem polled_subperm (h : s.Valid) (hempty : ∀ f key, s.table.message? f key = none)
    (as : List CursorAction) :
    (((s.entries as).map CursorEntry.reply).filterMap polled?).Subperm
      (((s.entries as).map CursorEntry.reply).filterMap put?) := by
  have hframes : ((s.entries as).filterMap (·.change.taken?)).Subperm
      ((s.entries as).filterMap (·.change.given?)) := by
    rw [List.subperm_ext_iff]
    rintro ⟨f, key, m⟩ -
    have hcount := count_taken h as f key m
    rw [hempty f key, if_neg (c := none = some m) nofun] at hcount
    omega
  have hseen (e : CursorEntry) (he : e ∈ s.entries as) :
      polled? e.reply = e.change.taken?.map Prod.snd ∧
        put? e.reply = e.change.given?.map Prod.snd :=
    forall_entries (P := fun e => polled? e.reply = e.change.taken?.map Prod.snd ∧
      put? e.reply = e.change.given?.map Prod.snd) reply_step s as e he
  have hpolled := List.filterMap_congr fun e he => (hseen e he).1
  have hput := List.filterMap_congr fun e he => (hseen e he).2
  rw [List.filterMap_map, List.filterMap_map, Function.comp_def, Function.comp_def, hpolled, hput,
    ← List.map_filterMap, ← List.map_filterMap]
  obtain ⟨es, hperm, hsublist⟩ := hframes
  exact ⟨es.map Prod.snd, hperm.map Prod.snd, hsublist.map Prod.snd⟩

end CursorRun

/-! ### The nearest message -/

/-- Where `held` says what is on each frame: on the way up from the cursor, the first message of the
type. -/
inductive Nearest (table : CursorTable) (held : Cursor → Option Message) (type : MessageType) :
    Cursor → Message → Prop
  | here {c : Cursor} {m : Message} (hm : held c = some m) (htype : m.type = type) :
    Nearest table held type c m
  | above {c p : Cursor} {m : Message} (hfree : ∀ m', held c = some m' → m'.type ≠ type)
    (hp : table.parent? c = some p) (h : Nearest table held type p m) : Nearest table held type c m

namespace CursorTable

variable {table : CursorTable} {c : Cursor} {key : String} {type : MessageType} {m : Message}

theorem Ordered.nearest?_eq (h : table.Ordered) : table.nearest? c key type =
    (table.get? c key type).or ((table.parent? c).bind fun p => table.nearest? p key type) := by
  rw [nearest?, nearestHolder?, h.path_eq, List.find?_cons]
  cases hm : table.get? c key type with
  | some m => exact hm
  | none =>
    cases hp : table.parent? c with
    | none => rfl
    | some p => rfl

/-- **The nearest message** is the first of its type on the way up. -/
theorem Ordered.nearest?_eq_some_iff (h : table.Ordered) :
    table.nearest? c key type = some m ↔ Nearest table (table.message? · key) type c m := by
  constructor
  · intro hm
    induction c using Nat.strongRecOn with
    | ind c ih =>
      rw [h.nearest?_eq] at hm
      rcases Option.or_eq_some_iff.1 hm with hm | ⟨hnone, hm⟩
      · exact .here (get?_eq_some_iff.1 hm).1 (get?_eq_some_iff.1 hm).2
      · obtain ⟨p, hp, hm⟩ := Option.bind_eq_some_iff.1 hm
        obtain ⟨frame, hframe, hparent⟩ := Option.bind_eq_some_iff.1 hp
        refine .above (fun m' hm' htype => ?_) hp (ih p (h c frame hframe p hparent) hm)
        rw [get?_eq_some_iff.2 ⟨hm', htype⟩] at hnone
        cases hnone
  · intro hm
    induction hm with
    | here hm htype => rw [h.nearest?_eq, get?_eq_some_iff.2 ⟨hm, htype⟩, Option.some_or]
    | @above c p m hfree hp _ ih =>
      have hnone : table.get? c key type = none := by
        by_contra hsome
        obtain ⟨m', hm'⟩ := Option.ne_none_iff_exists'.1 hsome
        exact hfree m' (get?_eq_some_iff.1 hm').1 (get?_eq_some_iff.1 hm').2
      rw [h.nearest?_eq, hnone, Option.none_or, hp, Option.bind_some, ih]

end CursorTable

end JavaSource
