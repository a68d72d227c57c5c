import JavaSource.Proofs.CursorRuns
import Mathlib.Data.List.Find

/-!
# Forks keep to themselves

A family that is given a fork of a cursor shares no frame with the one that holds the cursor.  The
invariant gives each frame an owner, who owns the frames above it too, and finds the frames of one
family, in their order and with their messages, in the table of a run in which only that family
acts.

* `Mirror`: the invariant on the two tables; `Mirror.answer_eq`, `Mirror.apply`,
  `Mirror.apply_of_ne`: what it says of an operation, and that changes of either family keep it.
* `Shadow.step`, `Shadow.step_of_ne`: a step of the family is made in both runs, and one of the
  other family leaves the second run as it is.
* `Shadow.replies_eq`: so the family is answered as if the other did nothing.
* `CursorRun.fork_isolated`: the result for a fork taken at any moment.
-/

namespace JavaSource

namespace CursorChange

/-- The change, made on the frames at other places. -/
def map (place : Cursor → Cursor) : CursorChange → CursorChange
  | none => none
  | put frame key m => put (place frame) key m
  | take frame key m => take (place frame) key m
  | grow above values => grow (above.map place) values

end CursorChange

/-- The frames of one family, with an owner for each frame, and where they are found in a second
table. -/
structure Mirror (family : CursorFamily) (owner : Cursor → CursorFamily) (place : Cursor → Cursor)
    (A B : CursorTable) : Prop where
  parent : ∀ (x : Cursor) (frame : CursorFrame), A.frames[x]? = some frame →
    ∀ p ∈ frame.parent, p < x ∧ owner p = owner x
  frame : ∀ (x : Cursor) (frame : CursorFrame), A.frames[x]? = some frame → owner x = family →
    B.frames[place x]? = some { frame with parent := frame.parent.map place }
  place_lt : ∀ x y : Cursor, x < y → y < A.frames.size → owner x = family → owner y = family →
    place x < place y

namespace Mirror

variable {family : CursorFamily} {owner : Cursor → CursorFamily} {place : Cursor → Cursor}
  {A B : CursorTable} {x : Cursor}

theorem ordered (h : Mirror family owner place A B) : A.Ordered := fun x frame hx p hp =>
  (h.parent x frame hx p hp).1

/-- The frames above a cursor belong to its owner. -/
theorem owner_of_mem_path (h : Mirror family owner place A B) :
    ∀ y ∈ A.path x, owner y = owner x := by
  induction x using Nat.strongRecOn with
  | ind x ih =>
    intro y hy
    rw [h.ordered.path_eq] at hy
    rcases List.mem_cons.1 hy with rfl | hy
    · rfl
    cases hp : A.parent? x with
    | none => rw [hp] at hy; cases hy
    | some p =>
      rw [hp] at hy
      obtain ⟨frame, hframe, hparent⟩ := Option.bind_eq_some_iff.1 hp
      obtain ⟨hlt, howner⟩ := h.parent x frame hframe p hparent
      exact (ih p hlt y hy).trans howner

variable (hx : x < A.frames.size) (ho : owner x = family)

include hx ho in
theorem getElem?_place (h : Mirror family owner place A B) : B.frames[place x]? =
    (A.frames[x]?).map fun frame => { frame with parent := frame.parent.map place } := by
  rw [h.frame x A.frames[x] (Array.getElem?_eq_getElem hx) ho, Array.getElem?_eq_getElem hx]
  rfl

include hx ho in
theorem place_lt_size (h : Mirror family owner place A B) : place x < B.frames.size := by
  have hframe := h.getElem?_place hx ho
  rw [Array.getElem?_eq_getElem hx] at hframe
  exact (Array.getElem?_eq_some_iff.1 hframe).1

include hx ho in
theorem parent?_eq (h : Mirror family owner place A B) :
    B.parent? (place x) = (A.parent? x).map place := by
  rw [CursorTable.parent?, h.getElem?_place hx ho, CursorTable.parent?,
    Array.getElem?_eq_getElem hx]
  rfl

include hx ho in
theorem message?_eq (h : Mirror family owner place A B) (key : String) :
    B.message? (place x) key = A.message? x key := by
  rw [CursorTable.message?, h.getElem?_place hx ho, CursorTable.message?,
    Array.getElem?_eq_getElem hx]
  rfl

include hx ho in
theorem get?_eq (h : Mirror family owner place A B) (key : String) (type : MessageType) :
    B.get? (place x) key type = A.get? x key type := by
  rw [CursorTable.get?, h.message?_eq hx ho, CursorTable.get?]

include hx ho in
theorem value_eq (h : Mirror family owner place A B) : B.value (place x) = A.value x := by
  rw [CursorTable.value, h.getElem?_place hx ho, CursorTable.value, Array.getElem?_eq_getElem hx]
  rfl

include hx ho in
/-- The way up leads through the same frames. -/
theorem path_eq (h : Mirror family owner place A B) : B.path (place x) = (A.path x).map place := by
  induction x using Nat.strongRecOn with
  | ind x ih =>
    rw [CursorTable.path, h.parent?_eq hx ho, h.ordered.path_eq]
    cases hp : A.parent? x with
    | none => rfl
    | some p =>
      obtain ⟨frame, hframe, hparent⟩ := Option.bind_eq_some_iff.1 hp
      obtain ⟨hlt, howner⟩ := h.parent x frame hframe p hparent
      have hpath := ih p hlt (Nat.lt_trans hlt hx) (howner.trans ho)
      have hplace : place p < place x := h.place_lt p x hlt hx (howner.trans ho) ho
      rw [Option.map_some, Option.map_some, List.map_cons]
      dsimp only [Option.getD_some]
      rw [if_pos hplace, hpath]

include hx ho in
/-- The first frame on the way up with a property of the frame. -/
theorem find?_path (h : Mirror family owner place A B) {P Q : Cursor → Bool}
    (hPQ : ∀ y, y < A.frames.size → owner y = family → Q (place y) = P y) :
    (B.path (place x)).find? Q = ((A.path x).find? P).map place := by
  rw [h.path_eq hx ho, List.find?_map]
  refine congrArg (Option.map place) (List.find?_congr fun y hy => ?_)
  exact hPQ y (Nat.lt_of_le_of_lt (CursorTable.le_of_mem_path hy) hx)
    ((h.owner_of_mem_path y hy).trans ho)

include hx ho in
theorem enclosing?_eq (h : Mirror family owner place A B) (p : Tree → Bool) :
    B.enclosing? p (place x) = (A.enclosing? p x).map place := by
  refine h.find?_path hx ho fun y hy hoy => ?_
  rw [CursorTable.tree?, h.value_eq hy hoy, CursorTable.tree?]

include hx ho in
theorem nearestHolder?_eq (h : Mirror family owner place A B) (key : String)
    (type : MessageType) :
    B.nearestHolder? (place x) key type = (A.nearestHolder? x key type).map place := by
  refine h.find?_path hx ho fun y hy hoy => ?_
  rw [h.get?_eq hy hoy]

/-! ### Operations -/

include hx ho in
/-- An operation makes the same change in both tables, each at its place. -/
theorem change_eq (h : Mirror family owner place A B) (op : CursorOp) :
    op.change B (place x) = (op.change A x).map place := by
  have hpath {y : Cursor} (hy : y ∈ A.path x) : y < A.frames.size ∧ owner y = family :=
    ⟨Nat.lt_of_le_of_lt (CursorTable.le_of_mem_path hy) hx, (h.owner_of_mem_path y hy).trans ho⟩
  cases op with
  | fork =>
    have hvalues : B.values (place x) = A.values x := by
      rw [CursorTable.values, h.path_eq hx ho, CursorTable.values, List.map_map]
      exact List.map_congr_left fun y hy => h.value_eq (hpath hy).1 (hpath hy).2
    rw [CursorOp.change, hvalues]
    rfl
  | poll key type =>
    rw [CursorOp.change, CursorOp.change, h.get?_eq hx ho]
    cases A.get? x key type <;> rfl
  | pollNearest key type =>
    rw [CursorOp.change, CursorOp.change, h.nearestHolder?_eq hx ho]
    cases hf : A.nearestHolder? x key type with
    | none => rfl
    | some f =>
      have hmem := hpath (CursorTable.mem_path_of_nearestHolder? hf)
      rw [Option.map_some, Option.bind_some, Option.bind_some, h.get?_eq hmem.1 hmem.2]
      cases A.get? f key type <;> rfl
  | putOnEnclosing p key m =>
    rw [CursorOp.change, CursorOp.change, h.enclosing?_eq hx ho]
    cases A.enclosing? p x <;> rfl
  | _ => rfl

include hx ho in
theorem reached?_eq (h : Mirror family owner place A B) (op : CursorOp) :
    op.reached? B (place x) = (op.reached? A x).map place := by
  cases op with
  | parent => exact h.parent?_eq hx ho
  | _ => rfl

include hx ho in
/-- **An operation is answered the same.** -/
theorem answer_eq (h : Mirror family owner place A B) (op : CursorOp) :
    (op.run B (place x)).1 = (op.run A x).1 := by
  have hpath {y : Cursor} (hy : y ∈ A.path x) : y < A.frames.size ∧ owner y = family :=
    ⟨Nat.lt_of_le_of_lt (CursorTable.le_of_mem_path hy) hx, (h.owner_of_mem_path y hy).trans ho⟩
  cases op with
  | parent => rw [CursorOp.run, h.parent?_eq hx ho, Option.isSome_map]; rfl
  | get key type => rw [CursorOp.run, h.get?_eq hx ho]; rfl
  | poll key type =>
    rw [CursorOp.run, CursorOp.run, CursorTable.poll, CursorTable.poll, h.get?_eq hx ho]
    cases A.get? x key type <;> rfl
  | nearest key type =>
    rw [CursorOp.run, CursorTable.nearest?, h.nearestHolder?_eq hx ho, CursorOp.run,
      CursorTable.nearest?]
    cases hf : A.nearestHolder? x key type with
    | none => rfl
    | some f =>
      have hmem := hpath (CursorTable.mem_path_of_nearestHolder? hf)
      rw [Option.map_some, Option.bind_some, Option.bind_some, h.get?_eq hmem.1 hmem.2]
  | pollNearest key type =>
    rw [CursorOp.run, CursorTable.pollNearest, h.nearestHolder?_eq hx ho, CursorOp.run,
      CursorTable.pollNearest]
    cases hf : A.nearestHolder? x key type with
    | none => rfl
    | some f =>
      have hmem := hpath (CursorTable.mem_path_of_nearestHolder? hf)
      dsimp only [Option.map_some]
      rw [CursorTable.poll, CursorTable.poll, h.get?_eq hmem.1 hmem.2]
      cases A.get? f key type <;> rfl
  | putOnEnclosing p key m =>
    rw [CursorOp.run, CursorTable.putOnEnclosing, h.enclosing?_eq hx ho, CursorOp.run,
      CursorTable.putOnEnclosing]
    cases A.enclosing? p x <;> rfl
  | _ => rfl

/-! ### Changes -/

theorem parent_modifyMessages (h : Mirror family owner place A B)
    (f : List (String × Message) → List (String × Message)) {y : Cursor} {frame : CursorFrame}
    (hy : (A.modifyMessages x f).frames[y]? = some frame) :
    ∀ p ∈ frame.parent, p < y ∧ owner p = owner y := by
  rw [CursorTable.getElem?_modifyMessages] at hy
  split at hy
  · obtain ⟨frame', hframe', rfl⟩ := Option.map_eq_some_iff.1 hy
    exact h.parent y frame' hframe'
  · exact h.parent y frame hy

include hx ho in
/-- Messages of the family are changed in both tables. -/
theorem modifyMessages (h : Mirror family owner place A B)
    (f : List (String × Message) → List (String × Message)) :
    Mirror family owner place (A.modifyMessages x f) (B.modifyMessages (place x) f) := by
  refine ⟨fun y frame hy => h.parent_modifyMessages f hy, fun y frame hy hoy => ?_, ?_⟩
  · rw [CursorTable.getElem?_modifyMessages] at hy ⊢
    by_cases hxy : x = y
    · subst hxy
      rw [if_pos rfl] at hy ⊢
      obtain ⟨frame', hframe', rfl⟩ := Option.map_eq_some_iff.1 hy
      rw [h.frame x frame' hframe' ho]
      rfl
    · rw [if_neg hxy] at hy
      have hlt : y < A.frames.size := (Array.getElem?_eq_some_iff.1 hy).1
      have hplace : place x ≠ place y := by
        rcases Nat.lt_or_gt_of_ne hxy with hless | hless
        · exact Nat.ne_of_lt (h.place_lt x y hless hlt ho hoy)
        · exact Nat.ne_of_gt (h.place_lt y x hless hx hoy ho)
      rw [if_neg hplace]
      exact h.frame y frame hy hoy
  · rw [CursorTable.size_modifyMessages]
    exact h.place_lt

/-- Messages of the other family are not seen. -/
theorem modifyMessages_of_ne (hne : owner x ≠ family) (h : Mirror family owner place A B)
    (f : List (String × Message) → List (String × Message)) :
    Mirror family owner place (A.modifyMessages x f) B := by
  refine ⟨fun y frame hy => h.parent_modifyMessages f hy, fun y frame hy hoy => ?_, ?_⟩
  · have hxy : x ≠ y := by
      rintro rfl
      exact hne hoy
    rw [CursorTable.getElem?_modifyMessages, if_neg hxy] at hy
    exact h.frame y frame hy hoy
  · rw [CursorTable.size_modifyMessages]
    exact h.place_lt

variable {above : Option Cursor}

theorem parent_add {b : CursorFamily} (h : Mirror family owner place A B) (value : FrameValue)
    (habove : ∀ p ∈ above, p < A.frames.size ∧ owner p = b) {y : Cursor} {frame : CursorFrame}
    (hy : (A.add value above).2.frames[y]? = some frame) :
    ∀ p ∈ frame.parent, p < y ∧
      Function.update owner A.frames.size b p = Function.update owner A.frames.size b y := by
  intro p hp
  rw [CursorTable.getElem?_add] at hy
  split at hy
  · next heq =>
    cases hy
    obtain ⟨hlt, howner⟩ := habove p hp
    rw [heq, Function.update_self, Function.update_of_ne (Nat.ne_of_lt hlt)]
    exact ⟨hlt, howner⟩
  · have hlt : y < A.frames.size := (Array.getElem?_eq_some_iff.1 hy).1
    obtain ⟨hpy, howner⟩ := h.parent y frame hy p hp
    rw [Function.update_of_ne (Nat.ne_of_lt hlt),
      Function.update_of_ne (Nat.ne_of_lt (Nat.lt_trans hpy hlt))]
    exact ⟨hpy, howner⟩

/-- A frame of the family is added to both tables. -/
theorem add (h : Mirror family owner place A B) (value : FrameValue)
    (habove : ∀ p ∈ above, p < A.frames.size ∧ owner p = family) :
    Mirror family (Function.update owner A.frames.size family)
      (Function.update place A.frames.size B.frames.size)
      (A.add value above).2 (B.add value (above.map place)).2 := by
  have hmap {parent : Option Cursor} (hp : ∀ p ∈ parent, p < A.frames.size) :
      parent.map (Function.update place A.frames.size B.frames.size) = parent.map place :=
    Option.map_congr fun p hmem => Function.update_of_ne (Nat.ne_of_lt (hp p hmem)) _ _
  refine ⟨fun y frame hy => h.parent_add value habove hy, fun y frame hy hoy => ?_,
    fun y z hyz hz hoy hoz => ?_⟩
  · rw [CursorTable.getElem?_add] at hy ⊢
    split at hy
    · next heq =>
      cases hy
      rw [heq, Function.update_self, if_pos rfl, hmap fun p hp => (habove p hp).1]
    · have hlt : y < A.frames.size := (Array.getElem?_eq_some_iff.1 hy).1
      rw [Function.update_of_ne (Nat.ne_of_lt hlt)] at hoy ⊢
      have hparent {p : Cursor} (hp : p ∈ frame.parent) : p < A.frames.size :=
        Nat.lt_trans (h.parent y frame hy p hp).1 hlt
      rw [if_neg (Nat.ne_of_lt (h.place_lt_size hlt hoy)), hmap fun p hp => hparent hp]
      exact h.frame y frame hy hoy
  · rw [CursorTable.size_add] at hz
    have hy : y < A.frames.size := Nat.lt_of_lt_of_le hyz (Nat.le_of_lt_succ hz)
    rw [Function.update_of_ne (Nat.ne_of_lt hy)] at hoy ⊢
    rcases Nat.lt_or_eq_of_le (Nat.le_of_lt_succ hz) with hlt | rfl
    · rw [Function.update_of_ne (Nat.ne_of_lt hlt)] at hoz ⊢
      exact h.place_lt y z hyz hlt hoy hoz
    · rw [Function.update_self]
      exact h.place_lt_size hy hoy

/-- A frame of the other family is not seen. -/
theorem add_of_ne {b : CursorFamily} (hne : b ≠ family) (h : Mirror family owner place A B)
    (value : FrameValue) (habove : ∀ p ∈ above, p < A.frames.size ∧ owner p = b) :
    Mirror family (Function.update owner A.frames.size b) place (A.add value above).2 B := by
  have hlt {y : Cursor} (hy : y < A.frames.size + 1)
      (hoy : Function.update owner A.frames.size b y = family) : y < A.frames.size := by
    rcases Nat.lt_or_eq_of_le (Nat.le_of_lt_succ hy) with hlt | rfl
    · exact hlt
    · rw [Function.update_self] at hoy
      exact absurd hoy hne
  refine ⟨fun y frame hy => h.parent_add value habove hy, fun y frame hy hoy => ?_,
    fun y z hyz hz hoy hoz => ?_⟩
  · have hsize : y < A.frames.size + 1 := by
      rw [← CursorTable.size_add]
      exact (Array.getElem?_eq_some_iff.1 hy).1
    have hold := hlt hsize hoy
    rw [Function.update_of_ne (Nat.ne_of_lt hold)] at hoy
    rw [CursorTable.getElem?_add, if_neg (Nat.ne_of_lt hold)] at hy
    exact h.frame y frame hy hoy
  · rw [CursorTable.size_add] at hz
    have hz := hlt hz hoz
    rw [Function.update_of_ne (Nat.ne_of_lt hz)] at hoz
    rw [Function.update_of_ne (Nat.ne_of_lt (Nat.lt_trans hyz hz))] at hoy
    exact h.place_lt y z hyz hz hoy hoz

/-- Frames of the family are added to both tables. -/
theorem grow (h : Mirror family owner place A B)
    (habove : ∀ p ∈ above, p < A.frames.size ∧ owner p = family) (values : List FrameValue) :
    ∃ owner' place', Mirror family owner' place' (A.grow above values).2
        (B.grow (above.map place) values).2 ∧
      (∀ y < A.frames.size, owner' y = owner y ∧ place' y = place y) ∧
      (B.grow (above.map place) values).1 = (A.grow above values).1.map place' ∧
      ∀ c ∈ (A.grow above values).1,
        c < (A.grow above values).2.frames.size ∧ owner' c = family := by
  induction values with
  | nil => exact ⟨owner, place, h, fun _ _ => ⟨rfl, rfl⟩, rfl, habove⟩
  | cons value values ih =>
    obtain ⟨owner', place', h', hagree, htop, howned⟩ := ih
    have hadd := h'.add value howned
    rw [← htop] at hadd
    refine ⟨_, _, hadd, fun y hy => ?_, ?_, ?_⟩
    · have hne : y ≠ (A.grow above values).2.frames.size :=
        Nat.ne_of_lt (Nat.lt_of_lt_of_le hy (A.size_le_grow above values))
      rw [Function.update_of_ne hne, Function.update_of_ne hne]
      exact hagree y hy
    · have hself : Function.update place' (A.grow above values).2.frames.size
          (B.grow (above.map place) values).2.frames.size (A.grow above values).2.frames.size =
          (B.grow (above.map place) values).2.frames.size := Function.update_self _ _ _
      exact congrArg some hself.symm
    · rintro _ ⟨⟩
      rw [CursorTable.grow, CursorTable.size_add]
      exact ⟨Nat.lt_succ_self _, Function.update_self _ _ _⟩

/-- Frames of the other family are not seen. -/
theorem grow_of_ne {b : CursorFamily} (hne : b ≠ family) (h : Mirror family owner place A B)
    (habove : ∀ p ∈ above, p < A.frames.size ∧ owner p = b) (values : List FrameValue) :
    ∃ owner', Mirror family owner' place (A.grow above values).2 B ∧
      (∀ y < A.frames.size, owner' y = owner y) ∧
      ∀ c ∈ (A.grow above values).1,
        c < (A.grow above values).2.frames.size ∧ owner' c = b := by
  induction values with
  | nil => exact ⟨owner, h, fun _ _ => rfl, habove⟩
  | cons value values ih =>
    obtain ⟨owner', h', hagree, howned⟩ := ih
    refine ⟨_, h'.add_of_ne hne value howned, fun y hy => ?_, ?_⟩
    · have hlt : y < (A.grow above values).2.frames.size :=
        Nat.lt_of_lt_of_le hy (A.size_le_grow above values)
      rw [Function.update_of_ne (Nat.ne_of_lt hlt)]
      exact hagree y hy
    · rintro _ ⟨⟩
      rw [CursorTable.grow, CursorTable.size_add]
      exact ⟨Nat.lt_succ_self _, Function.update_self _ _ _⟩

/-- **A change of the family** is made in both tables. -/
theorem apply (h : Mirror family owner place A B) {change : CursorChange}
    (hchange : change.Among fun x => x < A.frames.size ∧ owner x = family) :
    ∃ owner' place', Mirror family owner' place' (change.apply A) ((change.map place).apply B) ∧
      (∀ y < A.frames.size, owner' y = owner y ∧ place' y = place y) ∧
      (change.map place).top? B = (change.top? A).map place' ∧
      ∀ c ∈ change.top? A, c < (change.apply A).frames.size ∧ owner' c = family := by
  cases change with
  | none => exact ⟨owner, place, h, fun _ _ => ⟨rfl, rfl⟩, rfl, nofun⟩
  | put frame key m =>
    have hput := h.modifyMessages hchange.1 hchange.2 fun ms =>
      (key, m) :: ms.filter fun e => e.1 != key
    exact ⟨owner, place, hput, fun _ _ => ⟨rfl, rfl⟩, rfl, nofun⟩
  | take frame key m =>
    exact ⟨owner, place, h.modifyMessages hchange.1 hchange.2 _, fun _ _ => ⟨rfl, rfl⟩, rfl, nofun⟩
  | grow above values => exact h.grow hchange values

/-- **A change of the other family** is not seen. -/
theorem apply_of_ne {b : CursorFamily} (hne : b ≠ family) (h : Mirror family owner place A B)
    {change : CursorChange} (hchange : change.Among fun x => x < A.frames.size ∧ owner x = b) :
    ∃ owner', Mirror family owner' place (change.apply A) B ∧
      (∀ y < A.frames.size, owner' y = owner y) ∧
      ∀ c ∈ change.top? A, c < (change.apply A).frames.size ∧ owner' c = b := by
  cases change with
  | none => exact ⟨owner, h, fun _ _ => rfl, nofun⟩
  | put frame key m =>
    have hput := h.modifyMessages_of_ne (hchange.2 ▸ hne) fun ms =>
      (key, m) :: ms.filter fun e => e.1 != key
    exact ⟨owner, hput, fun _ _ => rfl, nofun⟩
  | take frame key m =>
    exact ⟨owner, h.modifyMessages_of_ne (hchange.2 ▸ hne) _, fun _ _ => rfl, nofun⟩
  | grow above values => exact h.grow_of_ne hne hchange values

end Mirror

/-! ### Runs -/

/-- The runs of both families and of one of them: its frames are found in the second run, and it
holds the same cursors there. -/
structure Shadow (family : CursorFamily) (owner : Cursor → CursorFamily) (place : Cursor → Cursor)
    (s s' : CursorRun) : Prop where
  mirror : Mirror family owner place s.table s'.table
  held : ∀ f, ∀ c ∈ s.held f, c < s.table.frames.size ∧ owner c = f
  held_eq : s'.held family = (s.held family).map place

namespace Shadow

variable {family : CursorFamily} {owner : Cursor → CursorFamily} {place : Cursor → Cursor}
  {s s' : CursorRun} {a : CursorAction} {c : Cursor}

theorem among (h : Shadow family owner place s s') (hc : c ∈ s.held a.family) :
    (a.op.change s.table c).Among fun x => x < s.table.frames.size ∧ owner x = a.family := by
  obtain ⟨hlt, ho⟩ := h.held a.family c hc
  refine a.op.among_path.imp fun x hx => ⟨?_, (h.mirror.owner_of_mem_path x hx).trans ho⟩
  exact Nat.lt_of_le_of_lt (CursorTable.le_of_mem_path hx) hlt

/-- The cursors that are held after an operation belong to those who hold them. -/
theorem held_run (h : Shadow family owner place s s') (hc : c ∈ s.held a.family)
    {owner' : Cursor → CursorFamily}
    (hsize : s.table.frames.size ≤ ((a.op.change s.table c).apply s.table).frames.size)
    (hagree : ∀ y < s.table.frames.size, owner' y = owner y)
    (htop : ∀ y ∈ (a.op.change s.table c).top? s.table,
      y < ((a.op.change s.table c).apply s.table).frames.size ∧ owner' y = a.family) :
    ∀ f, ∀ y ∈ Function.update s.held a.family
        (s.held a.family ++ (a.op.run s.table c).2.1.toList) f,
      y < ((a.op.change s.table c).apply s.table).frames.size ∧ owner' y = f := by
  have hold {f : CursorFamily} {y : Cursor} (hlt : y < s.table.frames.size) (ho : owner y = f) :
      y < ((a.op.change s.table c).apply s.table).frames.size ∧ owner' y = f :=
    ⟨Nat.lt_of_lt_of_le hlt hsize, (hagree y hlt).trans ho⟩
  intro f y hy
  by_cases hf : f = a.family
  · subst hf
    rw [Function.update_self] at hy
    rcases List.mem_append.1 hy with hy | hy
    · exact hold (h.held _ y hy).1 (h.held _ y hy).2
    · obtain ⟨hlt, ho⟩ := h.held a.family c hc
      rw [Option.mem_toList, CursorOp.cursor_run] at hy
      rcases Option.or_eq_some_iff.1 hy with hy | ⟨-, hy⟩
      · have hmem : y ∈ s.table.path c := CursorOp.mem_path_of_reached? h.mirror.ordered hy
        exact hold (Nat.lt_of_le_of_lt (CursorTable.le_of_mem_path hmem) hlt)
          ((h.mirror.owner_of_mem_path y hmem).trans ho)
      · exact htop y hy
  · rw [Function.update_of_ne hf] at hy
    exact hold (h.held f y hy).1 (h.held f y hy).2

/-- What is held in the second run after an operation is what is held in the first. -/
theorem held_eq_run (h : Shadow a.family owner place s s') (hc : c ∈ s.held a.family)
    {owner' : Cursor → CursorFamily} {place' : Cursor → Cursor}
    (hagree : ∀ y < s.table.frames.size, owner' y = owner y ∧ place' y = place y)
    (htop : ((a.op.change s.table c).map place).top? s'.table =
      ((a.op.change s.table c).top? s.table).map place') :
    s'.held a.family ++ (a.op.run s'.table (place c)).2.1.toList =
      (s.held a.family ++ (a.op.run s.table c).2.1.toList).map place' := by
  obtain ⟨hlt, ho⟩ := h.held a.family c hc
  have hheld : s'.held a.family = (s.held a.family).map place' := by
    rw [h.held_eq]
    exact List.map_congr_left fun y hy => (hagree y (h.held a.family y hy).1).2.symm
  have hreached : (a.op.reached? s.table c).map place = (a.op.reached? s.table c).map place' := by
    refine Option.map_congr fun y hy => ?_
    have hmem : y ∈ s.table.path c := CursorOp.mem_path_of_reached? h.mirror.ordered hy
    have hle : y ≤ c := CursorTable.le_of_mem_path hmem
    exact (hagree y (Nat.lt_of_le_of_lt hle hlt)).2.symm
  rw [CursorOp.cursor_run, h.mirror.reached?_eq hlt ho, h.mirror.change_eq hlt ho, htop, hreached,
    ← Option.map_or, CursorOp.cursor_run, hheld, List.map_append, Option.toList_map]

/-- **A step of the family** is answered the same in both runs. -/
theorem step (h : Shadow family owner place s s') (ha : a.family = family) :
    (s'.step a).1.reply = (s.step a).1.reply ∧
      ∃ owner' place', Shadow family owner' place' (s.step a).2 (s'.step a).2 := by
  subst ha
  have hget : (s'.held a.family)[a.cursor]? = ((s.held a.family)[a.cursor]?).map place := by
    rw [h.held_eq, List.getElem?_map]
  unfold CursorRun.step
  cases hc : (s.held a.family)[a.cursor]? with
  | none =>
    rw [hc] at hget
    rw [hget]
    exact ⟨rfl, owner, place, h⟩
  | some c =>
    rw [hc, Option.map_some] at hget
    rw [hget]
    have hmem : c ∈ s.held a.family := List.mem_of_getElem? hc
    obtain ⟨hlt, ho⟩ := h.held a.family c hmem
    obtain ⟨owner', place', hmirror, hagree, htop, howned⟩ := h.mirror.apply (h.among hmem)
    have hheld := h.held_run hmem (CursorChange.size_le_apply _ _)
      (fun y hy => (hagree y hy).1) howned
    refine ⟨congrArg (Prod.mk a) (h.mirror.answer_eq hlt ho a.op), owner', place', ?_, ?_, ?_⟩
    · dsimp only
      rw [CursorOp.table_run, CursorOp.table_run, h.mirror.change_eq hlt ho]
      exact hmirror
    · dsimp only
      rw [CursorOp.table_run]
      exact hheld
    · dsimp only
      rw [Function.update_self, Function.update_self]
      exact h.held_eq_run hmem hagree htop

/-- **A step of the other family** leaves the second run as it is. -/
theorem step_of_ne (h : Shadow family owner place s s') (ha : a.family ≠ family) :
    ∃ owner', Shadow family owner' place (s.step a).2 s' := by
  unfold CursorRun.step
  cases hc : (s.held a.family)[a.cursor]? with
  | none => exact ⟨owner, h⟩
  | some c =>
    have hmem : c ∈ s.held a.family := List.mem_of_getElem? hc
    obtain ⟨owner', hmirror, hagree, howned⟩ := h.mirror.apply_of_ne ha (h.among hmem)
    refine ⟨owner', ?_, ?_, ?_⟩
    · dsimp only
      rw [CursorOp.table_run]
      exact hmirror
    · dsimp only
      rw [CursorOp.table_run]
      exact h.held_run hmem (CursorChange.size_le_apply _ _) hagree howned
    · dsimp only
      rw [Function.update_of_ne ha.symm]
      exact h.held_eq

end Shadow

/-- What a family is answered, with its actions. -/
def replies (family : CursorFamily) (es : List CursorEntry) :
    List (CursorAction × CursorAnswer) :=
  (es.map CursorEntry.reply).filter fun r => r.1.family = family

/-- **A family is answered** as in a run of its own. -/
theorem Shadow.replies_eq {family : CursorFamily} {owner : Cursor → CursorFamily}
    {place : Cursor → Cursor} {s s' : CursorRun} (h : Shadow family owner place s s')
    (as : List CursorAction) : replies family (s.entries as) =
      replies family (s'.entries (as.filter fun a => a.family = family)) := by
  induction as generalizing s s' owner place with
  | nil => rfl
  | cons a as ih =>
    have hfamily (s : CursorRun) : (s.step a).1.reply.1 = a := s.action_step a
    rw [CursorRun.entries, replies, List.map_cons, List.filter_cons, hfamily, List.filter_cons]
    by_cases ha : a.family = family
    · obtain ⟨hreply, owner', place', h'⟩ := h.step ha
      rw [if_pos (decide_eq_true ha), if_pos (decide_eq_true ha), CursorRun.entries, replies,
        List.map_cons, List.filter_cons, hfamily, if_pos (decide_eq_true ha), hreply]
      exact congrArg _ (ih h')
    · obtain ⟨owner', h'⟩ := h.step_of_ne ha
      rw [if_neg (by simpa using ha), if_neg (by simpa using ha)]
      exact ih h'

namespace CursorRun

/-- One family, with the last frame of a chain of its own. -/
def alone (family : CursorFamily) (values : List FrameValue) : CursorRun :=
  let r := CursorTable.empty.grow none values
  ⟨r.2, Function.update (fun _ => []) family r.1.toList⟩

/-- The first family with a root, and nothing else. -/
def start : CursorRun := alone .first [.root]

/-- The second family is given a fork of a cursor, and holds nothing else. -/
def fork (s : CursorRun) (c : Cursor) : CursorRun :=
  let r := s.table.fork c
  ⟨r.2, Function.update s.held .second [r.1]⟩

/-- Operations of the first family. -/
def solo (ops : List (Nat × CursorOp)) : List CursorAction := ops.map fun o => ⟨.first, o.1, o.2⟩

theorem first_ne_second : CursorFamily.first ≠ .second := nofun

theorem getElem?_empty (x : Cursor) : CursorTable.empty.frames[x]? = none := rfl

theorem valid_alone (family : CursorFamily) (values : List FrameValue) :
    (alone family values).Valid := by
  have hempty : CursorTable.empty.Ordered := fun x frame hx => by
    rw [getElem?_empty] at hx
    cases hx
  obtain ⟨hordered, htop⟩ := hempty.grow_none values
  refine ⟨hordered, fun f c hc => ?_⟩
  unfold alone at hc ⊢
  dsimp only at hc ⊢
  by_cases hf : f = family
  · subst hf
    rw [Function.update_self] at hc
    exact htop c (Option.mem_toList.1 hc)
  · rw [Function.update_of_ne hf] at hc
    cases hc

theorem message?_alone (family : CursorFamily) (values : List FrameValue) (f : Cursor)
    (key : String) : (alone family values).table.message? f key = none :=
  CursorTable.message?_grow CursorTable.empty f key none values

theorem valid_start : start.Valid := valid_alone .first [.root]

theorem message?_start (f : Cursor) (key : String) : start.table.message? f key = none :=
  message?_alone .first [.root] f key

variable {s : CursorRun} {c : Cursor}

/-- The fork is the lowest of the new frames. -/
theorem fork_eq (s : CursorRun) (c : Cursor) :
    ∃ top, (s.table.grow none (s.table.values c)).1 = some top ∧ s.fork c =
      ⟨(s.table.grow none (s.table.values c)).2, Function.update s.held .second [top]⟩ := by
  rw [fork, CursorTable.fork_eq]
  cases hpath : s.table.path c with
  | nil => exact absurd hpath (List.ne_nil_of_mem CursorTable.mem_path_self)
  | cons x xs =>
    rw [CursorTable.values, hpath]
    exact ⟨_, rfl, rfl⟩

theorem Valid.fork (h : s.Valid) (c : Cursor) : (s.fork c).Valid := by
  obtain ⟨top, htop, hfork⟩ := s.fork_eq c
  obtain ⟨hordered, hlt⟩ := h.ordered.grow_none (s.table.values c)
  rw [hfork]
  refine ⟨hordered, fun f y hy => ?_⟩
  dsimp only at hy ⊢
  by_cases hf : f = .second
  · subst hf
    rw [Function.update_self] at hy
    exact hlt y (htop.trans (congrArg some (List.mem_singleton.1 hy).symm))
  · rw [Function.update_of_ne hf] at hy
    exact Nat.lt_of_lt_of_le (h.held f y hy) (s.table.size_le_grow none _)

theorem message?_fork (s : CursorRun) (c f : Cursor) (key : String) :
    (s.fork c).table.message? f key = s.table.message? f key := by
  obtain ⟨top, -, hfork⟩ := s.fork_eq c
  rw [hfork]
  exact CursorTable.message?_grow s.table f key none _

/-- What is held after a fork belongs to those who hold it. -/
theorem held_fork {owner : Cursor → CursorFamily} (h : s.Valid)
    (hagree : ∀ y < s.table.frames.size, owner y = .first)
    (hnew : ∀ y ∈ (s.table.grow none (s.table.values c)).1,
      y < (s.table.grow none (s.table.values c)).2.frames.size ∧ owner y = .second) :
    ∀ f, ∀ y ∈ (s.fork c).held f, y < (s.fork c).table.frames.size ∧ owner y = f := by
  obtain ⟨top, htop, hfork⟩ := s.fork_eq c
  rw [hfork]
  intro f y hy
  dsimp only at hy ⊢
  cases f with
  | first =>
    rw [Function.update_of_ne first_ne_second] at hy
    have hlt := h.held .first y hy
    exact ⟨Nat.lt_of_lt_of_le hlt (s.table.size_le_grow none _), hagree y hlt⟩
  | second =>
    rw [Function.update_self] at hy
    exact hnew y (htop.trans (congrArg some (List.mem_singleton.1 hy).symm))

/-- The first family goes on as if there were no fork. -/
theorem shadow_first (h : s.Valid) (c : Cursor) :
    ∃ owner, Shadow .first owner id (s.fork c) s := by
  have hmirror : Mirror .first (fun _ => .first) id s.table s.table := by
    refine ⟨fun x frame hx p hp => ⟨h.ordered x frame hx p hp, rfl⟩, fun x frame hx _ => ?_,
      fun x y hxy _ _ _ => hxy⟩
    rw [Option.map_id]
    exact hx
  have habove : ∀ p ∈ (none : Option Cursor),
      p < s.table.frames.size ∧ CursorFamily.first = .second := nofun
  obtain ⟨owner, hgrow, hagree, hnew⟩ :=
    hmirror.grow_of_ne first_ne_second.symm habove (s.table.values c)
  obtain ⟨top, htop, hfork⟩ := s.fork_eq c
  refine ⟨owner, ?_, held_fork h hagree hnew, ?_⟩
  · rw [hfork]
    exact hgrow
  · rw [hfork]
    dsimp only
    rw [Function.update_of_ne first_ne_second, List.map_id]

/-- The second family goes on as if the fork were a chain of its own. -/
theorem shadow_second (h : s.Valid) (c : Cursor) : ∃ owner place,
    Shadow .second owner place (s.fork c) (alone .second (s.table.values c)) := by
  have hmirror : Mirror .second (fun _ => .first) id s.table CursorTable.empty := by
    refine ⟨fun x frame hx p hp => ⟨h.ordered x frame hx p hp, rfl⟩, nofun, ?_⟩
    exact fun x y hxy _ _ _ => hxy
  have habove : ∀ p ∈ (none : Option Cursor),
      p < s.table.frames.size ∧ CursorFamily.first = .second := nofun
  obtain ⟨owner, place, hgrow, hagree, hplace, hnew⟩ := hmirror.grow habove (s.table.values c)
  obtain ⟨top, htop, hfork⟩ := s.fork_eq c
  refine ⟨owner, place, ?_, held_fork h (fun y hy => (hagree y hy).1) hnew, ?_⟩
  · rw [hfork]
    exact hgrow
  · rw [htop] at hplace
    rw [hfork, alone]
    dsimp only
    rw [Function.update_self, Function.update_self]
    exact congrArg Option.toList hplace

theorem entries_append (s : CursorRun) (as bs : List CursorAction) :
    s.entries (as ++ bs) = s.entries as ++ (s.after as).entries bs := by
  induction as generalizing s with
  | nil => rfl
  | cons a as ih => exact congrArg _ (ih (s.step a).2)

/-- All replies are to the one family that acts. -/
theorem replies_of_forall {family : CursorFamily} (s : CursorRun) {as : List CursorAction}
    (h : ∀ a ∈ as, a.family = family) :
    replies family (s.entries as) = (s.entries as).map CursorEntry.reply := by
  refine List.filter_eq_self.2 fun r hr => ?_
  obtain ⟨e, he, rfl⟩ := List.mem_map.1 hr
  have hmem : e.action ∈ (s.entries as).map CursorEntry.action := List.mem_map_of_mem he
  rw [map_action_entries] at hmem
  exact decide_eq_true (h e.action hmem)

/-- What a family is answered where it acts alone on frames without messages. -/
theorem polled_subperm_replies (h : s.Valid) (hempty : ∀ f key, s.table.message? f key = none)
    {family : CursorFamily} {as : List CursorAction} (hfamily : ∀ a ∈ as, a.family = family) :
    ((replies family (s.entries as)).filterMap polled?).Subperm
      ((replies family (s.entries as)).filterMap put?) := by
  rw [replies_of_forall s hfamily]
  exact polled_subperm h hempty as

/-- **A fork shares nothing** with the cursor it is taken of. At any moment of a run of the first
family the second is given a fork of a cursor, and then both act in any order. Each is answered as
if the other did nothing, and the first as if there were no fork. No family takes a message more
often than it has put it, and the nearest message is the one left on the first frame on the way up
where one of the type is left. -/
theorem fork_isolated (before : List (Nat × CursorOp)) (c : Cursor) (actions : List CursorAction) :
    let s := (start.after (solo before)).fork c
    let past := start.entries (solo before)
    (∀ family, replies family (s.entries actions) =
      replies family (s.entries (actions.filter fun a => a.family = family))) ∧
    replies .first (s.entries actions) = replies .first
      ((start.after (solo before)).entries (actions.filter fun a => a.family = .first)) ∧
    ((replies .first (past ++ s.entries actions)).filterMap polled?).Subperm
      ((replies .first (past ++ s.entries actions)).filterMap put?) ∧
    ((replies .second (s.entries actions)).filterMap polled?).Subperm
      ((replies .second (s.entries actions)).filterMap put?) ∧
    ∀ d key type m, (s.after actions).table.nearest? d key type = some m ↔
      Nearest (s.after actions).table (fun f => left f key none (past ++ s.entries actions)) type
        d m := by
  intro s past
  have hvalid : (start.after (solo before)).Valid := valid_start.after _
  obtain ⟨owner₁, hfirst⟩ := shadow_first hvalid c
  obtain ⟨owner₂, place₂, hsecond⟩ := shadow_second hvalid c
  refine ⟨fun family => ?_, hfirst.replies_eq actions, ?_, ?_, fun d key type m => ?_⟩
  · cases family with
    | first =>
      rw [hfirst.replies_eq, hfirst.replies_eq, List.filter_filter]
      simp only [Bool.and_self]
    | second =>
      rw [hsecond.replies_eq, hsecond.replies_eq, List.filter_filter]
      simp only [Bool.and_self]
  · -- without the other family the first goes on from its own past
    have hpast : replies .first (past ++ s.entries actions) = replies .first
        (start.entries (solo before ++ actions.filter fun a => a.family = .first)) := by
      rw [entries_append, replies, replies, List.map_append, List.map_append, List.filter_append,
        List.filter_append]
      exact congrArg _ (hfirst.replies_eq actions)
    rw [hpast]
    refine polled_subperm_replies valid_start message?_start fun a ha => ?_
    rcases List.mem_append.1 ha with ha | ha
    · obtain ⟨o, -, rfl⟩ := List.mem_map.1 ha
      rfl
    · exact of_decide_eq_true (List.mem_filter.1 ha).2
  · rw [hsecond.replies_eq]
    exact polled_subperm_replies (valid_alone .second _) (message?_alone .second _)
      fun a ha => of_decide_eq_true (List.mem_filter.1 ha).2
  · have hforked : s.Valid := hvalid.fork c
    have hleft (f : Cursor) : (s.after actions).table.message? f key =
        left f key none (past ++ s.entries actions) := by
      rw [message?_after hforked, message?_fork, message?_after valid_start, message?_start, left,
        left, left, List.foldl_append]
    rw [(hforked.after actions).ordered.nearest?_eq_some_iff, funext hleft]

end CursorRun

end JavaSource
