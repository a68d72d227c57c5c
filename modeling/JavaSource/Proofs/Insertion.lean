import JavaSource.Proofs.DeletedTrail
import JavaSource.Proofs.Formatting
import JavaSource.Proofs.LocalDeletion
import JavaSource.Tree.Edit
import Mathlib.Data.List.Nodup

/-!
# Inserted statements

`Tree.Gains s parent t u` says that `u` is `t` with the statement `s` put into blocks that hold no
members, behind their first statements.  To delete the statement gives the tree back
(`Tree.Gains.without_eq`), and what the formatter asks of a tree holds of the larger one if it holds
of the smaller one and of the statement.  `Tree.gains_replace` finds the relation where a block is
replaced by itself with the statement in it.
-/

namespace JavaSource.Tree

/-- Below a node of kind `parent`, the second tree is the first one with the statement `s` put into
some of its blocks, none of which holds members, each time behind the first statement of the block. -/
inductive Gains (s : Tree) : Option NodeKind → Tree → Tree → Prop
  | same {parent : Option NodeKind} (t : Tree) : Gains s parent t t
  | here {parent : Option NodeKind} {b : Tree} {place : Nat} (block : b.kind = .block)
    (code : parent.any NodeKind.hasMembers = false) (first : 1 ≤ place)
    (last : place ≤ b.children.length) : Gains s parent b (b.insertStatement place s)
  | inside {parent : Option NodeKind} {i : NodeId} {leading : Space} {x : Shape Tree}
    {f : Tree → Tree} (parts : ∀ c ∈ x.children, Gains s (some x.kind) c (f c)) :
    Gains s parent (.node i leading x) (.node i leading (x.map f))

variable {s t u : Tree} {parent : Option NodeKind}

/-! ### One block -/

theorem insertStatement_of_shape {b : Tree} {afterStatic : Option Space} {beforeClose : Space}
    {xs : List (Followed Tree)} (hx : b.shape = .block afterStatic xs beforeClose) (place : Nat) :
    b.insertStatement place s =
      b.withShape (.block afterStatic (xs.take place ++ .bare s :: xs.drop place) beforeClose) := by
  rw [insertStatement, hx]
  simp [List.splitAt_eq]

theorem id_insertStatement (b : Tree) (place : Nat) : (b.insertStatement place s).id = b.id := by
  obtain ⟨i, leading, x⟩ := b
  cases x <;> rfl

theorem kind_insertStatement (b : Tree) (place : Nat) :
    (b.insertStatement place s).kind = b.kind := by
  obtain ⟨i, leading, x⟩ := b
  cases x <;> rfl

theorem children_insertStatement {b : Tree} (hb : b.kind = .block) (place : Nat) :
    (b.insertStatement place s).children =
      b.children.take place ++ s :: b.children.drop place := by
  obtain ⟨afterStatic, xs, beforeClose, hx⟩ := exists_block hb
  rw [insertStatement_of_shape hx, children, children, shape_withShape, hx, Shape.children,
    Shape.children, items, items, List.map_append, List.map_cons, List.map_take, List.map_drop]
  rfl

theorem mem_children_insertStatement {b c : Tree} (hb : b.kind = .block) {place : Nat}
    (hc : c ∈ (b.insertStatement place s).children) : c = s ∨ c ∈ b.children := by
  rw [children_insertStatement hb] at hc
  rcases List.mem_append.1 hc with hc | hc
  · exact .inr (List.mem_of_mem_take hc)
  · rcases List.mem_cons.1 hc with hc | hc
    · exact .inl hc
    · exact .inr (List.mem_of_mem_drop hc)

theorem insertStatement_without {b : Tree} (hb : b.kind = .block)
    (hfresh : ∀ c ∈ b.preorder, c.id ≠ s.id) (place : Nat) :
    (b.insertStatement place s).without (· == s.id) = b := by
  obtain ⟨afterStatic, xs, beforeClose, hx⟩ := exists_block hb
  have hstay (c : Tree) (hc : c ∈ b.preorder) : (c.id == s.id) = false :=
    beq_eq_false_iff_ne.2 (hfresh c hc)
  have hxs (x : Followed Tree) (hmem : x ∈ xs) : (x.element.id == s.id) = false := by
    refine hstay _ (mem_preorder_of_mem_children ?_ x.element.self_mem_preorder)
    rw [children, hx]
    exact List.mem_map_of_mem hmem
  have hkeep : keep (· == s.id) (xs.take place ++ .bare s :: xs.drop place) =
      keep (· == s.id) xs := by
    rw [keep, keep, List.filter_append, List.filter_cons_of_neg (by simp [Followed.bare]),
      ← List.filter_append, List.take_append_drop]
  rw [insertStatement_of_shape hx, without_withShape_block, hkeep,
    ← without_withShape_block, ← hx]
  have hself : b.withShape b.shape = b := by cases b; rfl
  rw [hself]
  exact without_of_forall hstay

namespace Gains

/-! ### The tree and its parts -/

theorem id (h : Gains s parent t u) : u.id = t.id := by
  cases h with
  | same | inside => rfl
  | here => exact id_insertStatement ..

theorem kind (h : Gains s parent t u) : u.kind = t.kind := by
  cases h with
  | same => rfl
  | here => exact kind_insertStatement ..
  | inside => exact Shape.kind_map ..

theorem children_nil (h : Gains s parent t u) (ht : t.children = []) : u.children = [] := by
  cases h with
  | same => exact ht
  | here block code first last =>
    rw [ht] at last
    simp only [List.length_nil] at last
    omega
  | @inside _ i leading x f =>
    rw [children, shape, Shape.children_map, show x.children = [] from ht, List.map_nil]

/-- To delete the statement gives the tree back. -/
theorem without_eq (h : Gains s parent t u) (hfresh : ∀ c ∈ t.preorder, c.id ≠ s.id) :
    u.without (· == s.id) = t := by
  induction h with
  | same => exact without_of_forall fun c hc => beq_eq_false_iff_ne.2 (hfresh c hc)
  | here block => exact insertStatement_without block hfresh _
  | @inside parent i leading x f parts ih =>
    have hparts (c : Tree) (hc : c ∈ x.children) : (f c).without (· == s.id) = c :=
      ih c hc fun a ha => hfresh a (mem_preorder_of_mem_children hc ha)
    have hkept : ∀ c ∈ (x.map f).children, (c.id == s.id) = false := by
      rw [Shape.children_map, List.forall_mem_map]
      intro c hc
      rw [(parts c hc).id]
      exact beq_eq_false_iff_ne.2
        (hfresh c (mem_preorder_of_mem_children hc c.self_mem_preorder))
    rw [Tree.without_eq, shape, Shape.without_of_forall hkept, Shape.map_map, Shape.map_id hparts]
    rfl

/-! ### What the formatter asks of a tree -/

theorem spares (h : Gains s parent t u) (hfresh : ∀ c ∈ t.preorder, c.id ≠ s.id) :
    u.Spares (· == s.id) parent := by
  induction h with
  | same => exact spares_of_forall fun c hc => beq_eq_false_iff_ne.2 (hfresh c hc)
  | @here parent b place block code first last =>
    have hstay (c : Tree) (hc : c ∈ b.children) : (c.id == s.id) = false :=
      beq_eq_false_iff_ne.2 (hfresh c (mem_preorder_of_mem_children hc c.self_mem_preorder))
    refine spares_iff.2 ⟨fun _ c hc => ?_, fun _ hmembers => ?_, fun c hc hc' => ?_⟩
    · -- the first statement is one of the block, since the place is behind it
      rw [children_insertStatement block] at hc
      cases hb : b.children with
      | nil =>
        rw [hb] at last
        simp only [List.length_nil] at last
        omega
      | cons a as =>
        obtain ⟨n, rfl⟩ := Nat.exists_eq_add_of_le' first
        rw [hb, List.take_succ_cons, List.cons_append, List.head?_cons] at hc
        cases hc
        exact hstay _ (hb ▸ List.mem_cons_self)
    · rw [code] at hmembers
      cases hmembers
    · rcases mem_children_insertStatement block hc with rfl | hmem
      · have hself := hc' ((kind_insertStatement b place).trans block)
        simp at hself
      · exact spares_of_forall fun a ha =>
          beq_eq_false_iff_ne.2 (hfresh a (mem_preorder_of_mem_children hmem ha))
  | @inside parent i leading x f parts ih =>
    have hstay (c : Tree) (hc : c ∈ x.children) : ((f c).id == s.id) = false := by
      rw [(parts c hc).id]
      exact beq_eq_false_iff_ne.2
        (hfresh c (mem_preorder_of_mem_children hc c.self_mem_preorder))
    have hchildren : (node i leading (x.map f)).children = x.children.map f := Shape.children_map ..
    have hkind : (node i leading (x.map f)).kind = x.kind := Shape.kind_map ..
    rw [spares_iff, hchildren, hkind, List.head?_map]
    refine ⟨fun _ c hc => ?_, fun _ _ => ?_, ?_⟩
    · obtain ⟨a, ha, rfl⟩ := Option.map_eq_some_iff.1 hc
      exact hstay a (List.mem_of_mem_head? ha)
    · exact List.forall_mem_map.2 hstay
    · exact List.forall_mem_map.2 fun c hc _ =>
        ih c hc fun a ha => hfresh a (mem_preorder_of_mem_children hc ha)

theorem hasForHeader {i : NodeId} {leading : Space} {x : Shape Tree} {f : Tree → Tree}
    (parts : ∀ c ∈ x.children, Gains s (some x.kind) c (f c))
    (h : (node i leading x).HasForHeader) : (node i leading (x.map f)).HasForHeader := by
  obtain ⟨control, body, rfl, hcontrol⟩ := h
  have hkind := (parts control (by simp [Shape.children])).kind
  exact ⟨_, _, rfl, hkind.trans hcontrol⟩

theorem plain (h : Gains s parent t u) (ht : t.Plain) (hs : s.Plain) : u.Plain := by
  refine ⟨?_, h.kind ▸ ht.kind⟩
  replace ht := ht.housed
  induction h with
  | same => exact ht
  | @here parent b place block =>
    obtain ⟨hhere, hparts⟩ := housed_iff.1 ht
    refine housed_iff.2 ⟨fun c hc hkind => ?_, fun c hc => ?_⟩
    · rcases mem_children_insertStatement block hc with rfl | hmem
      · exact absurd hkind hs.kind
      · -- no header is in a block
        obtain ⟨_, _, hloop, -⟩ := hhere c hmem hkind
        rw [Tree.kind, hloop] at block
        cases block
    · rcases mem_children_insertStatement block hc with rfl | hmem
      · exact hs.housed
      · exact hparts c hmem
  | @inside parent i leading x f parts ih =>
    obtain ⟨hhere, hparts⟩ := housed_iff.1 ht
    have hchildren : (node i leading (x.map f)).children = x.children.map f := Shape.children_map ..
    rw [housed_iff, hchildren, List.forall_mem_map, List.forall_mem_map]
    refine ⟨fun c hc hkind => hasForHeader parts (hhere c hc ?_), fun c hc => ih c hc (hparts c hc)⟩
    rwa [← (parts c hc).kind]

theorem regular (h : Gains s parent t u) (ht : t.Regular) (hs : s.Regular) : u.Regular := by
  induction h with
  | same => exact ht
  | @here parent b place block =>
    have hkind := (kind_insertStatement (s := s) b place).trans block
    refine regular_iff.2 ⟨⟨fun h => ?_, fun name body h => ?_⟩, fun c hc => ?_⟩
    · rw [hkind] at h
      cases h
    · rw [Tree.kind, h] at hkind
      cases hkind
    · rcases mem_children_insertStatement block hc with rfl | hmem
      · exact hs
      · exact (regular_iff.1 ht).2 c hmem
  | @inside parent i leading x f parts ih =>
    obtain ⟨hhere, hparts⟩ := regular_iff.1 ht
    have hkind : (node i leading (x.map f)).kind = x.kind := Shape.kind_map ..
    have hchildren : (node i leading (x.map f)).children = x.children.map f := Shape.children_map ..
    rw [regular_iff, hchildren, List.forall_mem_map]
    refine ⟨⟨fun h => hasForHeader parts (hhere.loop (hkind.symm.trans h)), fun name body h => ?_⟩,
      fun c hc => ih c hc (hparts c hc)⟩
    have hrel : Shape.Rel (fun a b => b = f a) (fun _ => Eq) x (x.map f) :=
      Shape.rel_map fun _ _ => rfl
    rw [show x.map f = .labeled name body from h] at hrel
    cases hrel with
    | @labeled name' body' _ _ hname _ =>
      rw [hname.element]
      exact (parts name'.element (by simp [Shape.children])).children_nil (hhere.label _ _ rfl)

end Gains

/-! ### Replacing a block -/

section Replace

variable {b : Tree} {place : Nat}

theorem gains_replaceWithin (hblock : b.kind = .block) (hfirst : 1 ≤ place)
    (hlast : place ≤ b.children.length) (n : Nat) (hids : ∀ c ∈ t.preorder, c.id = b.id → c = b)
    (hcode : ∀ a ∈ t.preorder, b ∈ a.children → a.kind.hasMembers = false)
    (hparent : t = b → parent.any NodeKind.hasMembers = false) :
    Gains s parent t (replaceWithin b.id (b.insertStatement place s) n t) := by
  induction n generalizing t parent with
  | zero => exact .same t
  | succ n ih =>
    rw [replaceWithin]
    split
    · rename_i hid
      obtain rfl := hids t t.self_mem_preorder hid
      exact .here hblock (hparent rfl) hfirst hlast
    · cases t with
      | node i leading x =>
        refine .inside fun c hc => ih (fun a ha => hids a (mem_preorder_of_mem_children hc ha))
          (fun a ha => hcode a (mem_preorder_of_mem_children hc ha)) ?_
        rintro rfl
        exact hcode _ (self_mem_preorder _) hc

/-- A tree whose nodes have different identities gains the statement where one of its blocks is
replaced by itself with the statement in it. -/
theorem gains_replace (hids : (t.preorder.map Tree.id).Nodup) (hb : b ∈ t.preorder)
    (hblock : b.kind = .block)
    (hcode : ∀ a ∈ t.preorder, b ∈ a.children → a.kind.hasMembers = false) (hfirst : 1 ≤ place)
    (hlast : place ≤ b.children.length) :
    Gains s none t (t.replace b.id (b.insertStatement place s)) :=
  gains_replaceWithin hblock hfirst hlast _
    (fun _ hc hid => List.inj_on_of_nodup_map hids hc hb hid) hcode fun _ => rfl

end Replace

end JavaSource.Tree
