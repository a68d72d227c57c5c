import JavaSource.Proofs.Filing
import Mathlib.Algebra.GroupWithZero.Nat
import Mathlib.Data.Finset.Card
import Mathlib.Data.List.Infix

/-!
# The nodes of a path trie

Putting a handle at the end of a path makes a node for each of its beginnings that has none
(`PathTrie.hasNode_insert`, `PathTrie.nodeCount_insert`).  So a trie that came from the empty one by
putting in paths has a node for each of their beginnings, and its size is the number of these, those
that several paths share counted once (`PathTrie.Holds`).
-/

namespace JavaSource

/-- What is added up over all entries grows by what the changed entry grows by. -/
theorem sum_map_alter {κ α : Type} [DecidableEq κ] {key : κ} {f : Option α → α} {g : κ × α → Nat}
    {n : Nat} {xs : List (κ × α)}
    (h : g (key, f (valueAt key xs)) = n + (valueAt key xs).elim 0 fun a => g (key, a)) :
    ((alter key f xs).map g).sum = n + (xs.map g).sum := by
  induction xs with
  | nil => simpa [alter, valueAt] using h
  | cons x xs ih =>
    obtain ⟨k, a⟩ := x
    rw [alter]
    rw [valueAt] at h
    by_cases hk : k = key
    · subst hk
      rw [if_pos rfl] at h ⊢
      simp only [Option.elim_some] at h
      simp only [List.map_cons, List.sum_cons, h]
      omega
    · rw [if_neg hk] at h ⊢
      simp only [List.map_cons, List.sum_cons, ih h]
      omega

namespace PathTrie

variable {t : PathTrie} {p q : List TypeHandle} {paths : List (List TypeHandle)} {h : TypeHandle}

/-! ### Beginnings of paths -/

/-- The beginnings of a path, but for the empty one. -/
def starts (p : List TypeHandle) : List (List TypeHandle) := p.inits.tail

@[simp] theorem starts_nil : starts [] = [] := rfl

@[simp] theorem starts_cons (key : TypeHandle) (p : List TypeHandle) :
    starts (key :: p) = [key] :: (starts p).map (key :: ·) := by
  cases p <;> simp [starts]

theorem mem_starts : q ∈ starts p ↔ q ≠ [] ∧ q <+: p := by
  induction p generalizing q with
  | nil => simp
  | cons key p ih =>
    cases q with
    | nil => simp
    | cons k q =>
      by_cases hq : q = [] <;> simp [ih, List.cons_prefix_cons, hq, eq_comm, and_comm]

theorem nodup_starts (p : List TypeHandle) : (starts p).Nodup := by
  induction p with
  | nil => exact List.nodup_nil
  | cons key p ih =>
    rw [starts_cons, List.nodup_cons]
    refine ⟨fun hmem => ?_, ih.map (List.cons_injective)⟩
    obtain ⟨q, hq, heq⟩ := List.mem_map.1 hmem
    exact (mem_starts.1 hq).1 (List.cons.inj heq).2

/-! ### Nodes -/

/-- There is a node at the end of the path. -/
def hasNode : List TypeHandle → PathTrie → Bool
  | [], _ => true
  | key :: p, t => (valueAt key t.children).any (hasNode p)

@[simp] theorem hasNode_nil (t : PathTrie) : t.hasNode [] = true := rfl

theorem hasNode_empty (key : TypeHandle) (p : List TypeHandle) :
    empty.hasNode (key :: p) = false := rfl

theorem hasNode_of_begins (hq : q <+: p) (hp : t.hasNode p) : t.hasNode q := by
  induction p generalizing q t with
  | nil => rw [List.prefix_nil.1 hq, hasNode_nil]
  | cons key p ih =>
    cases q with
    | nil => rfl
    | cons k q =>
      obtain ⟨rfl, hrest⟩ := List.cons_prefix_cons.1 hq
      rw [hasNode, Option.any_eq_true] at hp ⊢
      obtain ⟨child, hchild, hp⟩ := hp
      exact ⟨child, hchild, ih hrest hp⟩

theorem hasNode_of_find? (hh : t.find? p = some h) : t.hasNode p := by
  induction p generalizing t with
  | nil => rfl
  | cons key p ih =>
    obtain ⟨child, hchild, hh⟩ := Option.bind_eq_some_iff.1 hh
    rw [hasNode, Option.any_eq_true]
    exact ⟨child, hchild, ih hh⟩

theorem hasNode_insert (h : TypeHandle) (p q : List TypeHandle) (t : PathTrie) :
    (t.insert h p).hasNode q ↔ q <+: p ∨ t.hasNode q := by
  induction p generalizing q t with
  | nil => cases q <;> simp [insert, hasNode]
  | cons key p ih =>
    cases q with
    | nil => simp
    | cons k q =>
      simp only [insert, hasNode, children_node, valueAt_alter, List.cons_prefix_cons]
      by_cases hk : k = key
      · subst hk
        simp only [↓reduceIte, Option.any_some, ih, true_and]
        cases valueAt k t.children with
        | none => cases q <;> simp [hasNode_empty]
        | some child => rfl
      · simp [hk]

theorem nodeCount_eq (t : PathTrie) :
    t.nodeCount = (t.children.map fun c => 1 + c.2.nodeCount).sum := by
  obtain ⟨l, cs⟩ := t
  have hattach := List.foldr_subtype (l := cs.attach) (x := 0)
    (f := fun c n => 1 + nodeCount c.1.2 + n) (g := fun c n => 1 + nodeCount c.2 + n)
    fun _ _ _ => rfl
  rw [nodeCount, children_node, hattach, List.unattach_attach, List.sum_eq_foldr, List.foldr_map]

theorem nodeCount_empty : empty.nodeCount = 0 := by
  rw [nodeCount_eq]
  rfl

/-- A node is made for each beginning of the path that has none. -/
theorem nodeCount_insert (h : TypeHandle) (p : List TypeHandle) (t : PathTrie) :
    (t.insert h p).nodeCount = (starts p).countP (!t.hasNode ·) + t.nodeCount := by
  induction p generalizing t with
  | nil =>
    rw [insert, nodeCount_eq, nodeCount_eq t, starts_nil, List.countP_nil, Nat.zero_add,
      children_node]
  | cons key p ih =>
    rw [insert, nodeCount_eq, nodeCount_eq t, children_node]
    refine sum_map_alter ?_
    simp only [starts_cons, List.countP_cons, List.countP_map, Function.comp_def, hasNode, ih]
    obtain hv | ⟨child, hv⟩ := Option.eq_none_or_eq_some (valueAt key t.children)
    · -- the first step makes a node, and below it there are none yet
      have hnew : ∀ q ∈ starts p, empty.hasNode q = false := fun q hq => by
        cases q with
        | nil => exact absurd rfl (mem_starts.1 hq).1
        | cons => rfl
      have hall := List.countP_congr (l := starts p) (p := (!empty.hasNode ·)) (q := fun _ => true)
        fun q hq => by simp [hnew q hq]
      simp only [hv, Option.getD_none, Option.any_none, Option.elim_none, nodeCount_empty, hall]
      simp only [Bool.not_false, if_true]
      omega
    · simp only [hv, Option.getD_some, Option.any_some, Option.elim_some, Bool.not_true,
        Bool.false_eq_true, if_false]
      omega

/-! ### Tries of paths -/

/-- The nodes of the trie are those that the paths need. -/
structure Holds (t : PathTrie) (paths : List (List TypeHandle)) : Prop where
  hasNode : ∀ q, q ≠ [] → (t.hasNode q ↔ q ∈ paths.flatMap starts)
  nodeCount : t.nodeCount = (paths.flatMap starts).toFinset.card

namespace Holds

protected theorem empty : empty.Holds [] where
  hasNode q hq := by
    cases q with
    | nil => exact absurd rfl hq
    | cons key q => simp [hasNode_empty]
  nodeCount := nodeCount_empty

variable (ht : t.Holds paths)

include ht

theorem insert (h : TypeHandle) (p : List TypeHandle) : (t.insert h p).Holds (paths ++ [p]) where
  hasNode q hq := by
    rw [hasNode_insert, ht.hasNode q hq, List.flatMap_append, List.flatMap_singleton,
      List.mem_append, mem_starts, or_comm, and_iff_right hq]
  nodeCount := by
    have hnew : ((starts p).filter (!t.hasNode ·)).toFinset =
        (starts p).toFinset \ (paths.flatMap starts).toFinset := by
      ext q
      rw [Finset.mem_sdiff, List.mem_toFinset, List.mem_toFinset, List.mem_toFinset,
        List.mem_filter]
      refine and_congr_right fun hq => ?_
      rw [← ht.hasNode q (mem_starts.1 hq).1]
      simp
    calc (t.insert h p).nodeCount
        = ((starts p).filter (!t.hasNode ·)).length + t.nodeCount := by
          rw [nodeCount_insert, List.countP_eq_length_filter]
      _ = ((starts p).toFinset \ (paths.flatMap starts).toFinset).card +
            (paths.flatMap starts).toFinset.card := by
          rw [← hnew, List.toFinset_card_of_nodup ((nodup_starts p).filter _), ht.nodeCount]
      _ = ((paths ++ [p]).flatMap starts).toFinset.card := by
          rw [Finset.card_sdiff_add_card, Finset.union_comm, List.flatMap_append,
            List.flatMap_singleton, List.toFinset_append]

/-- A path with a node at its end needs no more nodes. -/
theorem again (hp : t.hasNode p) : t.Holds (paths ++ [p]) := by
  have hsame : ∀ q, q ∈ (paths ++ [p]).flatMap starts ↔ q ∈ paths.flatMap starts := by
    intro q
    rw [List.flatMap_append, List.flatMap_singleton, List.mem_append, or_iff_left_iff_imp]
    intro hq
    obtain ⟨hne, hq⟩ := mem_starts.1 hq
    exact (ht.hasNode q hne).1 (hasNode_of_begins hq hp)
  refine ⟨fun q hq => (ht.hasNode q hq).trans (hsame q).symm, ht.nodeCount.trans ?_⟩
  congr 1
  ext q
  rw [List.mem_toFinset, List.mem_toFinset, hsame q]

end Holds

end PathTrie

end JavaSource
