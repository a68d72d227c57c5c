import JavaSource.Types.Handle

/-!
# Look-up tables for handles

A `Table` keeps the handles registered under each key, in the order in which they came. A
`PathTrie` keeps one handle at the end of a path of handles and shares the starts of paths.
-/

namespace JavaSource

/-- Changes the value at a key, or puts one at the end. -/
def alter {κ α : Type} [DecidableEq κ] (key : κ) (f : Option α → α) : List (κ × α) → List (κ × α)
  | [] => [(key, f none)]
  | (k, a) :: rest => if k = key then (k, f (some a)) :: rest else (k, a) :: alter key f rest

/-- The value at a key. -/
def valueAt {κ α : Type} [DecidableEq κ] (key : κ) : List (κ × α) → Option α
  | [] => none
  | (k, a) :: rest => if k = key then some a else valueAt key rest

theorem valueAt_alter {κ α : Type} [DecidableEq κ] (key k : κ) (f : Option α → α)
    (xs : List (κ × α)) :
    valueAt k (alter key f xs) = if k = key then some (f (valueAt key xs)) else valueAt k xs := by
  induction xs with
  | nil => by_cases h : k = key <;> simp_all [alter, valueAt, eq_comm]
  | cons x xs ih => by_cases h₁ : x.1 = key <;> by_cases h₂ : k = key <;> grind [alter, valueAt]

/-- The handles registered under each key. -/
structure Table (κ : Type) where
  entries : List (κ × List TypeHandle)

namespace Table

variable {κ : Type} [DecidableEq κ]

/-- No entries. -/
def empty : Table κ := ⟨[]⟩

/-- The handles under a key, in the order in which they were registered. -/
def get (t : Table κ) (key : κ) : List TypeHandle := (valueAt key t.entries).getD []

/-- Registers a handle under a key. -/
def push (t : Table κ) (key : κ) (h : TypeHandle) : Table κ :=
  ⟨alter key (fun old => old.getD [] ++ [h]) t.entries⟩

/-- The number of keys. -/
def keyCount (t : Table κ) : Nat := t.entries.length

/-- The number of handles under all keys. -/
def handleCount (t : Table κ) : Nat := (t.entries.flatMap Prod.snd).length

@[simp] theorem get_empty (key : κ) : (empty : Table κ).get key = [] := rfl

theorem get_push (t : Table κ) (key k : κ) (h : TypeHandle) :
    (t.push key h).get k = if k = key then t.get key ++ [h] else t.get k := by
  simp only [get, push, valueAt_alter]
  by_cases hk : k = key <;> simp [hk]

end Table

/-- Handles at the ends of paths. -/
inductive PathTrie where
  | node (leaf : Option TypeHandle) (children : List (TypeHandle × PathTrie))

namespace PathTrie

/-- No paths. -/
def empty : PathTrie := node none []

/-- The handle at the end of this node's own path. -/
def leaf : PathTrie → Option TypeHandle
  | node l _ => l

/-- The nodes one step further. -/
def children : PathTrie → List (TypeHandle × PathTrie)
  | node _ cs => cs

@[simp] theorem leaf_node (l : Option TypeHandle) (cs : List (TypeHandle × PathTrie)) :
    (node l cs).leaf = l := rfl

@[simp] theorem children_node (l : Option TypeHandle) (cs : List (TypeHandle × PathTrie)) :
    (node l cs).children = cs := rfl

/-- The handle at the end of a path. -/
def find? : List TypeHandle → PathTrie → Option TypeHandle
  | [], t => t.leaf
  | key :: path, t => (valueAt key t.children).bind (find? path)

/-- Puts a handle at the end of a path. -/
def insert (h : TypeHandle) : List TypeHandle → PathTrie → PathTrie
  | [], t => node (some h) t.children
  | key :: path, t => node t.leaf (alter key (fun old => insert h path (old.getD empty)) t.children)

/-- The number of nodes below this one. -/
def nodeCount : PathTrie → Nat
  | node _ cs => cs.attach.foldr (fun c n => 1 + nodeCount c.1.2 + n) 0
decreasing_by
  have h₁ := List.sizeOf_lt_of_mem c.2
  have h₂ : sizeOf c.1 = 1 + sizeOf c.1.1 + sizeOf c.1.2 := rfl
  simp only [node.sizeOf_spec]
  omega

theorem find?_empty (path : List TypeHandle) : find? path empty = none := by
  cases path <;> rfl

theorem find?_insert (h : TypeHandle) (path other : List TypeHandle) (t : PathTrie) :
    find? other (insert h path t) = if other = path then some h else find? other t := by
  induction path generalizing other t with
  | nil => cases other <;> simp [insert, find?]
  | cons key path ih =>
    cases other with
    | nil => simp [insert, find?]
    | cons k other =>
      simp only [insert, find?, children_node, valueAt_alter]
      by_cases hk : k = key
      · subst hk
        simp only [↓reduceIte, Option.bind_some, ih, List.cons.injEq, true_and]
        cases valueAt k t.children with
        | none => simp [find?_empty]
        | some child => simp
      · simp [hk]

end PathTrie

end JavaSource
