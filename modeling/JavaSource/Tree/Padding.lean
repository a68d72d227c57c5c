import JavaSource.Space.Basic

/-!
# Padded elements

A node owns the space before its first token. Spaces elsewhere belong to the wrappers of this
module: the space after an element, before the word that introduces it, or before the delimiter
that opens a list.
-/

namespace JavaSource

/-- An element and the space after it, before a separator, terminator or closing delimiter. -/
structure Followed (α : Type) where
  element : α
  after : Space

/-- An element and the space before the operator or keyword that introduces it. -/
structure Preceded (α : Type) where
  before : Space
  element : α

/-- A list of elements and the space before the delimiter or keyword that opens it. -/
structure Series (α : Type) where
  before : Space
  elements : List (Followed α)

namespace Followed

/-- An element with nothing after it. -/
def bare {α : Type} (a : α) : Followed α := ⟨a, .empty⟩

/-- Another element with the same space after it. -/
def map {α β : Type} (f : α → β) (x : Followed α) : Followed β := ⟨f x.element, x.after⟩

/-- The same element with another space after it. -/
def mapAfter {α : Type} (f : Space → Space) (x : Followed α) : Followed α := ⟨x.element, f x.after⟩

end Followed

namespace Preceded

/-- Another element with the same space before it. -/
def map {α β : Type} (f : α → β) (x : Preceded α) : Preceded β := ⟨x.before, f x.element⟩

/-- The same element with another space before it. -/
def mapBefore {α : Type} (f : Space → Space) (x : Preceded α) : Preceded α :=
  ⟨f x.before, x.element⟩

end Preceded

/-- The list with its first item changed. -/
def mapFirst {α : Type} (f : α → α) : List α → List α
  | [] => []
  | a :: as => f a :: as

/-- The list with all but its first item changed. -/
def mapRest {α : Type} (f : α → α) : List α → List α
  | [] => []
  | a :: as => a :: as.map f

/-- The elements alone. -/
def items {α : Type} (xs : List (Followed α)) : List α := xs.map Followed.element

namespace Series

/-- The same list with another space before it. -/
def mapBefore {α : Type} (f : Space → Space) (s : Series α) : Series α := ⟨f s.before, s.elements⟩

/-- Another list of elements with the same space before it. -/
def mapElements {α : Type} (f : List (Followed α) → List (Followed α)) (s : Series α) : Series α :=
  ⟨s.before, f s.elements⟩

/-- The elements of an optional list; none when there is no list. -/
def itemsOf {α : Type} : Option (Series α) → List α
  | none => []
  | some s => items s.elements

end Series

section Size

variable {α : Type} [SizeOf α]

theorem Followed.sizeOf_eq (x : Followed α) : sizeOf x = 1 + sizeOf x.element + sizeOf x.after := by
  cases x; simp

theorem Preceded.sizeOf_eq (x : Preceded α) :
    sizeOf x = 1 + sizeOf x.before + sizeOf x.element := by
  cases x; simp

theorem Series.sizeOf_eq (s : Series α) : sizeOf s = 1 + sizeOf s.before + sizeOf s.elements := by
  cases s; simp

theorem sizeOf_lt_of_mem_items {a : α} {xs : List (Followed α)} (h : a ∈ items xs) :
    sizeOf a < sizeOf xs := by
  obtain ⟨x, hx, rfl⟩ := List.mem_map.1 h
  have h₁ := List.sizeOf_lt_of_mem hx
  have h₂ := x.sizeOf_eq
  omega

theorem sizeOf_lt_of_mem_itemsOf {a : α} {s : Option (Series α)} (h : a ∈ Series.itemsOf s) :
    sizeOf a < sizeOf s := by
  cases s with
  | none => simp [Series.itemsOf] at h
  | some s =>
    have h₁ := sizeOf_lt_of_mem_items h
    have h₂ := s.sizeOf_eq
    simp only [Option.some.sizeOf_spec]
    omega

theorem sizeOf_lt_of_mem_toList {a : α} {o : Option α} (h : a ∈ o.toList) :
    sizeOf a < sizeOf o := by
  cases o with
  | none => simp at h
  | some b => simp at h; subst h; simp

theorem sizeOf_lt_of_mem_followed {a : α} {o : Option (Followed α)}
    (h : a ∈ (o.map Followed.element).toList) : sizeOf a < sizeOf o := by
  cases o with
  | none => simp at h
  | some x =>
    simp at h; subst h
    have := x.sizeOf_eq
    simp only [Option.some.sizeOf_spec]
    omega

theorem sizeOf_lt_of_mem_preceded {a : α} {o : Option (Preceded α)}
    (h : a ∈ (o.map Preceded.element).toList) : sizeOf a < sizeOf o := by
  cases o with
  | none => simp at h
  | some x =>
    simp at h; subst h
    have := x.sizeOf_eq
    simp only [Option.some.sizeOf_spec]
    omega

end Size

end JavaSource
