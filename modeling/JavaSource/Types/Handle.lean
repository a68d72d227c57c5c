import JavaSource.Types.Primitive

/-!
# Type handles

A `TypeHandle` is a place in the table of types. The first thirteen places hold the primitives, the
next one holds `java.lang.Object`; every later place is filled by a request.
-/

namespace JavaSource

/-- A place in the table of types. -/
structure TypeHandle where
  index : Nat
deriving DecidableEq, Repr, Hashable

namespace TypeHandle

/-- The place of a primitive. -/
def ofPrimitive (p : Primitive) : TypeHandle := ⟨Primitive.all.findIdx (· == p)⟩

/-- The place of `java.lang.Object`. -/
def object : TypeHandle := ⟨13⟩

/-- The place of the first type that is not there from the start. -/
def firstDynamic : TypeHandle := ⟨14⟩

/-- The primitive at this place. -/
def primitive? (h : TypeHandle) : Option Primitive := Primitive.all[h.index]?

/-- The place holds a primitive. -/
def isPrimitive (h : TypeHandle) : Bool := h.index < 13

/-- The place was filled by a request. -/
def isDynamic (h : TypeHandle) : Bool := 14 ≤ h.index

theorem primitive?_ofPrimitive (p : Primitive) : (ofPrimitive p).primitive? = some p := by
  cases p <;> rfl

end TypeHandle

end JavaSource
