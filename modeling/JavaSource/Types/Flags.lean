import JavaSource.Tree.Word

/-!
# Flags

The modifiers of a class, variable or method as a set of bits. Each bit stands where class files
have it, so a bitmap of access flags reads as a set of flags.
-/

namespace JavaSource

/-- The bit of a modifier; three modifiers have none. -/
def Modifier.bit? : Modifier → Option Nat
  | publicAccess => some 0
  | privateAccess => some 1
  | protectedAccess => some 2
  | static => some 3
  | final => some 4
  | synchronized => some 5
  | volatile => some 6
  | transient => some 7
  | abstract => some 10
  | default | native | strictFloat => none

/-- A set of modifiers. -/
structure Flags where
  bits : Nat
deriving DecidableEq, Repr

namespace Flags

/-- The modifiers that have a bit, by their bits. -/
def modifiers : List Modifier :=
  [.publicAccess, .privateAccess, .protectedAccess, .static, .final, .synchronized, .volatile,
    .transient, .abstract]

/-- No modifiers. -/
def none : Flags := ⟨0⟩

/-- The set of one modifier; none for a modifier without a bit. -/
def ofModifier? (m : Modifier) : Option Flags := m.bit?.map fun bit => ⟨1 <<< bit⟩

/-- Public, and nothing else. -/
def publicOnly : Flags := ⟨1⟩

/-- Private, and nothing else. -/
def privateOnly : Flags := ⟨2⟩

/-- The bits that stand for modifiers. -/
def known : Nat := 1279

/-- The flags of a bitmap; other bits are dropped. -/
def ofBitmap (bitmap : Nat) : Flags := ⟨bitmap &&& known⟩

/-- Every flag of `test` is set. -/
def hasAll (f test : Flags) : Bool := f.bits &&& test.bits == test.bits

/-- The modifiers in the set, by their bits. -/
def toModifiers (f : Flags) : List Modifier :=
  modifiers.filter fun m => m.bit?.any f.bits.testBit

/-- The only modifier in the set. -/
def modifier? (f : Flags) : Option Modifier := modifiers.find? fun m => ofModifier? m == some f

/-- The flag that a keyword names. -/
def ofKeyword? (keyword : Text) : Option Flags :=
  (Modifier.ofKeyword? keyword).bind ofModifier?

theorem ofBitmap_known (f : Flags) : (ofBitmap f.bits).bits ≤ known := Nat.and_le_right

end Flags

end JavaSource
