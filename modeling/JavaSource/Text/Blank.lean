import JavaSource.Text.Basic

/-!
# White space

The characters with the Unicode property `White_Space`, and trimming by them.
-/

namespace JavaSource

/-- The Unicode property `White_Space`. -/
def isWhiteSpace (c : Char) : Bool :=
  let n := c.toNat
  (9 ≤ n && n ≤ 13) || n == 0x20 || n == 0x85 || n == 0xA0 || n == 0x1680 ||
    (0x2000 ≤ n && n ≤ 0x200A) || n == 0x2028 || n == 0x2029 || n == 0x202F || n == 0x205F ||
    n == 0x3000

theorem isWhiteSpace_of_isWhitespace {c : Char} (h : c.isWhitespace) : isWhiteSpace c := by
  simp only [Char.isWhitespace, Bool.or_eq_true, decide_eq_true_eq] at h
  rcases h with ((rfl | rfl) | rfl) | rfl <;> decide

namespace Text

/-- Without the white space at its start. -/
def trimStart (t : Text) : Text := t.dropWhile isWhiteSpace

/-- Without the white space at its end. -/
def trimEnd (t : Text) : Text := (t.reverse.dropWhile isWhiteSpace).reverse

/-- Without the white space at both ends. -/
def trim (t : Text) : Text := trimEnd (trimStart t)

/-- Nothing but white space. -/
def isBlank (t : Text) : Bool := t.all isWhiteSpace

end Text

end JavaSource
