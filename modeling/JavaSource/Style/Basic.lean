import JavaSource.Style.Spacing

/-!
# Styles

What the formatter aims at. `Styles.standard` has every default.
-/

namespace JavaSource

/-- The columns of indents, and the characters that make them. -/
structure IndentStyle where
  /-- Indent with tabs as far as they reach. -/
  useTabs : Bool := false
  /-- The columns that a tab advances. -/
  tabSize : Nat := 4
  /-- The columns added inside a block. -/
  indentSize : Nat := 4
  /-- The columns added where a statement goes on in another line. -/
  continuation : Nat := 8
deriving DecidableEq, Repr

/-- How many blank lines are kept, and where some are required. -/
structure BlankLineStyle where
  maximumInCode : Nat := 2
  maximumInDeclarations : Nat := 2
  maximumBeforeBlockEnd : Nat := 2
  minimumAfterPackage : Nat := 1
  minimumAfterImports : Nat := 1
  minimumAroundClass : Nat := 1
  minimumAroundMethod : Nat := 1
  minimumBeforeMethodBody : Nat := 0
deriving DecidableEq, Repr

/-- What the formatter aims at. -/
structure Styles where
  indents : IndentStyle := {}
  spacing : Spacing := {}
  blankLines : BlankLineStyle := {}
  /-- Lines end with a carriage return and a line feed. -/
  useCrlf : Bool := false
  /-- A blank in an empty initializer of a `for` loop, whatever `spacing` says. -/
  emptyForInit : Option Bool := none
  /-- A blank in an empty update of a `for` loop, whatever `spacing` says. -/
  emptyForUpdate : Option Bool := none
deriving DecidableEq, Repr

/-- The styles with every default. -/
def Styles.standard : Styles := {}

end JavaSource
