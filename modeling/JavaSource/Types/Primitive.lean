import JavaSource.Text.Basic

/-!
# Primitive types

The types that a keyword names, with the pseudo types of literals: `String`, the wildcard, the type
of `null` and the empty type of an expression that was not resolved.
-/

namespace JavaSource

/-- A type named by a keyword. -/
inductive Primitive where
  | boolean | byte | char | double | float | int | long | short | void
  /-- The type of string literals. -/
  | string
  /-- The empty type of an unresolved expression. -/
  | none
  /-- The type `*`. -/
  | wildcard
  /-- The type of the `null` literal. -/
  | null
deriving DecidableEq, Repr

namespace Primitive

/-- Every primitive, in the order of its place in the type table. -/
def all : List Primitive :=
  [boolean, byte, char, double, float, int, long, short, void, string, none, wildcard, null]

/-- The keyword in source text. -/
def keyword : Primitive → Text
  | boolean => "boolean".toList
  | byte => "byte".toList
  | char => "char".toList
  | double => "double".toList
  | float => "float".toList
  | int => "int".toList
  | long => "long".toList
  | short => "short".toList
  | void => "void".toList
  | string => "String".toList
  | none => []
  | wildcard => "*".toList
  | null => "null".toList

/-- The primitive that a keyword names. -/
def ofKeyword? (t : Text) : Option Primitive := all.find? fun p => p.keyword == t

/-- The operands of arithmetic. -/
def isNumeric : Primitive → Bool
  | byte | char | double | float | int | long | short => true
  | boolean | void | string | none | wildcard | null => false

/-- The name in listings. -/
def name : Primitive → String
  | boolean => "Boolean"
  | byte => "Byte"
  | char => "Char"
  | double => "Double"
  | float => "Float"
  | int => "Int"
  | long => "Long"
  | short => "Short"
  | void => "Void"
  | string => "String"
  | none => "None"
  | wildcard => "Wildcard"
  | null => "Null"

theorem mem_all (p : Primitive) : p ∈ all := by cases p <;> decide

theorem ofKeyword?_keyword (p : Primitive) : ofKeyword? p.keyword = some p := by
  cases p <;> decide

end Primitive

end JavaSource
