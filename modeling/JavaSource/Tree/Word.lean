import JavaSource.Text.Basic

/-!
# Keywords and operators of the tree

Modifiers, the keyword of a type declaration, operators and the bounds of wildcards, each with the
text it is written as.
-/

namespace JavaSource

/-- A modifier of a declaration. -/
inductive Modifier where
  | default | publicAccess | protectedAccess | privateAccess | abstract | static | final | native
  | strictFloat | synchronized | transient | volatile
deriving DecidableEq, Repr

namespace Modifier

/-- Every modifier. -/
def all : List Modifier :=
  [default, publicAccess, protectedAccess, privateAccess, abstract, static, final, native,
    strictFloat, synchronized, transient, volatile]

/-- The keyword in source text. -/
def keyword : Modifier → Text
  | default => "default".toList
  | publicAccess => "public".toList
  | protectedAccess => "protected".toList
  | privateAccess => "private".toList
  | abstract => "abstract".toList
  | static => "static".toList
  | final => "final".toList
  | native => "native".toList
  | strictFloat => "strictfp".toList
  | synchronized => "synchronized".toList
  | transient => "transient".toList
  | volatile => "volatile".toList

/-- The modifier that a keyword names. -/
def ofKeyword? (t : Text) : Option Modifier := all.find? fun m => m.keyword == t

theorem ofKeyword?_keyword (m : Modifier) : ofKeyword? m.keyword = some m := by
  cases m <;> decide

end Modifier

/-- The four kinds of type declaration. -/
inductive ClassKind where
  | regular | enumeration | interface | annotationType
deriving DecidableEq, Repr

/-- The keyword that introduces the declaration. -/
def ClassKind.keyword : ClassKind → Text
  | .regular => "class".toList
  | .enumeration => "enum".toList
  | .interface => "interface".toList
  | .annotationType => "@interface".toList

/-- The name in listings. -/
def ClassKind.name : ClassKind → String
  | .regular => "Class"
  | .enumeration => "Enum"
  | .interface => "Interface"
  | .annotationType => "Annotation"

/-- Groups of binary operators that are spaced alike. -/
inductive OperatorCategory where
  | additive | multiplicative | shift | relational | equality | bitwise | logical
deriving DecidableEq, Repr

/-- An operator between two operands. -/
inductive BinaryOperator where
  | addition | subtraction | multiplication | division | modulo
  | lessThan | greaterThan | lessThanOrEqual | greaterThanOrEqual | equal | notEqual
  | bitAnd | bitOr | bitXor | leftShift | rightShift | unsignedRightShift
  | or | and
deriving DecidableEq, Repr

namespace BinaryOperator

/-- The operator in source text. -/
def keyword : BinaryOperator → Text
  | addition => ['+']
  | subtraction => ['-']
  | multiplication => ['*']
  | division => ['/']
  | modulo => ['%']
  | lessThan => ['<']
  | greaterThan => ['>']
  | lessThanOrEqual => ['<', '=']
  | greaterThanOrEqual => ['>', '=']
  | equal => ['=', '=']
  | notEqual => ['!', '=']
  | bitAnd => ['&']
  | bitOr => ['|']
  | bitXor => ['^']
  | leftShift => ['<', '<']
  | rightShift => ['>', '>']
  | unsignedRightShift => ['>', '>', '>']
  | or => ['|', '|']
  | and => ['&', '&']

/-- The group the operator is spaced with. -/
def category : BinaryOperator → OperatorCategory
  | addition | subtraction => .additive
  | multiplication | division | modulo => .multiplicative
  | leftShift | rightShift | unsignedRightShift => .shift
  | lessThan | greaterThan | lessThanOrEqual | greaterThanOrEqual => .relational
  | equal | notEqual => .equality
  | bitAnd | bitOr | bitXor => .bitwise
  | or | and => .logical

/-- The strength of binding; of two operators the one with more binds tighter. -/
def precedence : BinaryOperator → Nat
  | or => 1
  | and => 2
  | bitOr => 3
  | bitXor => 4
  | bitAnd => 5
  | equal | notEqual => 6
  | lessThan | greaterThan | lessThanOrEqual | greaterThanOrEqual => 7
  | leftShift | rightShift | unsignedRightShift => 8
  | addition | subtraction => 9
  | multiplication | division | modulo => 10

/-- The name in listings. -/
def name : BinaryOperator → String
  | addition => "Addition"
  | subtraction => "Subtraction"
  | multiplication => "Multiplication"
  | division => "Division"
  | modulo => "Modulo"
  | lessThan => "LessThan"
  | greaterThan => "GreaterThan"
  | lessThanOrEqual => "LessThanOrEqual"
  | greaterThanOrEqual => "GreaterThanOrEqual"
  | equal => "Equal"
  | notEqual => "NotEqual"
  | bitAnd => "BitAnd"
  | bitOr => "BitOr"
  | bitXor => "BitXor"
  | leftShift => "LeftShift"
  | rightShift => "RightShift"
  | unsignedRightShift => "UnsignedRightShift"
  | or => "Or"
  | and => "And"

end BinaryOperator

/-- An operator on one operand. -/
inductive UnaryOperator where
  | preIncrement | preDecrement | postIncrement | postDecrement | positive | negative
  | complement | not
deriving DecidableEq, Repr

namespace UnaryOperator

/-- The operator in source text. -/
def keyword : UnaryOperator → Text
  | preIncrement | postIncrement => ['+', '+']
  | preDecrement | postDecrement => ['-', '-']
  | positive => ['+']
  | negative => ['-']
  | complement => ['~']
  | not => ['!']

/-- The operator stands after its operand. -/
def isPostfix : UnaryOperator → Bool
  | postIncrement | postDecrement => true
  | preIncrement | preDecrement | positive | negative | complement | not => false

/-- The name in listings. -/
def name : UnaryOperator → String
  | preIncrement => "PreIncrement"
  | preDecrement => "PreDecrement"
  | postIncrement => "PostIncrement"
  | postDecrement => "PostDecrement"
  | positive => "Positive"
  | negative => "Negative"
  | complement => "Complement"
  | not => "Not"

end UnaryOperator

/-- An operator that assigns the result of an operation. -/
inductive AssignmentOperator where
  | addition | subtraction | multiplication | division | modulo | bitAnd | bitOr | bitXor
  | leftShift | rightShift | unsignedRightShift
deriving DecidableEq, Repr

namespace AssignmentOperator

/-- The operator in source text. -/
def keyword : AssignmentOperator → Text
  | addition => ['+', '=']
  | subtraction => ['-', '=']
  | multiplication => ['*', '=']
  | division => ['/', '=']
  | modulo => ['%', '=']
  | bitAnd => ['&', '=']
  | bitOr => ['|', '=']
  | bitXor => ['^', '=']
  | leftShift => ['<', '<', '=']
  | rightShift => ['>', '>', '=']
  | unsignedRightShift => ['>', '>', '>', '=']

/-- The name in listings. -/
def name : AssignmentOperator → String
  | addition => "Addition"
  | subtraction => "Subtraction"
  | multiplication => "Multiplication"
  | division => "Division"
  | modulo => "Modulo"
  | bitAnd => "BitAnd"
  | bitOr => "BitOr"
  | bitXor => "BitXor"
  | leftShift => "LeftShift"
  | rightShift => "RightShift"
  | unsignedRightShift => "UnsignedRightShift"

end AssignmentOperator

/-- Whether a wildcard is bounded from above or from below. -/
inductive WildcardBound where
  | upper | lower
deriving DecidableEq, Repr

/-- The keyword in source text. -/
def WildcardBound.keyword : WildcardBound → Text
  | .upper => "extends".toList
  | .lower => "super".toList

end JavaSource
