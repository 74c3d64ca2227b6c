/-!
# Type annotations

The types that a programmer writes, and their text.

* `TypeExpr.text` writes a type as source text.
* `TypeExpr.primitive?` reads the word of a built-in type; `primitive?_text` says that it reads
  what `text` writes.
-/

namespace FrontEnd

/-- The sizes of an integer type. -/
inductive IntWidth where
  | w8
  | w16
  | w32
  | w64
  deriving DecidableEq, Repr, Inhabited

/-- The number of bits. -/
def IntWidth.bits : IntWidth → Nat
  | w8 => 8
  | w16 => 16
  | w32 => 32
  | w64 => 64

/-- The sizes of a floating-point type. -/
inductive FloatWidth where
  | w32
  | w64
  deriving DecidableEq, Repr, Inhabited

/-- The number of bits. -/
def FloatWidth.bits : FloatWidth → Nat
  | w32 => 32
  | w64 => 64

/-- A type as written. A `named` type is a word that is no built-in type. -/
inductive TypeExpr where
  | sint (width : IntWidth)
  | uint (width : IntWidth)
  | float (width : FloatWidth)
  | bool
  | char
  | str
  | unit
  | slice (element : TypeExpr)
  | array (element : TypeExpr) (size : UInt64)
  | ref (target : TypeExpr)
  | pointer (target : TypeExpr)
  | named (name : String)
  deriving DecidableEq, Repr, Inhabited

namespace TypeExpr

/-- The type of an integer literal without suffix. -/
def defaultInteger : TypeExpr := sint .w64

/-- The built-in types that are written as one word. -/
def primitives : List (String × TypeExpr) :=
  [("bool", bool), ("char", char), ("str", str),
   ("float32", float .w32), ("float64", float .w64),
   ("int8", sint .w8), ("int16", sint .w16), ("int32", sint .w32), ("int64", sint .w64),
   ("uint8", uint .w8), ("uint16", uint .w16), ("uint32", uint .w32), ("uint64", uint .w64)]

/-- The built-in type that a word is written for. -/
def primitive? (word : String) : Option TypeExpr := primitives.lookup word

/-- A signed or unsigned integer type. -/
def isInteger : TypeExpr → Bool
  | sint _ | uint _ => true
  | _ => false

/-- A signed integer type. -/
def isSignedInteger : TypeExpr → Bool
  | sint _ => true
  | _ => false

/-- The type as source text. -/
def text : TypeExpr → String
  | sint w => "int" ++ Nat.repr w.bits
  | uint w => "uint" ++ Nat.repr w.bits
  | float w => "float" ++ Nat.repr w.bits
  | bool => "bool"
  | char => "char"
  | str => "str"
  | unit => "()"
  | slice element => "[" ++ element.text ++ "]"
  | array element size => "[" ++ element.text ++ "; " ++ Nat.repr size.toNat ++ "]"
  | ref target => "&" ++ target.text
  | pointer target => "*" ++ target.text
  | named name => name

/-- A table lists each built-in type under its own text. -/
theorem primitive?_text : ∀ p ∈ primitives, p.2.text = p.1 ∧ primitive? p.1 = some p.2 := by
  decide

end TypeExpr

end FrontEnd
