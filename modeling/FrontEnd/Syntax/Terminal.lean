import FrontEnd.Syntax.TypeExpr
import FrontEnd.Text.Escape
import FrontEnd.Word

/-!
# Literals and identifiers

The leaves of expressions, and their text.

* `Terminal.text` writes a literal so that it can be read again: an integer of a signed type is
  written as the signed number that its word is.
-/

namespace FrontEnd

/-- A literal or an identifier. An integer keeps its 64 bits and the type of its suffix. -/
inductive Terminal where
  | boolean (value : Bool)
  | integer (bits : UInt64) (type : TypeExpr)
  | character (value : Char)
  | string (value : String)
  | identifier (name : String)
  | unit
  deriving DecidableEq, Repr, Inhabited

namespace Terminal

/-- The name, of an identifier. -/
def identifier? : Terminal → Option String
  | identifier name => some name
  | _ => none

/-- The bits, of an integer. -/
def integer? : Terminal → Option UInt64
  | integer bits _ => some bits
  | _ => none

/-- The suffix that says the type of an integer literal; the default type needs none. -/
def integerSuffix (type : TypeExpr) : String :=
  if type = TypeExpr.defaultInteger then "" else type.text

/-- The terminal as source text. -/
def text : Terminal → String
  | boolean value => if value then "true" else "false"
  | integer bits type =>
    (if type.isSignedInteger then Word.signedText bits else Nat.repr bits.toNat) ++
      integerSuffix type
  | character value => "'" ++ Text.escape value.toString ++ "'"
  | string value => "\"" ++ Text.escape value ++ "\""
  | identifier name => name
  | unit => "()"

end Terminal

end FrontEnd
