import FrontEnd.Token.Error
import FrontEnd.Word

/-!
# Number literals

A literal is decimal with an optional minus sign, or hexadecimal after `0x` or `0X`. Underscores
may stand anywhere after what introduces the digits.

* `numeral` is the number that a list of digits denotes.
* `numberValue` is its 64-bit value: a magnitude above `2 ^ 64 - 1` does not fit, nor does a
  negative one above `2 ^ 63`; a negative value is stored in two's complement.
-/

namespace FrontEnd.Lexer

/-- The value of a digit in a radix up to sixteen. -/
def digitValue? (radix : Nat) (c : Char) : Option Nat :=
  let value :=
    if '0' ≤ c ∧ c ≤ '9' then some (c.toNat - '0'.toNat)
    else if 'a' ≤ c ∧ c ≤ 'f' then some (c.toNat - 'a'.toNat + 10)
    else if 'A' ≤ c ∧ c ≤ 'F' then some (c.toNat - 'A'.toNat + 10)
    else none
  match value with
  | some n => if n < radix then some n else none
  | none => none

/-- A digit of the radix or an underscore. -/
def isNumberChar (radix : Nat) (c : Char) : Bool :=
  (digitValue? radix c).isSome || c == '_'

/-- The number that digits denote, the first being the most significant. -/
def numeral (radix : Nat) (digits : List Char) : Nat :=
  digits.foldl (fun n c => n * radix + (digitValue? radix c).getD 0) 0

/-- What comes before the digits of a literal. -/
structure NumberLead where
  taken : List Char
  radix : Nat
  negative : Bool
  deriving DecidableEq, Repr

/-- The radix sign or minus sign at the start of a literal. -/
def numberLead : List Char → NumberLead
  | '0' :: 'x' :: _ => ⟨['0', 'x'], 16, false⟩
  | '0' :: 'X' :: _ => ⟨['0', 'X'], 16, false⟩
  | '-' :: _ => ⟨['-'], 10, true⟩
  | _ => ⟨[], 10, false⟩

/-- The largest magnitude of a literal. -/
def magnitudeLimit (negative : Bool) : Nat :=
  if negative then Word.signBit else Word.count - 1

/-- The 64-bit value of the digits, underscores removed. -/
def numberValue (lead : NumberLead) (body : List Char) : Except LexProblem UInt64 :=
  let digits := body.filter (fun c => c != '_')
  if digits.isEmpty then .error .invalidNumber
  else
    let magnitude := numeral lead.radix digits
    if magnitudeLimit lead.negative < magnitude then .error .numberOverflow
    else .ok (if lead.negative then 0 - UInt64.ofNat magnitude else UInt64.ofNat magnitude)

/-- What introduces the digits is the start of the literal. -/
theorem numberLead_taken_append (cs : List Char) :
    (numberLead cs).taken ++ cs.drop (numberLead cs).taken.length = cs := by
  unfold numberLead
  split <;> rfl

end FrontEnd.Lexer
