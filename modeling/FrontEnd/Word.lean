/-!
# Words of 64 bits

Values of tokens and literals are 64-bit words. A word is read as a natural number or, in two's
complement, as a signed one: it is negative if its highest bit is set.

* `Word.signed` is the signed number, `Word.signedText` the same in decimal.
* `Word.natAbs_signed`: the magnitude of a negative word is what it lacks to the number of words.
* `Word.signed_zero_sub`, `Word.zero_sub_magnitude`: how a magnitude is negated, and back.
-/

namespace FrontEnd.Word

/-- The number of words, 2 to the 64. -/
def count : Nat := 18446744073709551616

/-- The highest bit, 2 to the 63: the least word that is negative. -/
def signBit : Nat := 9223372036854775808

/-- The word is negative in two's complement. -/
def isNegative (bits : UInt64) : Bool := decide (signBit ≤ bits.toNat)

/-- The word read in two's complement. -/
def signed (bits : UInt64) : Int :=
  if isNegative bits then (bits.toNat : Int) - (count : Int) else (bits.toNat : Int)

/-- The word read in two's complement, in decimal. -/
def signedText (bits : UInt64) : String :=
  (if isNegative bits then "-" else "") ++ Nat.repr (signed bits).natAbs

theorem toNat_lt_count (bits : UInt64) : bits.toNat < count := bits.toNat_lt

theorem isNegative_iff {bits : UInt64} : isNegative bits = true ↔ signBit ≤ bits.toNat := by
  simp [isNegative]

theorem natAbs_signed (bits : UInt64) :
    (signed bits).natAbs = if isNegative bits then count - bits.toNat else bits.toNat := by
  have hlt := toNat_lt_count bits
  unfold signed
  split <;> omega

theorem isNegative_iff_signed_neg {bits : UInt64} : isNegative bits = true ↔ signed bits < 0 := by
  have hlt := toNat_lt_count bits
  unfold signed
  split
  · next h => exact ⟨fun _ => by omega, fun _ => h⟩
  · next h => exact ⟨fun hn => absurd hn h, fun hneg => by omega⟩

theorem toNat_zero_sub {n : Nat} (hn : n ≤ signBit) :
    (0 - UInt64.ofNat n).toNat = (count - n) % count := by
  rw [UInt64.toNat_sub, UInt64.toNat_ofNat']
  simp only [count, signBit, UInt64.toNat_zero] at *
  omega

/-- The word of a negative number. -/
theorem signed_zero_sub {n : Nat} (hn : n ≤ signBit) :
    signed (0 - UInt64.ofNat n) = -(n : Int) := by
  have hword := toNat_zero_sub hn
  have hdouble : count = signBit + signBit := rfl
  have hpos : 0 < signBit := by decide
  by_cases hzero : n = 0
  · subst hzero
    rfl
  · rw [Nat.mod_eq_of_lt (by omega)] at hword
    unfold signed
    rw [if_pos (isNegative_iff.mpr (by omega)), hword]
    omega

/-- A negative word is found again from its magnitude. -/
theorem zero_sub_magnitude {bits : UInt64} (h : signBit ≤ bits.toNat) :
    0 - UInt64.ofNat (count - bits.toNat) = bits := by
  have hlt := toNat_lt_count bits
  have hdouble : count = signBit + signBit := rfl
  apply UInt64.toNat_inj.mp
  rw [toNat_zero_sub (by omega), Nat.sub_sub_self (by omega), Nat.mod_eq_of_lt hlt]

end FrontEnd.Word
