import Mathlib.Data.List.Induction
import Mathlib.Data.Nat.Digits.Defs
import FrontEnd.Token.Lexer

/-!
# Number literals

How a number is written at the start of a text, and what it is read as.

* `Introduces` says what may stand before the digits. `NumberAt` splits a text into that, the longest
  run of digits and underscores, and what is left.
* `exists_numberAt`: a text that starts a number is split in this way. `NumberAt.scan`: it is scanned
  in this way.
* `numeral_eq_ofDigits` and `numeral_toDigits`: the number that digits denote is the one whose digits
  they are.
-/

set_option autoImplicit false

namespace FrontEnd.Lexer

/-! ## Digits -/

/-- A digit of a decimal literal, or of a hexadecimal one with letters in either case. -/
def IsDigitOf (radix : Nat) (c : Char) : Prop :=
  c.isDigit = true ∨ radix = 16 ∧ ('a' ≤ c ∧ c ≤ 'f' ∨ 'A' ≤ c ∧ c ≤ 'F')

theorem isDigitOf_ten {c : Char} : IsDigitOf 10 c ↔ c.isDigit = true := by
  simp [IsDigitOf]

/-- A range of characters is one of code points. -/
theorem between_iff_toNat {a b c : Char} :
    a ≤ c ∧ c ≤ b ↔ a.toNat ≤ c.toNat ∧ c.toNat ≤ b.toNat := by
  rw [Char.le_def, Char.le_def, UInt32.le_iff_toNat_le, UInt32.le_iff_toNat_le]
  exact Iff.rfl

/-- The value of a digit, by code points. -/
theorem digitValue?_eq_some_iff {radix d : Nat} {c : Char} :
    digitValue? radix c = some d ↔ d < radix ∧
      (48 ≤ c.toNat ∧ c.toNat ≤ 57 ∧ d = c.toNat - 48 ∨
        97 ≤ c.toNat ∧ c.toNat ≤ 102 ∧ d = c.toNat - 97 + 10 ∨
        65 ≤ c.toNat ∧ c.toNat ≤ 70 ∧ d = c.toNat - 65 + 10) := by
  have hcodes : '0'.toNat = 48 ∧ '9'.toNat = 57 ∧ 'a'.toNat = 97 ∧ 'f'.toNat = 102 ∧
      'A'.toNat = 65 ∧ 'F'.toNat = 70 := by decide
  have hradix : ∀ n, (if n < radix then some n else none) = some d ↔ d < radix ∧ d = n := by
    intro n
    rw [Option.ite_none_right_eq_some, Option.some.injEq]
    omega
  unfold digitValue?
  simp only [between_iff_toNat, hcodes]
  by_cases hdecimal : 48 ≤ c.toNat ∧ c.toNat ≤ 57
  · rw [if_pos hdecimal]
    exact (hradix _).trans (by omega)
  by_cases hsmall : 97 ≤ c.toNat ∧ c.toNat ≤ 102
  · rw [if_neg hdecimal, if_pos hsmall]
    exact (hradix _).trans (by omega)
  by_cases hcapital : 65 ≤ c.toNat ∧ c.toNat ≤ 70
  · rw [if_neg hdecimal, if_neg hsmall, if_pos hcapital]
    exact (hradix _).trans (by omega)
  · rw [if_neg hdecimal, if_neg hsmall, if_neg hcapital]
    exact iff_of_false (by simp) (by omega)

theorem isSome_digitValue?_iff {radix : Nat} {c : Char} (hr : radix = 10 ∨ radix = 16) :
    (digitValue? radix c).isSome = true ↔ IsDigitOf radix c := by
  have hcodes : '0'.toNat = 48 ∧ '9'.toNat = 57 ∧ 'a'.toNat = 97 ∧ 'f'.toNat = 102 ∧
      'A'.toNat = 65 ∧ 'F'.toNat = 70 := by decide
  simp only [Option.isSome_iff_exists, digitValue?_eq_some_iff, IsDigitOf, Char.isDigit_iff_toNat,
    between_iff_toNat, hcodes]
  constructor
  · rintro ⟨d, hd, h⟩
    omega
  · rintro (h | ⟨rfl, h | h⟩)
    · exact ⟨c.toNat - 48, by omega, .inl ⟨h.1, h.2, rfl⟩⟩
    · exact ⟨c.toNat - 97 + 10, by omega, .inr (.inl ⟨h.1, h.2, rfl⟩)⟩
    · exact ⟨c.toNat - 65 + 10, by omega, .inr (.inr ⟨h.1, h.2, rfl⟩)⟩

theorem isNumberChar_iff {radix : Nat} {c : Char} (hr : radix = 10 ∨ radix = 16) :
    isNumberChar radix c = true ↔ IsDigitOf radix c ∨ c = '_' := by
  rw [isNumberChar, Bool.or_eq_true, isSome_digitValue?_iff hr, beq_iff_eq]

/-! ## The number that digits denote -/

theorem numeral_concat (radix : Nat) (digits : List Char) (c : Char) :
    numeral radix (digits ++ [c]) = numeral radix digits * radix + (digitValue? radix c).getD 0 := by
  rw [numeral, List.foldl_append]
  rfl

/-- **Digits denote a number as in positional notation**, the first of them being the most
significant. -/
theorem numeral_eq_ofDigits (radix : Nat) (digits : List Char) :
    numeral radix digits =
      Nat.ofDigits radix (digits.map fun c => (digitValue? radix c).getD 0).reverse := by
  induction digits using List.reverseRecOn with
  | nil => rfl
  | append_singleton digits c ih =>
    rw [numeral_concat, ih, List.map_append, List.reverse_append, List.map_singleton,
      List.reverse_singleton, List.singleton_append, Nat.ofDigits_cons]
    ring

theorem digitValue?_digitChar {radix d : Nat} (hr : radix ≤ 16) (hd : d < radix) :
    digitValue? radix (Nat.digitChar d) = some d := by
  have hcodes : ∀ d < 16, 48 ≤ (Nat.digitChar d).toNat ∧ (Nat.digitChar d).toNat ≤ 57 ∧
        d = (Nat.digitChar d).toNat - 48 ∨
      97 ≤ (Nat.digitChar d).toNat ∧ (Nat.digitChar d).toNat ≤ 102 ∧
        d = (Nat.digitChar d).toNat - 97 + 10 := by decide
  rw [digitValue?_eq_some_iff]
  have h := hcodes d (by omega)
  omega

theorem exists_digitChar {radix n : Nat} {c : Char} (hr : 1 < radix)
    (hc : c ∈ Nat.toDigits radix n) : ∃ d < radix, c = Nat.digitChar d := by
  induction n using Nat.strongRecOn with
  | ind n ih =>
    by_cases hn : n < radix
    · rw [Nat.toDigits_of_lt_base hn, List.mem_singleton] at hc
      exact ⟨n, hn, hc⟩
    · rw [Nat.toDigits_of_base_le hr (by omega), List.mem_append, List.mem_singleton] at hc
      rcases hc with hc | hc
      · exact ih _ (Nat.div_lt_self (by omega) hr) hc
      · exact ⟨n % radix, Nat.mod_lt n (by omega), hc⟩

/-- The digits of a number denote it. -/
theorem numeral_toDigits {radix : Nat} (hr : 1 < radix) (hr' : radix ≤ 16) (n : Nat) :
    numeral radix (Nat.toDigits radix n) = n := by
  induction n using Nat.strongRecOn with
  | ind n ih =>
    by_cases hn : n < radix
    · rw [Nat.toDigits_of_lt_base hn, ← List.nil_append [n.digitChar], numeral_concat,
        digitValue?_digitChar hr' hn]
      simp [numeral]
    · have hmod : n % radix < radix := Nat.mod_lt n (by omega)
      rw [Nat.toDigits_of_base_le hr (by omega), numeral_concat, digitValue?_digitChar hr' hmod,
        ih _ (Nat.div_lt_self (by omega) hr), Option.getD_some, Nat.mul_comm]
      exact Nat.div_add_mod n radix

theorem toNat_toLower (c : Char) :
    c.toLower.toNat = if 65 ≤ c.toNat ∧ c.toNat ≤ 90 then c.toNat + 32 else c.toNat := by
  have hcodes : 'A'.toNat = 65 ∧ 'Z'.toNat = 90 := by decide
  have hrange : (c.val ≥ 'A'.val ∧ c.val ≤ 'Z'.val) ↔ 65 ≤ c.toNat ∧ c.toNat ≤ 90 := by
    have h := @between_iff_toNat 'A' 'Z' c
    rw [hcodes.1, hcodes.2] at h
    exact h
  unfold Char.toLower
  split
  · rename_i h
    have h' := hrange.mp h
    rw [if_pos h']
    show (c.val + 32).toNat = c.val.toNat + 32
    have hle : c.val.toNat ≤ 90 := h'.2
    rw [UInt32.toNat_add]
    show (c.val.toNat + 32) % _ = _
    omega
  · rename_i h
    rw [if_neg fun h' => h (hrange.mpr h')]

theorem digitValue?_toLower (radix : Nat) (c : Char) :
    digitValue? radix c.toLower = digitValue? radix c := by
  apply Option.ext
  intro d
  have hlower := toNat_toLower c
  rw [digitValue?_eq_some_iff, digitValue?_eq_some_iff]
  split at hlower
  · omega
  · rw [hlower]

/-- Capital letters denote what small ones do. -/
theorem numeral_toLower (radix : Nat) (digits : List Char) :
    numeral radix (digits.map Char.toLower) = numeral radix digits := by
  unfold numeral
  rw [List.foldl_map]
  simp only [digitValue?_toLower]

/-! ## Literals in a text -/

/-- What may introduce the digits of a literal, and the text after it: a radix sign, a minus sign
directly before a digit, or nothing, before a digit that is not the start of a radix sign. -/
inductive Introduces : NumberLead → List Char → Prop where
  | hexadecimal {x : Char} {after : List Char} (hx : x = 'x' ∨ x = 'X') :
      Introduces ⟨['0', x], 16, false⟩ after
  | negative {d : Char} {after : List Char} (hd : d.isDigit = true) :
      Introduces ⟨['-'], 10, true⟩ (d :: after)
  | decimal {d : Char} {after : List Char} (hd : d.isDigit = true)
      (hx : d = '0' → ∀ c ∈ after.head?, c ≠ 'x' ∧ c ≠ 'X') :
      Introduces ⟨[], 10, false⟩ (d :: after)

/-- A number stands at the start of the text: what introduces its digits, the longest run of digits
and underscores after that, and what is left. -/
structure NumberAt (cs : List Char) (lead : NumberLead) (body rest : List Char) : Prop where
  split : cs = lead.taken ++ (body ++ rest)
  introduced : Introduces lead (body ++ rest)
  digits : ∀ c ∈ body, IsDigitOf lead.radix c ∨ c = '_'
  longest : ∀ c ∈ rest.head?, ¬(IsDigitOf lead.radix c ∨ c = '_')

/-- What a literal means. -/
def NumberLead.reading (lead : NumberLead) (body : List Char) : Reading :=
  match numberValue lead body with
  | .ok value => .token .number (String.ofList (lead.taken ++ body)) value
  | .error problem => .malformed problem

section

variable {cs after body rest : List Char} {lead : NumberLead}

namespace Introduces

theorem radix (h : Introduces lead after) : lead.radix = 10 ∨ lead.radix = 16 := by
  cases h with
  | hexadecimal hx => exact .inr rfl
  | negative hd => exact .inl rfl
  | decimal hd hx => exact .inl rfl

theorem numberLead_eq (h : Introduces lead after) : numberLead (lead.taken ++ after) = lead := by
  cases h with
  | hexadecimal hx => rcases hx with rfl | rfl <;> rfl
  | negative hd => rfl
  | @decimal d after hd hx =>
    unfold numberLead
    split
    · rename_i heq
      obtain ⟨rfl, rfl⟩ := List.cons.inj heq
      exact absurd rfl (hx rfl 'x' rfl).1
    · rename_i heq
      obtain ⟨rfl, rfl⟩ := List.cons.inj heq
      exact absurd rfl (hx rfl 'X' rfl).2
    · rename_i heq
      obtain ⟨rfl, -⟩ := List.cons.inj heq
      exact absurd hd (by decide)
    · rfl

theorem startsNumber (h : Introduces lead after) : startsNumber (lead.taken ++ after) = true := by
  cases h with
  | hexadecimal hx => rfl
  | negative hd => simp [Lexer.startsNumber, hd]
  | @decimal d after hd hx => cases after <;> simp [Lexer.startsNumber, hd]

end Introduces

theorem startsNumber_iff :
    startsNumber cs = true ↔
      ∃ d after, d.isDigit = true ∧ (cs = d :: after ∨ cs = '-' :: d :: after) := by
  constructor
  · intro h
    match cs, h with
    | [c], h => exact ⟨c, [], h, .inl rfl⟩
    | c :: d :: after, h =>
      rw [startsNumber, Bool.or_eq_true, Bool.and_eq_true, beq_iff_eq] at h
      rcases h with hc | ⟨rfl, hd⟩
      · exact ⟨c, d :: after, hc, .inl rfl⟩
      · exact ⟨d, after, hd, .inr rfl⟩
  · rintro ⟨d, after, hd, rfl | rfl⟩
    · cases after <;> simp [startsNumber, hd]
    · simp [startsNumber, hd]

theorem exists_introduces (h : startsNumber cs = true) :
    ∃ lead after, cs = lead.taken ++ after ∧ Introduces lead after := by
  obtain ⟨d, after, hd, rfl | rfl⟩ := startsNumber_iff.mp h
  · by_cases hx : d = '0' ∧ ∃ x ∈ after.head?, x = 'x' ∨ x = 'X'
    · obtain ⟨rfl, x, hx, hmark⟩ := hx
      cases after with
      | nil => cases hx
      | cons y after =>
        cases hx
        exact ⟨_, after, rfl, .hexadecimal hmark⟩
    · refine ⟨_, d :: after, rfl, .decimal hd fun hzero c hc => ?_⟩
      exact not_or.mp fun hmark => hx ⟨hzero, c, hc, hmark⟩
  · exact ⟨_, d :: after, rfl, .negative hd⟩

/-- **A text that starts a number is split in one way**: what introduces the digits, their run, and
the rest. -/
theorem exists_numberAt (h : startsNumber cs = true) : ∃ lead body rest, NumberAt cs lead body rest := by
  obtain ⟨lead, after, rfl, hlead⟩ := exists_introduces h
  have hsplit : after = after.takeWhile (isNumberChar lead.radix) ++
      after.dropWhile (isNumberChar lead.radix) := List.takeWhile_append_dropWhile.symm
  refine ⟨lead, after.takeWhile (isNumberChar lead.radix),
    after.dropWhile (isNumberChar lead.radix), ?_, ?_, fun c hc => ?_, fun c hc => ?_⟩
  · rw [← hsplit]
  · rw [← hsplit]
    exact hlead
  · exact (isNumberChar_iff hlead.radix).mp (List.all_eq_true.mp List.all_takeWhile c hc)
  · have hhead := List.head?_dropWhile_not (isNumberChar lead.radix) after
    rw [hc] at hhead
    rw [← isNumberChar_iff hlead.radix, hhead]
    exact Bool.false_ne_true

theorem NumberAt.startsNumber (h : NumberAt cs lead body rest) : startsNumber cs = true := by
  rw [h.split]
  exact h.introduced.startsNumber

/-- A decimal number starts with a digit. -/
theorem NumberAt.exists_digit (h : NumberAt cs lead body rest) :
    lead.radix = 16 ∨ lead.radix = 10 ∧ ∃ d ds, body = d :: ds ∧ d.isDigit = true := by
  have hdigit : ∀ {d : Char} {after : List Char}, lead.radix = 10 → d.isDigit = true →
      body ++ rest = d :: after → ∃ d ds, body = d :: ds ∧ d.isDigit = true := by
    intro d after hradix hd hsplit
    cases body with
    | nil =>
      refine absurd (.inl ?_) (h.longest d (by rw [List.nil_append] at hsplit; rw [hsplit]; rfl))
      rw [hradix, isDigitOf_ten]
      exact hd
    | cons e es =>
      obtain ⟨rfl, -⟩ := List.cons.inj hsplit
      exact ⟨e, es, rfl, hd⟩
  have hlead := h.introduced
  generalize hsplit : body ++ rest = after at hlead
  cases hlead with
  | hexadecimal hx => exact .inl rfl
  | negative hd => exact .inr ⟨rfl, hdigit rfl hd hsplit⟩
  | decimal hd hx => exact .inr ⟨rfl, hdigit rfl hd hsplit⟩

/-- **A number is scanned as it stands in the text.** -/
theorem NumberAt.scanNumber (h : NumberAt cs lead body rest) :
    scanNumber cs = ⟨lead.reading body, lead.taken ++ body, rest⟩ := by
  have hradix := h.introduced.radix
  obtain ⟨htake, hdrop⟩ := @run_append (isNumberChar lead.radix) body rest
    (fun c hc => (isNumberChar_iff hradix).mpr (h.digits c hc))
    (fun c hc => Bool.eq_false_iff.mpr fun hn => h.longest c hc ((isNumberChar_iff hradix).mp hn))
  rw [Lexer.scanNumber, h.split, h.introduced.numberLead_eq, List.drop_left, htake, hdrop]
  rfl

theorem NumberAt.scan (h : NumberAt cs lead body rest) :
    scan cs = some ⟨lead.reading body, lead.taken ++ body, rest⟩ := by
  have hstart := h.startsNumber
  rw [← h.scanNumber]
  cases cs with
  | nil => cases hstart
  | cons c cs => rw [Lexer.scan, hstart, if_pos rfl]

end

/-! ## Values -/

/-- The digits of a literal: underscores do not count. -/
def digitsOf (body : List Char) : List Char := body.filter fun c => c != '_'

/-- The number that the digits of a literal denote in positional notation. -/
def NumberLead.magnitude (lead : NumberLead) (body : List Char) : Nat :=
  Nat.ofDigits lead.radix ((digitsOf body).map fun c => (digitValue? lead.radix c).getD 0).reverse

/-- The word for a magnitude: its negative, after a minus sign. -/
def NumberLead.word (lead : NumberLead) (magnitude : Nat) : UInt64 :=
  if lead.negative then 0 - UInt64.ofNat magnitude else UInt64.ofNat magnitude

section

variable {lead : NumberLead} {body rest : List Char} {radix n : Nat}

theorem digitsOf_eq_nil_iff : digitsOf body = [] ↔ ∀ c ∈ body, c = '_' := by
  simp [digitsOf, List.filter_eq_nil_iff]

theorem numberValue_of_underscores (h : ∀ c ∈ body, c = '_') :
    numberValue lead body = .error .invalidNumber := by
  have hnil : body.filter (fun c => c != '_') = [] := digitsOf_eq_nil_iff.mpr h
  unfold numberValue
  rw [hnil]
  rfl

theorem numberValue_of_digits (h : ¬∀ c ∈ body, c = '_') :
    numberValue lead body =
      if magnitudeLimit lead.negative < lead.magnitude body then .error .numberOverflow
      else .ok (lead.word (lead.magnitude body)) := by
  have hdigits : (digitsOf body).isEmpty = false := by
    rw [Bool.eq_false_iff, ne_eq, List.isEmpty_iff, digitsOf_eq_nil_iff]
    exact h
  have hmagnitude : lead.magnitude body = numeral lead.radix (digitsOf body) :=
    (numeral_eq_ofDigits _ _).symm
  unfold digitsOf at hdigits hmagnitude
  unfold numberValue
  rw [hmagnitude]
  dsimp only
  rw [hdigits]
  rfl

/-! ## Numerals with underscores -/

/-- The digits of a number, with capital or small letters, and with underscores anywhere after the
first of them. -/
structure IsNumeral (radix n : Nat) (body : List Char) : Prop where
  digits : (digitsOf body).map Char.toLower = Nat.toDigits radix n
  head : body.head? ≠ some '_'

/-- No character that would go on with a decimal numeral stands here. -/
def EndsNumber (rest : List Char) : Prop :=
  ∀ c ∈ rest.head?, isNumberChar 10 c = false ∧ c ≠ 'x' ∧ c ≠ 'X'

theorem EndsNumber.longest (h : EndsNumber rest) :
    ∀ c ∈ rest.head?, ¬(IsDigitOf 10 c ∨ c = '_') := by
  intro c hc
  rw [← isNumberChar_iff (.inl rfl), (h c hc).1]
  exact Bool.false_ne_true

theorem isNumeral_toDigits (hr : radix = 10 ∨ radix = 16) (n : Nat) :
    IsNumeral radix n (Nat.toDigits radix n) := by
  have hplain : ∀ d < 16, (Nat.digitChar d).toLower = Nat.digitChar d ∧ Nat.digitChar d ≠ '_' := by
    decide
  have hall : ∀ c ∈ Nat.toDigits radix n, c.toLower = c ∧ c ≠ '_' := by
    intro c hc
    obtain ⟨d, hd, rfl⟩ := exists_digitChar (by omega) hc
    exact hplain d (by omega)
  have hdigits : digitsOf (Nat.toDigits radix n) = Nat.toDigits radix n :=
    List.filter_eq_self.mpr fun c hc => bne_iff_ne.mpr (hall c hc).2
  refine ⟨?_, fun hhead => (hall '_' (List.mem_of_head? hhead)).2 rfl⟩
  rw [hdigits]
  exact (List.map_congr_left fun c hc => (hall c hc).1).trans (List.map_id _)

namespace IsNumeral

theorem char (h : IsNumeral radix n body) (hr : radix = 10 ∨ radix = 16) :
    ∀ c ∈ body, IsDigitOf radix c ∨ c = '_' := by
  intro c hc
  by_cases hunderscore : c = '_'
  · exact .inr hunderscore
  · have hdigit : c ∈ digitsOf body := List.mem_filter.mpr ⟨hc, bne_iff_ne.mpr hunderscore⟩
    have hlower : c.toLower ∈ Nat.toDigits radix n := h.digits ▸ List.mem_map_of_mem hdigit
    obtain ⟨d, hd, heq⟩ := exists_digitChar (by omega) hlower
    refine .inl ((isSome_digitValue?_iff hr).mp ?_)
    rw [← digitValue?_toLower, heq, digitValue?_digitChar (by omega) hd]
    rfl

/-- It starts with a digit. -/
theorem exists_cons (h : IsNumeral radix n body) (hr : radix = 10 ∨ radix = 16) :
    ∃ d ds, body = d :: ds ∧ IsDigitOf radix d := by
  cases body with
  | nil => exact absurd h.digits.symm Nat.toDigits_ne_nil
  | cons d ds =>
    refine ⟨d, ds, rfl, (h.char hr d List.mem_cons_self).resolve_right ?_⟩
    rintro rfl
    exact h.head rfl

/-- **It denotes the number.** -/
theorem magnitude_eq (h : IsNumeral lead.radix n body) (hr : lead.radix = 10 ∨ lead.radix = 16) :
    lead.magnitude body = n := by
  calc lead.magnitude body
      = numeral lead.radix (digitsOf body) := (numeral_eq_ofDigits _ _).symm
    _ = numeral lead.radix ((digitsOf body).map Char.toLower) := (numeral_toLower _ _).symm
    _ = numeral lead.radix (Nat.toDigits lead.radix n) := by rw [h.digits]
    _ = n := numeral_toDigits (by omega) (by omega) n

/-- A literal with these digits is read as the word of the number, if that is not too large. -/
theorem reading_eq (h : IsNumeral lead.radix n body) (hr : lead.radix = 10 ∨ lead.radix = 16)
    (hn : n ≤ magnitudeLimit lead.negative) :
    lead.reading body = .token .number (String.ofList (lead.taken ++ body)) (lead.word n) := by
  have hdigits : ¬∀ c ∈ body, c = '_' := by
    intro hall
    obtain ⟨d, ds, rfl, -⟩ := h.exists_cons hr
    exact h.head (congrArg some (hall d List.mem_cons_self))
  unfold NumberLead.reading
  rw [numberValue_of_digits hdigits, h.magnitude_eq hr, if_neg (by omega)]

theorem numberAt_hexadecimal (h : IsNumeral 16 n body) {x : Char} (hx : x = 'x' ∨ x = 'X')
    (hr : ∀ c ∈ rest.head?, ¬(IsDigitOf 16 c ∨ c = '_')) :
    NumberAt ('0' :: x :: (body ++ rest)) ⟨['0', x], 16, false⟩ body rest :=
  ⟨rfl, .hexadecimal hx, h.char (.inr rfl), hr⟩

theorem numberAt_negative (h : IsNumeral 10 n body) (hr : EndsNumber rest) :
    NumberAt ('-' :: (body ++ rest)) ⟨['-'], 10, true⟩ body rest := by
  obtain ⟨d, ds, hbody, hd⟩ := h.exists_cons (.inl rfl)
  refine ⟨rfl, ?_, h.char (.inl rfl), hr.longest⟩
  rw [hbody, List.cons_append]
  exact .negative (isDigitOf_ten.mp hd)

theorem numberAt_decimal (h : IsNumeral 10 n body) (hr : EndsNumber rest) :
    NumberAt (body ++ rest) ⟨[], 10, false⟩ body rest := by
  obtain ⟨d, ds, hbody, hd⟩ := h.exists_cons (.inl rfl)
  refine ⟨rfl, ?_, h.char (.inl rfl), hr.longest⟩
  rw [hbody, List.cons_append]
  refine .decimal (isDigitOf_ten.mp hd) fun _ c hc => ?_
  cases ds with
  | nil => exact (hr c hc).2
  | cons e ds =>
    obtain rfl : e = c := Option.some.inj hc
    have he := h.char (.inl rfl) e (by rw [hbody]; simp)
    rw [isDigitOf_ten] at he
    constructor
    · rintro rfl
      exact absurd he (by decide)
    · rintro rfl
      exact absurd he (by decide)

end IsNumeral

end

end FrontEnd.Lexer
