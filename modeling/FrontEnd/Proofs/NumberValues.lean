import FrontEnd.Proofs.LexerStates
import FrontEnd.Proofs.NumberLiterals

/-!
# Values of number literals

A number literal has exactly the value that its digits denote, or an error says why it has none.

* `NumberOutcome` is what is answered for a literal, `numberOutcome_of_numberAt` that this is so for
  the number at the start of what is left of a source.
* `IsLiteral` lists the ways to write a word; `IsLiteral.lex_eq`: each is lexed to one token that has
  the word as its value.
* `number_literals_exact`: so it is in every state that a lexer of the source comes to, and for each
  word.
-/

set_option autoImplicit false

namespace FrontEnd

open Lexer Text

/-! ## What is answered where a number starts -/

/-- The magnitude does not fit in a word, or its negative does not. -/
def Lexer.NumberLead.TooLarge (lead : NumberLead) (magnitude : Nat) : Prop :=
  Word.count - 1 < magnitude ∨ lead.negative = true ∧ Word.signBit < magnitude

/-- No digit follows the radix sign. -/
def Lexer.NumberLead.Empty (lead : NumberLead) (body : List Char) : Prop :=
  lead.radix = 16 ∧ ∀ c ∈ body, c = '_'

/-- What is answered for a literal with this lead and this body, which covers a part of the source:
an error exactly if there is no digit or the number is too large, else its token. -/
structure NumberOutcome (source : String) (span : Span) (lead : NumberLead) (body : List Char)
    (answer : Except LexError Token) : Prop where
  invalid : answer = .error ⟨.invalidNumber, span⟩ ↔ lead.Empty body
  overflow : answer = .error ⟨.numberOverflow, span⟩ ↔ lead.TooLarge (lead.magnitude body)
  value : ¬lead.Empty body → ¬lead.TooLarge (lead.magnitude body) →
    ∃ t, answer = .ok t ∧ t.kind = .number ∧ t.text = slice source span ∧ t.span = span ∧
      t.value.toNat = (if lead.negative then (Word.count - lead.magnitude body) % Word.count
        else lead.magnitude body) ∧
      (lead.negative = true → t.signedValue = -(lead.magnitude body : Int))

section

variable {source : String} {l : Lexer} {cs body rest : List Char} {lead : NumberLead} {m : Nat}

theorem magnitudeLimit_lt_iff : magnitudeLimit lead.negative < m ↔ lead.TooLarge m := by
  have hdouble : Word.count = Word.signBit + Word.signBit := rfl
  have hsmall : 1 < Word.signBit := by decide
  unfold magnitudeLimit NumberLead.TooLarge
  cases lead.negative with
  | true =>
    rw [if_pos rfl]
    simp only [true_and]
    omega
  | false =>
    rw [if_neg Bool.false_ne_true]
    simp

theorem not_tooLarge_zero : ¬lead.TooLarge 0 := by
  simp [NumberLead.TooLarge]

theorem Lexer.NumberAt.empty_iff (h : NumberAt cs lead body rest) :
    lead.Empty body ↔ ∀ c ∈ body, c = '_' := by
  refine ⟨And.right, fun hall => ⟨h.exists_digit.resolve_right ?_, hall⟩⟩
  rintro ⟨-, d, ds, rfl, hd⟩
  rw [hall d List.mem_cons_self] at hd
  exact absurd hd (by decide)

theorem magnitude_of_underscores (h : ∀ c ∈ body, c = '_') : lead.magnitude body = 0 := by
  unfold NumberLead.magnitude
  rw [digitsOf_eq_nil_iff.mpr h]
  rfl

theorem toNat_word (h : ¬lead.TooLarge m) :
    (lead.word m).toNat = if lead.negative then (Word.count - m) % Word.count else m := by
  rw [NumberLead.TooLarge, not_or, not_and] at h
  unfold NumberLead.word
  split
  · rename_i hnegative
    exact Word.toNat_zero_sub (by have := h.2 hnegative; omega)
  · rw [UInt64.toNat_ofNat']
    refine Nat.mod_eq_of_lt ?_
    have hcount : Word.count = 2 ^ 64 := rfl
    omega

theorem signed_word (h : ¬lead.TooLarge m) (hnegative : lead.negative = true) :
    Word.signed (lead.word m) = -(m : Int) := by
  rw [NumberLead.TooLarge, not_or, not_and] at h
  rw [NumberLead.word, if_pos hnegative]
  exact Word.signed_zero_sub (by have := h.2 hnegative; omega)

theorem reading_of_empty (h : ∀ c ∈ body, c = '_') :
    lead.reading body = .malformed .invalidNumber := by
  rw [NumberLead.reading, numberValue_of_underscores h]

theorem reading_of_tooLarge (hdigit : ¬∀ c ∈ body, c = '_')
    (hlarge : lead.TooLarge (lead.magnitude body)) :
    lead.reading body = .malformed .numberOverflow := by
  rw [NumberLead.reading, numberValue_of_digits hdigit, if_pos (magnitudeLimit_lt_iff.mpr hlarge)]

theorem reading_of_fits (hdigit : ¬∀ c ∈ body, c = '_')
    (hfits : ¬lead.TooLarge (lead.magnitude body)) :
    lead.reading body = .token .number (String.ofList (lead.taken ++ body))
      (lead.word (lead.magnitude body)) := by
  rw [NumberLead.reading, numberValue_of_digits hdigit,
    if_neg fun hlt => hfits (magnitudeLimit_lt_iff.mp hlt)]

/-- What is answered for a number that is scanned where it stands in the source. -/
theorem numberOutcome_of_numberAt {front : List Char}
    (hsize : byteLength source.toList ≤ Span.limit) (hs : source.toList = front ++ cs)
    (h : NumberAt cs lead body rest) :
    NumberOutcome source
      ⟨byteLength front, byteLength front + byteLength (lead.taken ++ body)⟩ lead body
      (Lexeme.answer ⟨lead.reading body, lead.taken ++ body, rest⟩ (byteLength front)) := by
  rw [h.split, ← List.append_assoc lead.taken] at hs
  have hspan : Span.ofRange (byteLength front)
      (byteLength front + byteLength (lead.taken ++ body)) =
        ⟨byteLength front, byteLength front + byteLength (lead.taken ++ body)⟩ := by
    rw [hs] at hsize
    simp only [byteLength_append] at hsize ⊢
    exact Span.ofRange_eq (by omega) (by omega)
  by_cases hempty : ∀ c ∈ body, c = '_'
  · have hsmall : ¬lead.TooLarge (lead.magnitude body) := by
      rw [magnitude_of_underscores hempty]
      exact not_tooLarge_zero
    rw [reading_of_empty hempty]
    dsimp only [Lexeme.answer]
    rw [hspan]
    exact ⟨iff_of_true rfl (h.empty_iff.mpr hempty), iff_of_false (by simp) hsmall,
      fun hdigit => absurd (h.empty_iff.mpr hempty) hdigit⟩
  have hdigit : ¬lead.Empty body := fun he => hempty (h.empty_iff.mp he)
  by_cases hlarge : lead.TooLarge (lead.magnitude body)
  · rw [reading_of_tooLarge hempty hlarge]
    dsimp only [Lexeme.answer]
    rw [hspan]
    exact ⟨iff_of_false (by simp) hdigit, iff_of_true rfl hlarge, fun _ hn => absurd hlarge hn⟩
  · rw [reading_of_fits hempty hlarge]
    dsimp only [Lexeme.answer, tokenAt]
    rw [hspan]
    refine ⟨iff_of_false (by simp) hdigit, iff_of_false (by simp) hlarge, fun _ _ =>
      ⟨_, rfl, rfl, (slice_middle hs).symm, rfl, toNat_word hlarge, fun hnegative => ?_⟩⟩
    exact signed_word hlarge hnegative

end

/-! ## How a word is written -/

/-- The literals of a word: in decimal or hexadecimal as a number without sign, and in decimal with
a minus sign if the word is negative. -/
inductive IsLiteral (bits : UInt64) : List Char → Prop where
  | decimal {body : List Char} (h : IsNumeral 10 bits.toNat body) : IsLiteral bits body
  | hexadecimal {x : Char} {body : List Char} (hx : x = 'x' ∨ x = 'X')
      (h : IsNumeral 16 bits.toNat body) : IsLiteral bits ('0' :: x :: body)
  | negative {body : List Char} (hn : Word.isNegative bits = true)
      (h : IsNumeral 10 (Word.signed bits).natAbs body) : IsLiteral bits ('-' :: body)

namespace IsLiteral

variable {bits : UInt64} {literal : List Char}

theorem endsNumber_nil : EndsNumber [] := fun _ hc => nomatch hc

theorem numberAt (h : IsLiteral bits literal) :
    ∃ lead body, NumberAt literal lead body [] ∧ literal = lead.taken ++ body ∧
      lead.reading body = .token .number (String.ofList literal) bits := by
  have hcount := Word.toNat_lt_count bits
  cases h with
  | decimal h =>
    have hat := h.numberAt_decimal endsNumber_nil
    rw [List.append_nil] at hat
    refine ⟨_, _, hat, rfl, ?_⟩
    rw [IsNumeral.reading_eq h (.inl rfl) (by show _ ≤ Word.count - 1; omega)]
    exact congrArg _ UInt64.ofNat_toNat
  | hexadecimal hx h =>
    have hends : ∀ c ∈ ([] : List Char).head?, ¬(IsDigitOf 16 c ∨ c = '_') := fun c hc => nomatch hc
    have hat := h.numberAt_hexadecimal hx hends
    rw [List.append_nil] at hat
    refine ⟨_, _, hat, rfl, ?_⟩
    rw [IsNumeral.reading_eq h (.inr rfl) (by show _ ≤ Word.count - 1; omega)]
    exact congrArg _ UInt64.ofNat_toNat
  | negative hn h =>
    have hsign := Word.isNegative_iff.mp hn
    have hdouble : Word.count = Word.signBit + Word.signBit := rfl
    have hat := h.numberAt_negative endsNumber_nil
    rw [List.append_nil] at hat
    refine ⟨_, _, hat, rfl, ?_⟩
    rw [Word.natAbs_signed, if_pos hn] at h
    rw [IsNumeral.reading_eq h (.inl rfl) (by show _ ≤ Word.signBit; omega)]
    exact congrArg _ (Word.zero_sub_magnitude hsign)

/-- **A literal of a word is lexed to one token with that value.** -/
theorem lex_eq (h : IsLiteral bits literal) :
    lex (String.ofList literal) = .ok [⟨.number, String.ofList literal, bits,
      Span.ofRange 0 (byteLength literal)⟩] := by
  obtain ⟨lead, body, hat, hliteral, hreading⟩ := h.numberAt
  have hscan := hat.scan
  rw [hreading, ← hliteral] at hscan
  have hblank : NoBlank literal := by
    have hdigit : ∀ d : Char, d.isDigit = true → isBlank d = false := fun d hd =>
      isBlank_of_wordChar (by rw [isWordChar, Char.isAlphanum, hd, Bool.or_true, Bool.true_or])
    obtain ⟨d, after, hd, rfl | rfl⟩ := startsNumber_iff.mp hat.startsNumber
    · exact fun c hc => Option.some.inj hc ▸ hdigit d hd
    · exact fun c hc => Option.some.inj hc ▸ rfl
  rw [← String.toList_ofList (l := literal)] at hscan hblank
  have hlex := lex_of_scan hblank hscan
  rw [tokenAt, String.toList_ofList] at hlex
  rw [hlex, Nat.zero_add]

end IsLiteral

/-- **Number literals have exact values or exact errors.** In every state of a lexer of the source
whose next lexeme starts with a digit, or with a minus sign and a digit, a number stands there, and
what is answered for it is as its digits say. Each literal of a word is lexed to one token that has
the word as its value. -/
theorem number_literals_exact :
    (∀ (source : String) (l : Lexer) (cs : List Char),
      byteLength source.toList ≤ Span.limit → Reached source l →
      dropBytes source.toList l.lexemeStart = some cs →
      (∃ d after, d.isDigit = true ∧ (cs = d :: after ∨ cs = '-' :: d :: after)) →
      ∃ lead body rest, NumberAt cs lead body rest ∧
        NumberOutcome source
          ⟨l.lexemeStart, l.lexemeStart + byteLength (lead.taken ++ body)⟩ lead body
          l.nextToken.1) ∧
    ∀ (bits : UInt64) (literal : List Char), IsLiteral bits literal →
      lex (String.ofList literal) = .ok [⟨.number, String.ofList literal, bits,
        Span.ofRange 0 (byteLength literal)⟩] := by
  refine ⟨fun source l cs hsize hl hcs hstart => ?_, fun bits literal => IsLiteral.lex_eq⟩
  obtain ⟨front, cs', hs, hfront, -, hanswer⟩ := hl.standsIn.exists_split
  rw [hs, ← hfront, dropBytes_append] at hcs
  cases hcs
  obtain ⟨lead, body, rest, hnumber⟩ := exists_numberAt (startsNumber_iff.mpr hstart)
  refine ⟨lead, body, rest, hnumber, ?_⟩
  rw [hanswer _ hnumber.scan, ← hfront]
  exact numberOutcome_of_numberAt hsize hs hnumber

/-- One below the least signed word, and a small word with capitals and an underscore. -/
theorem number_literals_exact_below_least :
    (∃ lead body rest, NumberAt "-9223372036854775809".toList lead body rest ∧
      NumberOutcome "-9223372036854775809" ⟨0, 0 + byteLength (lead.taken ++ body)⟩ lead body
        (Lexer.ofSource "-9223372036854775809").nextToken.1) ∧
    lex (String.ofList ['0', 'X', 'F', '_', 'f']) =
      .ok [⟨.number, String.ofList ['0', 'X', 'F', '_', 'f'], 255, Span.ofRange 0 5⟩] :=
  ⟨number_literals_exact.1 "-9223372036854775809" _ _ (by decide) .start rfl
      ⟨'9', "223372036854775809".toList, by decide, .inr rfl⟩,
    number_literals_exact.2 255 _ (.hexadecimal (.inr rfl) ⟨by decide, by decide⟩)⟩

end FrontEnd
