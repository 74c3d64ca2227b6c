import FrontEnd.Proofs.Vocabulary

/-!
# Fragments of printed text

A fragment is printed as one piece. Here each kind of fragment is shown to spell the contents that
it is written for.

* `StandsFor` is for fragments that spell the same contents before any text: symbols that no
  character makes longer, and symbols and keywords with a blank after them.
* `TypeExpr.spells`, `Terminal.spells` are for those that may end in a word or a number. Such a
  fragment stands only before a text that is `Closed`.
-/

set_option autoImplicit false

namespace FrontEnd

open Grammar Lexer

variable {rest : List Char} {ws : List Content}

/-! ## Words and symbols -/

theorem symbols_noLongerByBlank : ∀ s ∈ symbols, ' ' ∉ continuations s := by decide

/-- A symbol before no character that makes a longer one, a minus sign before no digit. -/
theorem Spells.symbol {s : String} (hs : s ∈ symbols)
    (hr : ∀ c ∈ rest.head?, c ∉ continuations s)
    (hd : s = "-" → ∀ c ∈ rest.head?, c.isDigit = false) (h : Spells rest ws) :
    Spells (s.toList ++ rest) (.symbol s :: ws) := by
  refine .plain ?_ (scan_symbol hs hr hd) (by decide) (by decide) (by decide) h
  have hplain := symbols_startPlain s hs
  have hblank := symbols_noBlank s hs
  cases hcs : s.toList with
  | nil =>
    rw [hcs] at hplain
    cases hplain
  | cons d ds =>
    rw [hcs, List.all_cons, Bool.and_eq_true] at hblank
    exact noBlank_append rfl (by simpa using hblank.1)

/-- A symbol before a blank. -/
theorem Spells.symbolBlank {s : String} (hs : s ∈ symbols) (h : Spells rest ws) :
    Spells (s.toList ++ ' ' :: rest) (.symbol s :: ws) := by
  refine .symbol hs ?_ ?_ (.blank rfl h)
  · rintro c ⟨⟩
    exact symbols_noLongerByBlank s hs
  · rintro _ c ⟨⟩
    rfl

theorem noBlank_word {s : String} (hs : IsWord s.toList) : NoBlank (s.toList ++ rest) := by
  obtain ⟨c, body, mark, hcs, hc, _⟩ := hs
  exact noBlank_append hcs (isBlank_of_wordChar (isWordChar_of_start hc))

/-- A name before no character that goes on with a word. -/
theorem Spells.name {s : String} (hs : IsName s) (hr : Closed rest) (h : Spells rest ws) :
    Spells (s.toList ++ rest) (.name s :: ws) := by
  have hx := scan_word hs.word hr
  rw [hs.classified] at hx
  exact .plain (noBlank_word hs.word) hx (by decide) (by decide) (by decide) h

/-- The text is a word without a mark. -/
def isPlainWord (s : String) : Bool :=
  match s.toList with
  | c :: cs => isWordStart c && cs.all isWordChar
  | [] => false

theorem isWord_of_plain {s : String} (h : isPlainWord s = true) : IsWord s.toList := by
  unfold isPlainWord at h
  split at h
  · rename_i c cs hcs
    rw [Bool.and_eq_true, List.all_eq_true] at h
    exact ⟨c, cs, [], by rw [hcs, List.append_nil], h.1, h.2, .inl rfl⟩
  · cases h

theorem keywords_plain :
    ∀ s ∈ keywords, isPlainWord s = true ∧ classify s = (.keyword, 0) := by decide

theorem primitives_plain :
    ∀ p ∈ TypeExpr.primitives, isPlainWord p.1 = true ∧ classify p.1 = (.identifier, 0) := by
  decide

theorem isName_of_primitive {e : TypeExpr} (h : (e.text, e) ∈ TypeExpr.primitives) :
    IsName e.text :=
  ⟨isWord_of_plain (primitives_plain _ h).1, (primitives_plain _ h).2⟩

/-- A keyword before a blank. -/
theorem Spells.keywordBlank {s : String} (hs : s ∈ keywords) (h : Spells rest ws) :
    Spells (s.toList ++ ' ' :: rest) (.keyword s :: ws) := by
  obtain ⟨hplain, hclassify⟩ := keywords_plain s hs
  have hword := isWord_of_plain hplain
  have hclosed : Closed (' ' :: rest) := closed_cons (by decide)
  have hx := scan_word hword hclosed
  rw [hclassify] at hx
  exact .plain (noBlank_word hword) hx (by decide) (by decide) (by decide) (.blank rfl h)

/-! ## Fragments that spell the same contents before any text -/

/-- Before any text the fragment spells these contents. -/
def StandsFor (t : String) (vs : List Content) : Prop :=
  ∀ rest ws, Spells rest ws → Spells (t.toList ++ rest) (vs ++ ws)

namespace StandsFor

theorem append {t u : String} {vs us : List Content} (ht : StandsFor t vs) (hu : StandsFor u us) :
    StandsFor (t ++ u) (vs ++ us) := by
  intro rest ws h
  rw [String.toList_append, List.append_assoc, List.append_assoc]
  exact ht _ _ (hu _ _ h)

theorem blank : StandsFor " " [] := fun _ _ h => .blank rfl h

/-- A symbol that no character makes longer. -/
theorem symbol {s : String} (hs : s ∈ symbols) (hc : continuations s = []) (hd : s ≠ "-") :
    StandsFor s [.symbol s] :=
  fun _ _ h => .symbol hs (by simp [hc]) (fun hminus => absurd hminus hd) h

/-- A symbol and a blank. -/
theorem symbolBlank {s : String} (hs : s ∈ symbols) : StandsFor (s ++ " ") [.symbol s] := by
  intro rest ws h
  rw [String.toList_append, List.append_assoc]
  exact .symbolBlank hs h

/-- A keyword and a blank. -/
theorem keywordBlank {s : String} (hs : s ∈ keywords) : StandsFor (s ++ " ") [.keyword s] := by
  intro rest ws h
  rw [String.toList_append, List.append_assoc]
  exact .keywordBlank hs h

theorem openParen : StandsFor "(" [.symbol "("] := symbol (by decide) rfl (by decide)

theorem closeParen : StandsFor ")" [.symbol ")"] := symbol (by decide) rfl (by decide)

theorem openBracket : StandsFor "[" [.symbol "["] := symbol (by decide) rfl (by decide)

theorem closeBracket : StandsFor "]" [.symbol "]"] := symbol (by decide) rfl (by decide)

theorem openBrace : StandsFor "\x7b" [.symbol "\x7b"] := symbol (by decide) rfl (by decide)

theorem closeBrace : StandsFor "\x7d" [.symbol "\x7d"] := symbol (by decide) rfl (by decide)

theorem unit : StandsFor "()" [.symbol "(", .symbol ")"] := append openParen closeParen

theorem braces : StandsFor "\x7b\x7d" [.symbol "\x7b", .symbol "\x7d"] :=
  append openBrace closeBrace

theorem comma : StandsFor ", " [.symbol ","] := symbolBlank (s := ",") (by decide)

theorem semicolon : StandsFor "; " [.symbol ";"] := symbolBlank (s := ";") (by decide)

theorem ampersands : StandsFor "&&" [.symbol "&&"] := symbol (by decide) rfl (by decide)

/-- A keyword between blanks. -/
theorem spacedKeyword {s : String} (hs : s ∈ keywords) :
    StandsFor (" " ++ (s ++ " ")) [.keyword s] :=
  append blank (keywordBlank hs)

theorem ifWord : StandsFor "if " [.keyword "if"] := keywordBlank (s := "if") (by decide)

theorem loopWord : StandsFor "loop " [.keyword "loop"] := keywordBlank (s := "loop") (by decide)

theorem thenWord : StandsFor " then " [.keyword "then"] := spacedKeyword (s := "then") (by decide)

theorem elseWord : StandsFor " else " [.keyword "else"] := spacedKeyword (s := "else") (by decide)

end StandsFor

/-! ## Numbers -/

theorem endsNumber_cons {c : Char} (h : isNumberChar 10 c = false ∧ c ≠ 'x' ∧ c ≠ 'X') :
    EndsNumber (c :: rest) := by
  intro d hd
  rw [List.head?_cons, Option.mem_some_iff] at hd
  exact hd ▸ h

/-- What ends a word ends a number. -/
theorem Lexer.Closed.endsNumber (h : Closed rest) : EndsNumber rest := by
  intro c hc
  have hword := (h c hc).1
  refine ⟨?_, ?_, ?_⟩
  · rw [Bool.eq_false_iff] at hword ⊢
    intro hn
    apply hword
    rw [isNumberChar_iff (.inl rfl), isDigitOf_ten] at hn
    rcases hn with hn | rfl
    · simp [isWordChar, Char.isAlphanum, hn]
    · rfl
  · rintro rfl
    cases hword
  · rintro rfl
    cases hword

/-- The numeral of an integer literal, without its suffix. -/
def numeralText (bits : UInt64) (type : TypeExpr) : String :=
  if type.isSignedInteger then Word.signedText bits else Nat.repr bits.toNat

/-- A numeral before no character that goes on with it. -/
theorem scan_numeral (bits : UInt64) (type : TypeExpr) (hr : EndsNumber rest) :
    ∃ text, scan ((numeralText bits type).toList ++ rest) =
        some ⟨.token .number text bits, (numeralText bits type).toList, rest⟩ := by
  have hcount := Word.toNat_lt_count bits
  unfold numeralText Word.signedText
  rw [Word.natAbs_signed]
  split
  · cases hneg : Word.isNegative bits with
    | true =>
      have hsign := Word.isNegative_iff.mp hneg
      have hle : Word.count - bits.toNat ≤ Word.signBit := by
        have hdouble : Word.count = Word.signBit + Word.signBit := rfl
        omega
      have hx := scan_negative hle hr
      rw [Word.zero_sub_magnitude hsign] at hx
      rw [if_pos rfl, if_pos rfl, String.toList_append]
      exact ⟨_, hx⟩
    | false =>
      have hx := scan_number hcount hr
      rw [UInt64.ofNat_toNat] at hx
      refine ⟨Nat.repr bits.toNat, ?_⟩
      simpa using hx
  · have hx := scan_number hcount hr
    rw [UInt64.ofNat_toNat] at hx
    exact ⟨_, hx⟩

/-- A numeral is made of digits and perhaps a minus sign. -/
theorem numeralText_chars (bits : UInt64) (type : TypeExpr) :
    (numeralText bits type).toList ≠ [] ∧
      ∀ c ∈ (numeralText bits type).toList, c = '-' ∨ c.isDigit = true := by
  have hrepr : ∀ n, (Nat.repr n).toList ≠ [] ∧
      ∀ c ∈ (Nat.repr n).toList, c = '-' ∨ c.isDigit = true := by
    intro n
    rw [Nat.toList_repr]
    exact ⟨Nat.toDigits_ne_nil, fun c hc => .inr (isDigit_of_mem_toDigits hc)⟩
  unfold numeralText Word.signedText
  split
  · obtain ⟨hne, hall⟩ := hrepr (Word.signed bits).natAbs
    rw [String.toList_append]
    refine ⟨List.append_ne_nil_of_right_ne_nil _ hne, ?_⟩
    intro c hc
    rcases List.mem_append.mp hc with hc | hc
    · split at hc
      · exact .inl (List.mem_singleton.mp hc)
      · cases hc
    · exact hall c hc
  · exact hrepr _

theorem noBlank_numeral (bits : UInt64) (type : TypeExpr) :
    NoBlank ((numeralText bits type).toList ++ rest) := by
  obtain ⟨hne, hall⟩ := numeralText_chars bits type
  cases hcs : (numeralText bits type).toList with
  | nil => exact absurd hcs hne
  | cons c cs =>
    refine noBlank_append rfl ?_
    rcases hall c (by rw [hcs]; exact List.mem_cons_self) with rfl | hdigit
    · rfl
    · exact isBlank_of_wordChar (by simp [isWordChar, Char.isAlphanum, hdigit])

/-- The length of an array, before no word. -/
theorem Spells.length (size : UInt64) (hr : EndsNumber rest)
    (hn : ∀ s, ws.head? ≠ some (.name s)) (h : Spells rest ws) :
    Spells ((Nat.repr size.toNat).toList ++ rest) (.integer size .defaultInteger :: ws) := by
  obtain ⟨text, hx⟩ := scan_numeral size (.uint .w64) hr
  exact .integer (noBlank_numeral size (.uint .w64)) hx hn h

/-! ## Types -/

/-- How the text of a type starts: with no character that makes a longer symbol of a star, and with
an ampersand only for a reference. -/
theorem TypeExpr.text_start {e : TypeExpr} (he : e.Lexed) :
    ∃ c cs, e.text.toList = c :: cs ∧ c ≠ '=' ∧ (c = '&' → ∃ target, e = ref target) := by
  cases e with
  | sint w => cases w <;> exact ⟨'i', _, rfl, by decide, by simp⟩
  | uint w => cases w <;> exact ⟨'u', _, rfl, by decide, by simp⟩
  | float w => cases w <;> exact ⟨'f', _, rfl, by decide, by simp⟩
  | bool => exact ⟨'b', _, rfl, by decide, by simp⟩
  | char => exact ⟨'c', _, rfl, by decide, by simp⟩
  | str => exact ⟨'s', _, rfl, by decide, by simp⟩
  | unit => exact ⟨'(', _, rfl, by decide, by simp⟩
  | slice element =>
    refine ⟨'[', element.text.toList ++ "]".toList, ?_, by decide, by simp⟩
    rw [text, String.toList_append, String.toList_append]
    rfl
  | array element size =>
    refine ⟨'[', element.text.toList ++ ("; " ++ Nat.repr size.toNat ++ "]").toList, ?_, by decide,
      by simp⟩
    rw [text, String.toList_append, String.toList_append, String.toList_append,
      String.toList_append, String.toList_append, String.toList_append]
    simp only [List.append_assoc]
    rfl
  | ref target => exact ⟨'&', target.text.toList, String.toList_append, by decide, fun _ => ⟨_, rfl⟩⟩
  | pointer target => exact ⟨'*', target.text.toList, String.toList_append, by decide, by simp⟩
  | named name =>
    obtain ⟨c, body, mark, hcs, hc, _⟩ := (he.1 name List.mem_cons_self).word
    refine ⟨c, body ++ mark, by rw [text, hcs, List.cons_append], ?_, ?_⟩
    · rintro rfl
      cases hc
    · rintro rfl
      cases hc

theorem TypeExpr.text_head {e : TypeExpr} (he : e.Lexed) :
    ∀ c ∈ (e.text.toList ++ rest).head?, c ≠ '=' ∧ (c = '&' → ∃ target, e = ref target) := by
  obtain ⟨c, cs, hcs, hstart⟩ := text_start he
  intro d hd
  rw [hcs] at hd
  obtain rfl : c = d := by simpa using hd
  exact hstart

/-- A type before no character that goes on with a word. -/
theorem TypeExpr.spells (e : TypeExpr) :
    e.Lexed → ∀ rest ws, Closed rest → Spells rest ws →
      Spells (e.text.toList ++ rest) (e.contents ++ ws) := by
  induction e using contents.induct with
  | case1 => exact fun _ rest ws _ h => StandsFor.unit rest ws h
  | case2 element ih =>
    intro he rest ws _ h
    have hclose : Spells ("]".toList ++ rest) (.symbol "]" :: ws) := StandsFor.closeBracket rest ws h
    have helement := ih he _ _ (closed_cons (by decide)) hclose
    simp only [text, contents, String.toList_append, List.append_assoc, List.cons_append,
      List.nil_append]
    exact StandsFor.openBracket _ _ helement
  | case3 element size ih =>
    intro he rest ws _ h
    have hclose : Spells ("]".toList ++ rest) (.symbol "]" :: ws) := StandsFor.closeBracket rest ws h
    have hsize := Spells.length size (endsNumber_cons (by decide)) (by simp) hclose
    have helement := ih he _ _ (closed_cons (by decide)) (StandsFor.semicolon _ _ hsize)
    simp only [text, contents, String.toList_append, List.append_assoc, List.cons_append,
      List.nil_append]
    exact StandsFor.openBracket _ _ helement
  | case4 target ih =>
    intro he rest ws hr h
    simp only [text, String.toList_append, List.append_assoc]
    exact StandsFor.ampersands _ _ (ih he rest ws hr h)
  | case5 target hne ih =>
    intro he rest ws hr h
    have htarget : target.Lexed := he
    rw [contents_ref hne, text, String.toList_append, List.append_assoc]
    refine .symbol (by decide) ?_ (fun hminus => absurd hminus (by decide)) (ih htarget rest ws hr h)
    intro c hc hmem
    have hlonger : continuations "&" = ['&'] := rfl
    rw [hlonger, List.mem_singleton] at hmem
    obtain ⟨t, ht⟩ := (text_head htarget c hc).2 hmem
    exact hne t ht
  | case6 target ih =>
    intro he rest ws hr h
    have htarget : target.Lexed := he
    rw [text, String.toList_append, List.append_assoc]
    refine .symbol (by decide) ?_ (fun hminus => absurd hminus (by decide)) (ih htarget rest ws hr h)
    intro c hc hmem
    have hlonger : continuations "*" = ['='] := rfl
    rw [hlonger, List.mem_singleton] at hmem
    exact (text_head htarget c hc).1 hmem
  | case7 word h₁ h₂ h₃ h₄ h₅ h₆ =>
    intro he rest ws hr h
    have hname : IsName word.text → word.contents = [.name word.text] →
        Spells (word.text.toList ++ rest) (word.contents ++ ws) := by
      intro hn hc
      rw [hc]
      exact .name hn hr h
    cases word with
    | unit => exact absurd rfl h₁
    | slice e => exact absurd rfl (h₂ e)
    | array e n => exact absurd rfl (h₃ e n)
    | ref e => exact absurd rfl (h₅ e)
    | pointer e => exact absurd rfl (h₆ e)
    | named name => exact hname (he.1 name List.mem_cons_self) rfl
    | sint w => cases w <;> exact hname (isName_of_primitive (by decide)) rfl
    | uint w => cases w <;> exact hname (isName_of_primitive (by decide)) rfl
    | float w => cases w <;> exact hname (isName_of_primitive (by decide)) rfl
    | bool => exact hname (isName_of_primitive (by decide)) rfl
    | char => exact hname (isName_of_primitive (by decide)) rfl
    | str => exact hname (isName_of_primitive (by decide)) rfl

/-! ## Literals and identifiers -/

theorem integer_word {type : TypeExpr} (h : type.isInteger = true) :
    IsName type.text ∧ TypeExpr.primitive? type.text = some type ∧
      EndsNumber (type.text.toList ++ rest) := by
  cases type with
  | sint w =>
    cases w <;>
      exact ⟨isName_of_primitive (by decide), by decide, endsNumber_cons (c := 'i') (by decide)⟩
  | uint w =>
    cases w <;>
      exact ⟨isName_of_primitive (by decide), by decide, endsNumber_cons (c := 'u') (by decide)⟩
  | _ => cases h

/-- A number with its suffix, before no character that goes on with it and no word. -/
theorem Spells.literal {bits : UInt64} {type : TypeExpr} (hi : type.isInteger = true)
    (hr : Closed rest) (hn : ∀ s, ws.head? ≠ some (.name s)) (h : Spells rest ws) :
    Spells ((Terminal.integer bits type).text.toList ++ rest) (.integer bits type :: ws) := by
  have htext : (Terminal.integer bits type).text =
      numeralText bits type ++ Terminal.integerSuffix type := rfl
  rw [htext, String.toList_append, List.append_assoc]
  unfold Terminal.integerSuffix
  by_cases hdefault : type = .defaultInteger
  · obtain ⟨text, hx⟩ := scan_numeral bits type hr.endsNumber
    rw [if_pos hdefault]
    subst hdefault
    exact .integer (noBlank_numeral bits _) hx hn h
  · obtain ⟨hname, hprimitive, hends⟩ := @integer_word rest type hi
    obtain ⟨text, hx⟩ := scan_numeral bits type hends
    have hy := scan_word hname.word hr
    rw [hname.classified] at hy
    rw [if_neg hdefault]
    exact .suffixed (noBlank_numeral bits _) hx (noBlank_word hname.word) hy hprimitive hi h

/-- A literal or identifier before no character that goes on with it and no word. -/
theorem Terminal.spells {a : Terminal} (hl : a.Lexed)
    (hi : ∀ bits type, a = .integer bits type → type.isInteger = true) (hr : Closed rest)
    (hn : ∀ s, ws.head? ≠ some (.name s)) (h : Spells rest ws) :
    Spells (a.text.toList ++ rest) (a.contents ++ ws) := by
  cases a with
  | boolean value =>
    cases value with
    | true =>
      have hword : IsWord "true".toList := isWord_of_plain (by decide)
      exact .boolean (noBlank_word hword) (scan_word hword hr) h
    | false =>
      have hword : IsWord "false".toList := isWord_of_plain (by decide)
      exact .boolean (noBlank_word hword) (scan_word hword hr) h
  | integer bits type => exact .literal (hi bits type rfl) hr hn h
  | character value =>
    refine .plain ?_ (scan_character hl) (by decide) (by decide) (by decide) h
    rw [text, String.toList_append, String.toList_append, List.append_assoc, List.append_assoc]
    rintro c ⟨⟩
    rfl
  | string value =>
    refine .plain ?_ (scan_string value) (by decide) (by decide) (by decide) h
    rw [text, String.toList_append, String.toList_append, List.append_assoc, List.append_assoc]
    rintro c ⟨⟩
    rfl
  | identifier name => exact .name hl hr h
  | unit => exact StandsFor.unit rest ws h

end FrontEnd
