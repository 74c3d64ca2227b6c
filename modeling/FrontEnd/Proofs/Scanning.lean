import FrontEnd.Proofs.LexemeRules
import FrontEnd.Syntax.Terminal

/-!
# Scanning what is printed

What `Lexer.scan` finds at the start of a text that starts with a printed lexeme. Each rule says
which characters may not follow the lexeme, for they would go on with it.

* `scan_symbol`: a symbol, before no character that makes a longer one (`continuations`).
* `scan_word`: a name or a keyword, before no word character and no mark.
* `scan_number`, `scan_negative`: the decimal numeral of a word.
* `scan_string`, `scan_character`: escaped text between quotes.
-/

set_option autoImplicit false

namespace FrontEnd.Lexer

variable {rest : List Char}

/-- No character that would go on with a word stands here. -/
def Closed (rest : List Char) : Prop :=
  ∀ c ∈ rest.head?, isWordChar c = false ∧ c ≠ '?' ∧ c ≠ '!'

theorem closed_nil : Closed [] := by simp [Closed]

theorem closed_cons {c : Char} (h : isWordChar c = false ∧ c ≠ '?' ∧ c ≠ '!') :
    Closed (c :: rest) := by
  intro d hd
  rw [List.head?_cons, Option.mem_some_iff] at hd
  exact hd ▸ h

/-! ## Symbols -/

/-- The characters that make a longer symbol of this one. -/
def continuations (s : String) : List Char :=
  symbols.filterMap fun t =>
    if s.toList.isPrefixOf t.toList then (t.toList.drop s.toList.length).head? else none

theorem symbolAt_of_continuations {s : String} (hs : s ∈ symbols)
    (hr : ∀ c ∈ rest.head?, c ∉ continuations s)
    (hd : s = "-" → ∀ c ∈ rest.head?, c.isDigit = false) : SymbolAt s rest := by
  refine ⟨hs, fun t ht hp => ?_, hd⟩
  by_contra hlonger
  obtain ⟨tail, htail⟩ := List.prefix_of_prefix_length_le (List.prefix_append s.toList rest) hp
    (Nat.le_of_not_le hlonger)
  cases tail with
  | nil =>
    rw [← htail, List.append_nil] at hlonger
    exact hlonger (Nat.le_refl _)
  | cons c tail =>
    rw [← htail, List.prefix_append_right_inj] at hp
    obtain ⟨after, hafter⟩ := hp
    refine hr c (by rw [← hafter]; rfl) ?_
    unfold continuations
    rw [List.mem_filterMap]
    refine ⟨t, ht, ?_⟩
    rw [if_pos (List.isPrefixOf_iff_prefix.mpr ⟨c :: tail, htail⟩), ← htail, List.drop_left]
    rfl

/-- A symbol before no character that makes a longer one, a minus sign before no digit. -/
theorem scan_symbol {s : String} (hs : s ∈ symbols)
    (hr : ∀ c ∈ rest.head?, c ∉ continuations s)
    (hd : s = "-" → ∀ c ∈ rest.head?, c.isDigit = false) :
    scan (s.toList ++ rest) = some ⟨.token .symbol s 0, s.toList, rest⟩ :=
  (symbolAt_of_continuations hs hr hd).scan

/-! ## Words -/

/-- The characters of a word: word characters, the first of them no digit, and a mark if any. -/
def IsWord (cs : List Char) : Prop :=
  ∃ c body mark, cs = c :: body ++ mark ∧ isWordStart c = true ∧
    (∀ d ∈ body, isWordChar d = true) ∧ (mark = [] ∨ mark = ['?'] ∨ mark = ['!'])

theorem WordAt.isWord {run mark : List Char} (h : WordAt run mark rest) : IsWord (run ++ mark) := by
  obtain ⟨c, cs, rfl, hc⟩ := h.start
  refine ⟨c, cs, mark, rfl, hc, fun d hd => h.chars d (List.mem_cons_of_mem c hd), ?_⟩
  rcases h.marked with hm | hm | ⟨hm, -⟩
  · exact .inr (.inl hm)
  · exact .inr (.inr hm)
  · exact .inl hm

theorem IsWord.wordAt {cs : List Char} (h : IsWord cs) (hr : Closed rest) :
    ∃ run mark, cs = run ++ mark ∧ WordAt run mark rest := by
  obtain ⟨c, body, mark, hcs, hc, hbody, hmark⟩ := h
  refine ⟨c :: body, mark, hcs, ⟨c, body, rfl, hc⟩, ?_, ?_, ?_⟩
  · intro d hd
    rcases List.mem_cons.mp hd with rfl | hd
    · exact isWordChar_of_start hc
    · exact hbody d hd
  · rcases hmark with rfl | rfl | rfl
    · exact fun d hd => (hr d hd).1
    · rintro d ⟨⟩
      decide
    · rintro d ⟨⟩
      decide
  · rcases hmark with hm | hm | hm
    · exact .inr (.inr ⟨hm, fun d hd => (hr d hd).2⟩)
    · exact .inl hm
    · exact .inr (.inl hm)

/-- A word before no word character and no mark. -/
theorem scan_word {s : String} (hs : IsWord s.toList) (hr : Closed rest) :
    scan (s.toList ++ rest) =
      some ⟨.token (classify s).1 s (classify s).2, s.toList, rest⟩ := by
  obtain ⟨run, mark, hsplit, hword⟩ := hs.wordAt hr
  exact hword.scan hsplit

/-! ## Numbers -/

theorem isDigit_of_mem_toDigits {n : Nat} {c : Char} (h : c ∈ Nat.toDigits 10 n) :
    c.isDigit = true :=
  Nat.isDigit_of_mem_toDigits (by decide) (by decide) h

/-- The decimal numeral of a word. -/
theorem scan_number {n : Nat} (hn : n < Word.count) (hr : EndsNumber rest) :
    scan ((Nat.repr n).toList ++ rest) =
      some ⟨.token .number (Nat.repr n) (UInt64.ofNat n), (Nat.repr n).toList, rest⟩ := by
  have hnumeral := isNumeral_toDigits (.inl rfl) n
  have hfits : n ≤ magnitudeLimit false := by
    show n ≤ Word.count - 1
    omega
  rw [Nat.toList_repr, (hnumeral.numberAt_decimal hr).scan,
    IsNumeral.reading_eq hnumeral (.inl rfl) hfits, Nat.repr_eq_ofList_toDigits]
  rfl

/-- The decimal numeral of a negative number that a word can hold. -/
theorem scan_negative {n : Nat} (hn : n ≤ Word.signBit) (hr : EndsNumber rest) :
    scan ("-".toList ++ (Nat.repr n).toList ++ rest) =
      some ⟨.token .number ("-" ++ Nat.repr n) (0 - UInt64.ofNat n),
        "-".toList ++ (Nat.repr n).toList, rest⟩ := by
  have hnumeral := isNumeral_toDigits (.inl rfl) n
  have htext : String.ofList ('-' :: Nat.toDigits 10 n) = "-" ++ Nat.repr n := by
    apply String.toList_injective
    rw [String.toList_ofList, String.toList_append, Nat.toList_repr]
    rfl
  have hscan := (hnumeral.numberAt_negative hr).scan
  rw [IsNumeral.reading_eq hnumeral (.inl rfl) hn] at hscan
  rw [← htext, Nat.toList_repr]
  exact hscan

/-! ## Characters and strings -/

/-- Escaped text stands for the text, if a quote in it is escaped. -/
theorem decodes_escape {quote : Char} {cs : List Char}
    (h : ∀ c ∈ cs, Text.escapeChar c = [c] → c ≠ quote) :
    Decodes quote (cs.flatMap Text.escapeChar) cs := by
  induction cs with
  | nil => exact .nil
  | cons c cs ih =>
    have htail := ih fun d hd => h d (List.mem_cons_of_mem c hd)
    rw [List.flatMap_cons]
    rcases Text.escapeChar_cases c with ⟨hc, hslash, -⟩ | ⟨d, hc, hd⟩
    · rw [hc]
      exact .plain (h c List.mem_cons_self hc) hslash htail
    · rw [hc]
      exact .escaped hd htail

/-- Escaped text between double quotes. -/
theorem scan_string (s : String) :
    scan (("\"" ++ Text.escape s ++ "\"").toList ++ rest) =
      some ⟨.token .string s 0, ("\"" ++ Text.escape s ++ "\"").toList, rest⟩ := by
  have htext : ("\"" ++ Text.escape s ++ "\"").toList =
      '"' :: (s.toList.flatMap Text.escapeChar ++ ['"']) := by
    simp only [String.toList_append, Text.escape, String.toList_ofList]
    rfl
  rw [htext]
  refine (TokenAt.string (decodes_escape ?_)).scan
  rintro c - hc rfl
  cases hc

/-- An escaped character between single quotes. -/
theorem scan_character {v : Char} (hv : v ≠ '\'') :
    scan (("'" ++ Text.escape v.toString ++ "'").toList ++ rest) =
      some ⟨.token .char v.toString (UInt64.ofNat v.toNat),
        ("'" ++ Text.escape v.toString ++ "'").toList, rest⟩ := by
  have htext : ("'" ++ Text.escape v.toString ++ "'").toList =
      '\'' :: ([v].flatMap Text.escapeChar ++ ['\'']) := by
    simp only [String.toList_append, Text.escape, String.toList_ofList,
      Char.toString_eq_singleton, String.toList_singleton]
    rfl
  rw [htext]
  refine (TokenAt.char (decodes_escape ?_)).scan
  rintro c hc -
  rw [List.mem_singleton.mp hc]
  exact hv

end FrontEnd.Lexer
