import Mathlib.Data.List.Basic
import FrontEnd.Proofs.NumberLiterals

/-!
# The rules for lexemes

The lexemes that stand for tokens, one rule for each kind of them, apart from the order in which
the lexer tries its rules. Each rule says how a lexeme is written and how far it goes: what may not
follow it.

* `Decodes` says which text the body of a literal in quotes stands for, `WordAt` how a word ends.
* `TokenAt` lists the rules. `scan_eq_token_iff`: the tokens that are scanned are those that the
  rules give.
* `TokenAt.unique`: no two rules apply to one text, so their order does not matter.
-/

set_option autoImplicit false

namespace FrontEnd

open Lexer Text

/-- Between two quotes the characters stand for a text: a backslash and the letter after it for the
character that they escape, any other character for itself. The quote stands in no other place, and
neither does a backslash. -/
inductive Decodes (quote : Char) : List Char → List Char → Prop where
  | nil : Decodes quote [] []
  | plain {c : Char} {body text : List Char} (hq : c ≠ quote) (hb : c ≠ '\\')
      (h : Decodes quote body text) : Decodes quote (c :: body) (c :: text)
  | escaped {c d : Char} {body text : List Char} (he : unescape c = some d)
      (h : Decodes quote body text) : Decodes quote ('\\' :: c :: body) (d :: text)

/-- The text of a character literal is no single quote. -/
theorem Decodes.ne_quote {body : List Char} {v : Char} (h : Decodes '\'' body [v]) : v ≠ '\'' := by
  cases h with
  | plain hq _ _ => exact hq
  | escaped he _ =>
    have hescape := unescape_eq_some_iff.mp he
    rintro rfl
    simp at hescape

namespace Lexer

/-- A word stands before the rest of a text: the longest run of word characters, the first of them
no digit, and the mark after it if there is one. -/
structure WordAt (run mark rest : List Char) : Prop where
  start : ∃ c cs, run = c :: cs ∧ isWordStart c = true
  chars : ∀ c ∈ run, isWordChar c = true
  longest : ∀ c ∈ (mark ++ rest).head?, isWordChar c = false
  marked : mark = ['?'] ∨ mark = ['!'] ∨ mark = [] ∧ ∀ c ∈ rest.head?, c ≠ '?' ∧ c ≠ '!'

/-- The symbol is the longest that starts the text, and no minus sign before a digit. -/
structure SymbolAt (s : String) (rest : List Char) : Prop where
  mem : s ∈ symbols
  longest : ∀ t ∈ symbols, t.toList <+: s.toList ++ rest → t.toList.length ≤ s.toList.length
  minus : s = "-" → ∀ c ∈ rest.head?, c.isDigit = false

/-- The character starts neither a number nor a literal in quotes nor a symbol nor a word. -/
structure StartsNone (c : Char) (rest : List Char) : Prop where
  number : startsNumber (c :: rest) = false
  char : c ≠ '\''
  string : c ≠ '"'
  symbol : ∀ s ∈ symbols, ¬s.toList <+: c :: rest
  word : isWordStart c = false

/-- The token of a lexeme, the characters taken for it, and the text after them. -/
inductive TokenAt : TokenKind → String → UInt64 → List Char → List Char → Prop where
  | number {lead : NumberLead} {body rest : List Char} {value : UInt64}
      (h : NumberAt (lead.taken ++ (body ++ rest)) lead body rest)
      (hv : numberValue lead body = .ok value) :
      TokenAt .number (String.ofList (lead.taken ++ body)) value (lead.taken ++ body) rest
  | char {v : Char} {body rest : List Char} (h : Decodes '\'' body [v]) :
      TokenAt .char v.toString (UInt64.ofNat v.toNat) ('\'' :: (body ++ ['\''])) rest
  | string {text : String} {body rest : List Char} (h : Decodes '"' body text.toList) :
      TokenAt .string text 0 ('"' :: (body ++ ['"'])) rest
  | symbol {s : String} {rest : List Char} (h : SymbolAt s rest) :
      TokenAt .symbol s 0 s.toList rest
  | word {s : String} {run mark rest : List Char} (hs : s.toList = run ++ mark)
      (h : WordAt run mark rest) : TokenAt (classify s).1 s (classify s).2 s.toList rest
  | unexpected {c : Char} {rest : List Char} (h : StartsNone c rest) :
      TokenAt .unexpected c.toString (UInt64.ofNat c.toNat) [c] rest

section

variable {cs rest taken : List Char} {c : Char} {kind : TokenKind} {text : String} {value : UInt64}

/-! ## Literals in quotes -/

theorem stringBody_cons (c : Char) (cs : List Char) :
    stringBody (c :: cs) =
      if c = '"' then ⟨[], none, [c], cs⟩
      else if c = '\\' then
        match cs with
        | [] => ⟨[], some .unterminatedString, [c], []⟩
        | e :: cs' =>
          match Text.unescape e with
          | some d => (stringBody cs').cons d [c, e]
          | none => ⟨[], some (.invalidEscape e), [c, e], cs'⟩
      else (stringBody cs).cons c [c] :=
  stringBody.eq_def (c :: cs)

theorem stringBody_decodes (cs : List Char) (h : (stringBody cs).problem = none) :
    ∃ body, (stringBody cs).taken = body ++ ['"'] ∧ Decodes '"' body (stringBody cs).text := by
  fun_induction stringBody cs with
  | case1 => cases h
  | case2 => exact ⟨[], rfl, .nil⟩
  | case3 => cases h
  | case4 e rest d he hq ih =>
    obtain ⟨body, htaken, hdecodes⟩ := ih h
    refine ⟨'\\' :: e :: body, ?_, .escaped he hdecodes⟩
    show ['\\', e] ++ (stringBody rest).taken = _
    rw [htaken]
    rfl
  | case5 => cases h
  | case6 c rest hq hb ih =>
    obtain ⟨body, htaken, hdecodes⟩ := ih h
    refine ⟨c :: body, ?_, .plain hq hb hdecodes⟩
    show [c] ++ (stringBody rest).taken = _
    rw [htaken]
    rfl

/-- A body that stands for a text ends at the quote after it. -/
theorem stringBody_of_decodes {body text : List Char} (h : Decodes '"' body text) :
    stringBody (body ++ '"' :: rest) = ⟨text, none, body ++ ['"'], rest⟩ := by
  induction h with
  | nil => rw [List.nil_append, stringBody_cons, if_pos rfl, List.nil_append]
  | plain hq hb _ ih =>
    rw [List.cons_append, stringBody_cons, if_neg hq, if_neg hb, ih]
    rfl
  | escaped he _ ih =>
    rw [List.cons_append, List.cons_append, stringBody_cons, if_neg (by decide), if_pos rfl]
    dsimp only
    rw [he]
    dsimp only
    rw [ih]
    rfl

theorem scanString_tokenAt (h : scanString cs = ⟨.token kind text value, taken, rest⟩) :
    TokenAt kind text value ('"' :: taken) rest := by
  unfold scanString at h
  obtain ⟨hreading, rfl, rfl⟩ := Lexeme.mk.inj h
  split at hreading
  · rename_i hp
    obtain ⟨body, htaken, hdecodes⟩ := stringBody_decodes cs hp
    cases hreading
    rw [htaken]
    refine .string ?_
    rw [String.toList_ofList]
    exact hdecodes
  · cases hreading

theorem closeChar_tokenAt {body after : List Char}
    (h : closeChar c body after = ⟨.token kind text value, taken, rest⟩)
    (hd : Decodes '\'' body [c]) : TokenAt kind text value ('\'' :: taken) rest := by
  unfold closeChar at h
  split at h
  · split at h
    · rename_i hq
      subst hq
      cases h
      exact .char hd
    · cases h
  · cases h

theorem charBody_tokenAt (h : charBody cs = ⟨.token kind text value, taken, rest⟩) :
    TokenAt kind text value ('\'' :: taken) rest := by
  cases cs with
  | nil => cases h
  | cons c cs =>
    rw [charBody.eq_def] at h
    dsimp only at h
    split at h
    · cases h
    rename_i hq
    split at h
    · rename_i hb
      subst hb
      cases cs with
      | nil => cases h
      | cons e cs =>
        dsimp only at h
        split at h
        · rename_i d he
          exact closeChar_tokenAt h (.escaped he .nil)
        · cases h
    · rename_i hb
      exact closeChar_tokenAt h (.plain hq hb .nil)

theorem charBody_of_decodes {body : List Char} (h : Decodes '\'' body [c]) :
    charBody (body ++ '\'' :: rest) =
      ⟨.token .char c.toString (UInt64.ofNat c.toNat), body ++ ['\''], rest⟩ := by
  cases h with
  | plain hq hb h =>
    cases h
    rw [List.singleton_append, charBody, if_neg hq, if_neg hb, closeChar, if_pos rfl]
  | escaped he h =>
    cases h
    rw [List.cons_append, List.singleton_append, charBody, if_neg (by decide), if_pos rfl, he]
    dsimp only
    rw [closeChar, if_pos rfl]

/-! ## Symbols -/

theorem symbolAt?_isSome {s : String} (hs : s ∈ symbols) :
    ∃ t, symbolAt? (s.toList ++ rest) = some t := by
  refine Option.isSome_iff_exists.mp ?_
  unfold symbolAt?
  rw [List.find?_isSome]
  exact ⟨s, hs, by simp [List.isPrefixOf_iff_prefix]⟩

/-- The first symbol in the table that starts a text is no shorter than any other that does. -/
theorem symbolAt?_longest {s t : String} (hs : s ∈ symbols) (hp : s.toList <+: cs)
    (ht : symbolAt? cs = some t) : s.toList.length ≤ t.toList.length := by
  unfold symbolAt? at ht
  obtain ⟨_, before, after, hsplit, hbefore⟩ := List.find?_eq_some_iff_append.mp ht
  have hordered := symbols_longest_first
  rw [hsplit] at hs hordered
  rcases List.mem_append.mp hs with hs | hs
  · have hno := hbefore s hs
    rw [List.isPrefixOf_iff_prefix.mpr hp] at hno
    cases hno
  · rcases List.mem_cons.mp hs with rfl | hs
    · exact Nat.le_refl _
    · have htail := (List.pairwise_append.mp hordered).2.1
      exact (List.pairwise_cons.mp htail).1 s hs

theorem prefix_of_symbolAt? {s : String} (h : symbolAt? cs = some s) : s.toList <+: cs :=
  ⟨_, symbolAt?_append h⟩

/-- **The first symbol in the table that starts a text is the longest that does.** -/
theorem SymbolAt.symbolAt?_eq {s : String} (h : SymbolAt s rest) :
    symbolAt? (s.toList ++ rest) = some s := by
  obtain ⟨t, ht⟩ := @symbolAt?_isSome rest s h.mem
  have hp : s.toList <+: s.toList ++ rest := List.prefix_append _ _
  have hle : t.toList.length ≤ s.toList.length :=
    h.longest t (List.mem_of_find?_eq_some ht) (prefix_of_symbolAt? ht)
  have heq : s.toList = t.toList :=
    (List.prefix_of_prefix_length_le hp (prefix_of_symbolAt? ht)
      (symbolAt?_longest h.mem hp ht)).eq_of_length_le hle
  rw [ht, String.toList_injective heq]

/-- How a symbol starts: with no quote, and not as a number does. -/
def startsPlain : List Char → Bool
  | c :: d :: _ => c != '\'' && c != '"' && !c.isDigit && !(c == '-' && d.isDigit)
  | [c] => c != '\'' && c != '"' && !c.isDigit
  | [] => false

theorem symbols_noBlank : ∀ s ∈ symbols, s.toList.all (fun c => !isBlank c) = true := by decide

theorem symbols_startPlain : ∀ s ∈ symbols, startsPlain s.toList = true := by decide

/-- What is scanned where neither a number nor a literal in quotes starts. -/
theorem scan_of_plain (hnumber : startsNumber (c :: rest) = false) (hchar : c ≠ '\'')
    (hstring : c ≠ '"') :
    scan (c :: rest) =
      match symbolAt? (c :: rest) with
      | some s => some ⟨.token .symbol s 0, s.toList, (c :: rest).drop s.toList.length⟩
      | none =>
        if isWordStart c then some (scanWord (c :: rest))
        else some ⟨.token .unexpected c.toString (UInt64.ofNat c.toNat), [c], rest⟩ := by
  have hno : ¬startsNumber (c :: rest) = true := by
    rw [hnumber]
    exact Bool.false_ne_true
  exact (if_neg hno).trans ((if_neg hchar).trans (if_neg hstring))

theorem SymbolAt.scan {s : String} (h : SymbolAt s rest) :
    scan (s.toList ++ rest) = some ⟨.token .symbol s 0, s.toList, rest⟩ := by
  have hplain := symbols_startPlain s h.mem
  have hsymbol := h.symbolAt?_eq
  cases hcs : s.toList with
  | nil =>
    rw [hcs] at hplain
    cases hplain
  | cons c cs =>
    have hquotes : c ≠ '\'' ∧ c ≠ '"' ∧ c.isDigit = false := by
      rw [hcs] at hplain
      cases cs <;> simp_all [startsPlain]
    have hnumber : startsNumber (c :: (cs ++ rest)) = false := by
      cases cs with
      | cons d cs =>
        rw [hcs] at hplain
        simp only [startsPlain, Bool.and_eq_true, Bool.not_eq_true'] at hplain
        simp [startsNumber, hquotes.2.2, hplain.2]
      | nil =>
        cases rest with
        | nil => simp [startsNumber, hquotes.2.2]
        | cons d rest =>
          by_cases hminus : c = '-'
          · have hsingle : s = "-" := String.toList_injective (by rw [hcs, hminus]; rfl)
            have hdigit := h.minus hsingle d rfl
            simp [startsNumber, hquotes.2.2, hdigit]
          · simp [startsNumber, hquotes.2.2, hminus]
    rw [hcs, List.cons_append] at hsymbol
    rw [List.cons_append, scan_of_plain hnumber hquotes.1 hquotes.2.1, hsymbol]
    dsimp only
    rw [hcs, ← List.cons_append, List.drop_left]

/-! ## Words -/

theorem isWordChar_of_start (h : isWordStart c = true) : isWordChar c = true := by
  simp only [isWordStart, isWordChar, Char.isAlphanum, Bool.or_eq_true] at h ⊢
  rcases h with h | h
  · exact .inl (.inl h)
  · exact .inr h

theorem isDigit_of_start (h : isWordStart c = true) : c.isDigit = false := by
  rw [Bool.eq_false_iff]
  intro hd
  rw [Char.isDigit_iff_toNat] at hd
  have h9 : '9'.toNat = 57 := rfl
  rw [isWordStart, Bool.or_eq_true] at h
  rcases h with h | h
  · have hletter : (c.isUpper || c.isLower) = true := h
    rcases Bool.or_eq_true_iff.mp hletter with hupper | hlower
    · have hbounds : 'A'.val ≤ c.val ∧ c.val ≤ 'Z'.val := of_decide_eq_true hupper
      have hlo : 65 ≤ c.toNat := hbounds.1
      omega
    · have hbounds : (decide ('a'.val ≤ c.val) && decide (c.val ≤ 'z'.val)) = true := hlower
      have hlo : 97 ≤ c.toNat := of_decide_eq_true (Bool.and_eq_true_iff.mp hbounds).1
      omega
  · rw [beq_iff_eq.mp h] at hd
    exact absurd hd (by decide)

theorem symbols_no_wordStart :
    ∀ s ∈ symbols, s.toList.head?.any isWordStart = false := by decide

theorem symbolAt?_wordStart (h : isWordStart c = true) : symbolAt? (c :: rest) = none := by
  unfold symbolAt?
  rw [List.find?_eq_none]
  intro s hs hp
  have hno := symbols_no_wordStart s hs
  obtain ⟨after, hafter⟩ := List.isPrefixOf_iff_prefix.mp hp
  cases hcs : s.toList with
  | nil =>
    have hplain := symbols_startPlain s hs
    rw [hcs] at hplain
    cases hplain
  | cons d ds =>
    rw [hcs, List.cons_append, List.cons.injEq] at hafter
    rw [hcs, hafter.1] at hno
    simp [h] at hno

theorem scan_of_wordStart (h : isWordStart c = true) :
    scan (c :: rest) = some (scanWord (c :: rest)) := by
  have hd := isDigit_of_start h
  have hminus : c ≠ '-' := by rintro rfl; cases h
  have hquote : c ≠ '\'' := by rintro rfl; cases h
  have hdouble : c ≠ '"' := by rintro rfl; cases h
  have hnumber : startsNumber (c :: rest) = false := by
    cases rest with
    | nil => exact hd
    | cons d rest => simp [startsNumber, hd, hminus]
  rw [scan_of_plain hnumber hquote hdouble, symbolAt?_wordStart h]
  dsimp only
  rw [if_pos h]

/-- A word is split into its run and its mark, and what is left. -/
theorem exists_wordAt (h : isWordStart c = true) :
    ∃ s run mark rest,
      scanWord (c :: cs) = ⟨.token (classify s).1 s (classify s).2, s.toList, rest⟩ ∧
      s.toList = run ++ mark ∧ WordAt run mark rest := by
  have hc := isWordChar_of_start h
  have happ := wordMark_append ((c :: cs).dropWhile isWordChar)
  have hhead := List.head?_dropWhile_not isWordChar (c :: cs)
  refine ⟨String.ofList ((c :: cs).takeWhile isWordChar ++
      (wordMark ((c :: cs).dropWhile isWordChar)).1), (c :: cs).takeWhile isWordChar,
    (wordMark ((c :: cs).dropWhile isWordChar)).1, (wordMark ((c :: cs).dropWhile isWordChar)).2,
    by rw [String.toList_ofList]; rfl, String.toList_ofList,
    ⟨c, cs.takeWhile isWordChar, by rw [List.takeWhile_cons, if_pos hc], h⟩,
    fun d hd => List.all_eq_true.mp List.all_takeWhile d hd, fun d hd => ?_, ?_⟩
  · rw [happ] at hd
    rw [hd] at hhead
    exact hhead
  · cases (c :: cs).dropWhile isWordChar with
    | nil => exact .inr (.inr ⟨rfl, fun d hd => nomatch hd⟩)
    | cons d ds =>
      by_cases hq : d = '?'
      · exact .inl (by simp [wordMark, hq])
      · by_cases he : d = '!'
        · exact .inr (.inl (by simp [wordMark, he]))
        · refine .inr (.inr ?_)
          simp [wordMark, hq, he]

theorem WordAt.wordMark_eq {run mark : List Char} (h : WordAt run mark rest) :
    wordMark (mark ++ rest) = (mark, rest) := by
  rcases h.marked with rfl | rfl | ⟨rfl, hrest⟩
  · rfl
  · rfl
  · cases rest with
    | nil => rfl
    | cons c rest =>
      obtain ⟨hq, he⟩ := hrest c rfl
      simp [wordMark, hq, he]

/-- **A word is scanned as it stands in the text.** -/
theorem WordAt.scan {run mark : List Char} {s : String} (hs : s.toList = run ++ mark)
    (h : WordAt run mark rest) :
    scan (s.toList ++ rest) =
      some ⟨.token (classify s).1 s (classify s).2, s.toList, rest⟩ := by
  obtain ⟨c, cs, hrun, hc⟩ := h.start
  obtain ⟨htake, hdrop⟩ := run_append h.chars h.longest
  have hscan : Lexer.scan (s.toList ++ rest) = some (scanWord (s.toList ++ rest)) := by
    rw [hs, hrun]
    exact scan_of_wordStart hc
  rw [hscan, scanWord, hs, List.append_assoc, htake, hdrop, h.wordMark_eq]
  dsimp only
  rw [← hs, String.ofList_toList]

/-! ## All rules -/

theorem TokenAt.scan (h : TokenAt kind text value taken rest) :
    scan (taken ++ rest) = some ⟨.token kind text value, taken, rest⟩ := by
  have hquotes : ∀ cs, startsNumber ('\'' :: cs) = false ∧ startsNumber ('"' :: cs) = false := by
    intro cs
    cases cs <;> exact ⟨rfl, rfl⟩
  cases h with
  | number h hv =>
    have hscan := h.scan
    rw [NumberLead.reading, hv] at hscan
    rw [List.append_assoc]
    exact hscan
  | char h =>
    rw [List.cons_append, List.append_assoc, List.singleton_append, Lexer.scan, (hquotes _).1,
      if_neg Bool.false_ne_true, if_pos rfl, charBody_of_decodes h]
    rfl
  | string h =>
    rw [List.cons_append, List.append_assoc, List.singleton_append, Lexer.scan, (hquotes _).2,
      if_neg Bool.false_ne_true, if_neg (by decide), if_pos rfl, scanString,
      stringBody_of_decodes h]
    dsimp only [Lexeme.consTaken]
    rw [String.ofList_toList]
  | symbol h => exact h.scan
  | word hs h => exact h.scan hs
  | @unexpected c rest h =>
    have hnone : symbolAt? (c :: rest) = none := by
      unfold symbolAt?
      rw [List.find?_eq_none]
      exact fun s hs hp => h.symbol s hs (List.isPrefixOf_iff_prefix.mp hp)
    rw [List.singleton_append, scan_of_plain h.number h.char h.string, hnone]
    dsimp only
    rw [if_neg (by rw [h.word]; exact Bool.false_ne_true)]

theorem tokenAt_of_number (hnumber : startsNumber cs = true)
    (h : scan cs = some ⟨.token kind text value, taken, rest⟩) :
    TokenAt kind text value taken rest := by
  obtain ⟨lead, body, rest', hat⟩ := exists_numberAt hnumber
  rw [hat.scan, Option.some.injEq] at h
  obtain ⟨hreading, rfl, rfl⟩ := Lexeme.mk.inj h
  rw [NumberLead.reading] at hreading
  split at hreading
  · rename_i hv
    cases hreading
    rw [hat.split] at hat
    exact .number hat hv
  · cases hreading

theorem symbolAt_of_symbolAt? {s : String} (hnumber : startsNumber cs = false)
    (h : symbolAt? cs = some s) : SymbolAt s (cs.drop s.toList.length) := by
  have hsplit := symbolAt?_append h
  refine ⟨List.mem_of_find?_eq_some h, fun t ht hp => ?_, ?_⟩
  · rw [hsplit] at hp
    exact symbolAt?_longest ht hp h
  · rintro rfl d hd
    rw [Bool.eq_false_iff]
    intro hdigit
    have hminus : cs = '-' :: d :: _ :=
      hsplit.symm.trans (congrArg ("-".toList ++ ·) (List.eq_cons_of_mem_head? hd))
    rw [startsNumber_iff.mpr ⟨d, _, hdigit, .inr hminus⟩] at hnumber
    cases hnumber

theorem tokenAt_of_scan (h : scan cs = some ⟨.token kind text value, taken, rest⟩) :
    TokenAt kind text value taken rest := by
  cases cs with
  | nil => cases h
  | cons c cs =>
    by_cases hnumber : startsNumber (c :: cs) = true
    · exact tokenAt_of_number hnumber h
    rw [Bool.not_eq_true] at hnumber
    by_cases hchar : c = '\''
    · subst hchar
      rw [scan, hnumber, if_neg Bool.false_ne_true, if_pos rfl, Option.some.injEq] at h
      obtain ⟨hreading, rfl, rfl⟩ := Lexeme.mk.inj h
      exact charBody_tokenAt (by rw [← hreading])
    by_cases hstring : c = '"'
    · subst hstring
      rw [scan, hnumber, if_neg Bool.false_ne_true, if_neg hchar, if_pos rfl,
        Option.some.injEq] at h
      obtain ⟨hreading, rfl, rfl⟩ := Lexeme.mk.inj h
      exact scanString_tokenAt (by rw [← hreading])
    rw [scan_of_plain hnumber hchar hstring] at h
    cases hsymbol : symbolAt? (c :: cs) with
    | some s =>
      rw [hsymbol] at h
      cases h
      exact .symbol (symbolAt_of_symbolAt? hnumber hsymbol)
    | none =>
      rw [hsymbol] at h
      dsimp only at h
      split at h
      · rename_i hword
        obtain ⟨s, run, mark, rest', hscan, hs, hat⟩ := @exists_wordAt cs c hword
        rw [hscan] at h
        cases h
        exact .word hs hat
      · rename_i hword
        cases h
        refine .unexpected ⟨hnumber, hchar, hstring, fun s hs hp => ?_, Bool.not_eq_true _ ▸ hword⟩
        unfold symbolAt? at hsymbol
        exact List.find?_eq_none.mp hsymbol s hs (List.isPrefixOf_iff_prefix.mpr hp)

/-- **The tokens that are scanned are those that the rules give.** -/
theorem scan_eq_token_iff :
    scan (taken ++ rest) = some ⟨.token kind text value, taken, rest⟩ ↔
      TokenAt kind text value taken rest :=
  ⟨tokenAt_of_scan, TokenAt.scan⟩

/-- Two rules do not apply to one text, and one not in two ways. -/
theorem TokenAt.unique {kind' : TokenKind} {text' : String} {value' : UInt64}
    {taken' rest' : List Char} (h : TokenAt kind text value taken rest)
    (h' : TokenAt kind' text' value' taken' rest') (happ : taken ++ rest = taken' ++ rest') :
    kind = kind' ∧ text = text' ∧ value = value' ∧ taken = taken' ∧ rest = rest' := by
  have hscan := h.scan
  rw [happ, h'.scan] at hscan
  cases hscan
  exact ⟨rfl, rfl, rfl, rfl, rfl⟩

end

end Lexer

end FrontEnd
