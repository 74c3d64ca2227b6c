import FrontEnd.Proofs.Lexing
import FrontEnd.Proofs.LexerStates

/-!
# Braces of a text and braces of its tokens

How deep in braces a text has led can be read off its characters, if those between quotes do not
count. It is how many more opening than closing braces there are among its tokens.

* `Mode` says whether the next character stands between quotes; `Mode.after` and `Mode.depth` read a
  text from a mode on.
* `TokenAt.shape`: a lexeme is a literal in quotes, a symbol, or has neither quotes nor braces nor
  blanks.
* `LexesTo` is lexing as a relation; unlike `Lexes` it leaves no blank to a lexeme.
  `lexesTo_of_lex`, `LexesTo.lex_eq`: it is what the lexer does.
* `LexesTo.depth_eq`: the braces of the characters are those of the tokens.
* `LexesTo.split`: where a blank stands outside of quotes, the tokens of a text are those of its two
  parts.
-/

set_option autoImplicit false

namespace FrontEnd

open Lexer Text

/-! ## Quotes and braces in a text -/

/-- A place in a text: outside of quotes, between quotes, or behind a backslash between them. -/
inductive Mode where
  | code
  | quoted (quote : Char)
  | escaped (quote : Char)
  deriving DecidableEq, Repr

namespace Mode

/-- The mode behind a character. -/
def next (m : Mode) (c : Char) : Mode :=
  match m with
  | code => if c = '"' ∨ c = '\'' then quoted c else code
  | quoted quote => if c = quote then code else if c = '\\' then escaped quote else quoted quote
  | escaped quote => quoted quote

/-- The mode behind a text. -/
def after (m : Mode) (cs : List Char) : Mode := cs.foldl next m

/-- What a character adds to the depth in braces. -/
def brace (m : Mode) (c : Char) : Int :=
  if m = code then if c = '\x7b' then 1 else if c = '\x7d' then -1 else 0 else 0

/-- How much deeper in braces a text leads. -/
def depth : Mode → List Char → Int
  | _, [] => 0
  | m, c :: cs => m.brace c + (m.next c).depth cs

@[simp] theorem after_nil (m : Mode) : m.after [] = m := rfl

@[simp] theorem after_cons (m : Mode) (c : Char) (cs : List Char) :
    m.after (c :: cs) = (m.next c).after cs := rfl

@[simp] theorem after_append (m : Mode) (cs ds : List Char) :
    m.after (cs ++ ds) = (m.after cs).after ds := List.foldl_append

@[simp] theorem depth_nil (m : Mode) : m.depth [] = 0 := rfl

@[simp] theorem depth_cons (m : Mode) (c : Char) (cs : List Char) :
    m.depth (c :: cs) = m.brace c + (m.next c).depth cs := rfl

@[simp] theorem depth_append (m : Mode) (cs ds : List Char) :
    m.depth (cs ++ ds) = m.depth cs + (m.after cs).depth ds := by
  induction cs generalizing m with
  | nil => simp
  | cons c cs ih => simp [ih, Int.add_assoc]

end Mode

/-- The character is no quote and no brace. -/
def isInert (c : Char) : Bool := c != '"' && c != '\'' && c != '\x7b' && c != '\x7d'

/-- The text starts and ends outside of quotes. -/
def Outside (cs : List Char) : Prop := Mode.code.after cs = .code

section

variable {cs ds : List Char}

theorem outside_of_inert (h : ∀ c ∈ cs, isInert c = true) :
    Outside cs ∧ Mode.code.depth cs = 0 := by
  induction cs with
  | nil => exact ⟨rfl, rfl⟩
  | cons c cs ih =>
    obtain ⟨houtside, hdepth⟩ := ih fun d hd => h d (List.mem_cons_of_mem c hd)
    have hc := h c List.mem_cons_self
    simp only [isInert, Bool.and_eq_true, bne_iff_ne] at hc
    obtain ⟨⟨⟨hdouble, hsingle⟩, hopen⟩, hclose⟩ := hc
    have hnext : Mode.code.next c = .code := if_neg (not_or.mpr ⟨hdouble, hsingle⟩)
    have hbrace : Mode.code.brace c = 0 := by
      rw [Mode.brace, if_pos rfl, if_neg hopen, if_neg hclose]
    refine ⟨?_, ?_⟩
    · rw [Outside, Mode.after_cons, hnext]
      exact houtside
    · rw [Mode.depth_cons, hnext, hbrace, hdepth, Int.zero_add]

theorem isInert_of_blank {c : Char} (h : isBlank c = true) : isInert c = true := by
  simp only [isBlank, Bool.or_eq_true, beq_iff_eq] at h
  rcases h with ((((rfl | rfl) | rfl) | rfl) | rfl) | rfl
  all_goals rfl

theorem Outside.append (hc : Outside cs) (hd : Outside ds) : Outside (cs ++ ds) := by
  rw [Outside, Mode.after_append, hc, hd]

theorem Outside.depth_append (hc : Outside cs) :
    Mode.code.depth (cs ++ ds) = Mode.code.depth cs + Mode.code.depth ds := by
  rw [Mode.depth_append, hc]

theorem Outside.of_append (hc : Outside cs) (h : Outside (cs ++ ds)) : Outside ds := by
  rwa [Outside, Mode.after_append, hc] at h

/-! ### Literals in quotes -/

/-- A body of a literal and the quote behind it: it stays between quotes up to there. -/
theorem Decodes.after_body {quote : Char} {body text : List Char} (h : Decodes quote body text)
    (hquote : quote ≠ '\\') :
    (Mode.quoted quote).after (body ++ [quote]) = .code ∧
      (Mode.quoted quote).depth (body ++ [quote]) = 0 ∧
      ∀ front back, body ++ [quote] = front ++ back → back ≠ [] →
        (Mode.quoted quote).after front ≠ .code := by
  induction h with
  | nil =>
    refine ⟨by simp [Mode.next], by simp [Mode.brace], fun front back hsplit hback => ?_⟩
    cases front with
    | nil => simp
    | cons c front =>
      obtain ⟨-, hnil⟩ := List.cons.inj hsplit
      exact absurd (List.append_eq_nil_iff.mp hnil.symm).2 hback
  | @plain c body text hq hb _ ih =>
    obtain ⟨hafter, hdepth, hinner⟩ := ih
    have hnext : (Mode.quoted quote).next c = .quoted quote := by
      rw [Mode.next, if_neg hq, if_neg hb]
    refine ⟨?_, ?_, fun front back hsplit hback => ?_⟩
    · rw [List.cons_append, Mode.after_cons, hnext, hafter]
    · rw [List.cons_append, Mode.depth_cons, hnext, hdepth, Mode.brace, if_neg (by simp),
        Int.zero_add]
    · cases front with
      | nil => simp
      | cons d front =>
        obtain ⟨rfl, htail⟩ := List.cons.inj hsplit
        rw [Mode.after_cons, hnext]
        exact hinner front back htail hback
  | @escaped c d body text _ _ ih =>
    obtain ⟨hafter, hdepth, hinner⟩ := ih
    have hnext : (Mode.quoted quote).next '\\' = .escaped quote := by
      rw [Mode.next, if_neg (Ne.symm hquote), if_pos rfl]
    refine ⟨?_, ?_, fun front back hsplit hback => ?_⟩
    · rw [List.cons_append, List.cons_append, Mode.after_cons, hnext, Mode.after_cons, Mode.next,
        hafter]
    · rw [List.cons_append, List.cons_append, Mode.depth_cons, hnext, Mode.depth_cons, Mode.next,
        hdepth]
      simp [Mode.brace]
    · match front with
      | [] => simp
      | [e] =>
        obtain ⟨rfl, -⟩ := List.cons.inj hsplit
        rw [Mode.after_cons, hnext, Mode.after_nil]
        simp
      | e :: e' :: front =>
        simp only [List.cons_append, List.cons.injEq] at hsplit
        obtain ⟨rfl, rfl, htail⟩ := hsplit
        rw [Mode.after_cons, hnext, Mode.after_cons, Mode.next]
        exact hinner front back htail hback

end

/-! ## Lexemes -/

/-- What a token adds to the depth in braces. -/
def Token.brace (t : Token) : Int :=
  if t.is .symbol "\x7b" then 1 else if t.is .symbol "\x7d" then -1 else 0

namespace Lexer

/-- The ways a lexeme can be written: between quotes, as a symbol, or with characters that are no
quotes, braces or blanks. -/
inductive Shape (kind : TokenKind) (text : String) (taken : List Char) : Prop where
  | quoted (quote : Char) (body decoded : List Char) (hquote : quote = '"' ∨ quote = '\'')
      (htaken : taken = quote :: (body ++ [quote])) (h : Decodes quote body decoded)
      (hkind : kind ≠ .symbol)
  | symbol (hkind : kind = .symbol) (hmem : text ∈ symbols) (htaken : taken = text.toList)
  | inert (h : ∀ c ∈ taken, isInert c = true ∧ isBlank c = false) (hkind : kind ≠ .symbol)

section

variable {kind : TokenKind} {text : String} {value : UInt64} {taken rest after : List Char}

theorem inert_of_wordChar {c : Char} (h : isWordChar c = true) :
    isInert c = true ∧ isBlank c = false := by
  refine ⟨?_, isBlank_of_wordChar h⟩
  simp only [isInert, Bool.and_eq_true, bne_iff_ne]
  refine ⟨⟨⟨?_, ?_⟩, ?_⟩, ?_⟩
  all_goals
    rintro rfl
    cases h

theorem inert_of_digit {radix : Nat} {c : Char} (h : IsDigitOf radix c ∨ c = '_') :
    isInert c = true ∧ isBlank c = false := by
  rcases h with (hdigit | ⟨-, hletter⟩) | rfl
  · exact inert_of_wordChar (by simp [isWordChar, Char.isAlphanum, hdigit])
  · refine ⟨?_, ?_⟩
    · simp only [isInert, Bool.and_eq_true, bne_iff_ne]
      refine ⟨⟨⟨?_, ?_⟩, ?_⟩, ?_⟩
      all_goals
        rintro rfl
        revert hletter
        decide
    · rw [Bool.eq_false_iff]
      intro hblank
      simp only [isBlank, Bool.or_eq_true, beq_iff_eq] at hblank
      rcases hblank with ((((rfl | rfl) | rfl) | rfl) | rfl) | rfl
      all_goals
        revert hletter
        decide
  · exact ⟨rfl, rfl⟩

theorem NumberAt.inert {cs body : List Char} {lead : NumberLead} (h : NumberAt cs lead body rest) :
    ∀ c ∈ lead.taken ++ body, isInert c = true ∧ isBlank c = false := by
  intro c hc
  rcases List.mem_append.mp hc with hc | hc
  · have hlead := h.introduced
    generalize body ++ rest = after at hlead
    cases hlead with
    | hexadecimal hx =>
      simp only [List.mem_cons, List.not_mem_nil, or_false] at hc
      rcases hc with rfl | rfl
      · exact ⟨rfl, rfl⟩
      · rcases hx with rfl | rfl <;> exact ⟨rfl, rfl⟩
    | negative hd =>
      rw [List.mem_singleton.mp hc]
      exact ⟨rfl, rfl⟩
    | decimal hd hx => cases hc
  · exact inert_of_digit (h.digits c hc)

theorem WordAt.inert {run mark : List Char} (h : WordAt run mark rest) :
    ∀ c ∈ run ++ mark, isInert c = true ∧ isBlank c = false := by
  intro c hc
  rcases List.mem_append.mp hc with hc | hc
  · exact inert_of_wordChar (h.chars c hc)
  · rcases h.marked with rfl | rfl | ⟨rfl, -⟩
    · rw [List.mem_singleton.mp hc]
      exact ⟨rfl, rfl⟩
    · rw [List.mem_singleton.mp hc]
      exact ⟨rfl, rfl⟩
    · cases hc

theorem StartsNone.inert {c : Char} (h : StartsNone c rest) : isInert c = true := by
  have hbrace (s : String) (d : Char) (hs : s ∈ symbols) (hd : s.toList = [d]) : c ≠ d := by
    rintro rfl
    exact h.symbol s hs ⟨rest, by rw [hd]; rfl⟩
  simp only [isInert, Bool.and_eq_true, bne_iff_ne]
  exact ⟨⟨⟨h.string, h.char⟩, hbrace "\x7b" _ (by decide) rfl⟩, hbrace "\x7d" _ (by decide) rfl⟩

theorem TokenAt.shape (h : TokenAt kind text value taken rest) (hn : NoBlank (taken ++ rest)) :
    Shape kind text taken := by
  cases h with
  | number h _ => exact .inert h.inert (by decide)
  | char h => exact .quoted _ _ _ (.inr rfl) rfl h (by decide)
  | string h => exact .quoted _ _ _ (.inl rfl) rfl h (by decide)
  | symbol h => exact .symbol rfl h.mem rfl
  | word hs h =>
    refine .inert (hs ▸ h.inert) ?_
    rcases classify_kind text with hkind | hkind | hkind
    all_goals
      rw [hkind]
      decide
  | @unexpected c _ h =>
    refine .inert (fun d hd => ?_) (by decide)
    rw [List.mem_singleton.mp hd]
    exact ⟨h.inert, hn c rfl⟩

/-- The only symbol that starts with a brace is the brace. -/
theorem symbols_brace : ∀ s ∈ symbols, Mode.code.after s.toList = .code ∧
    Mode.code.depth s.toList = (if s = "\x7b" then 1 else if s = "\x7d" then -1 else 0) ∧
    (s.toList.head? = some '\x7d' ↔ s = "\x7d") := by decide

/-- A lexeme leads out of the quotes that it leads into, and as deep in braces as its token does. -/
theorem Shape.outside (h : Shape kind text taken) (span : Span) :
    Outside taken ∧ Mode.code.depth taken = Token.brace ⟨kind, text, value, span⟩ := by
  have hzero (hkind : kind ≠ .symbol) : Token.brace ⟨kind, text, value, span⟩ = 0 := by
    have hno (s : String) : ¬Token.is ⟨kind, text, value, span⟩ .symbol s = true :=
      fun his => hkind (Token.is_iff.mp his).1
    rw [Token.brace, if_neg (hno _), if_neg (hno _)]
  cases h with
  | quoted quote body decoded hquote htaken h hkind =>
    have hnext : Mode.code.next quote = .quoted quote := if_pos hquote
    have hslash : quote ≠ '\\' := by rcases hquote with rfl | rfl <;> decide
    have hbrace : Mode.code.brace quote = 0 := by rcases hquote with rfl | rfl <;> rfl
    obtain ⟨hafter, hdepth, -⟩ := h.after_body hslash
    rw [hzero hkind, htaken]
    refine ⟨?_, ?_⟩
    · rw [Outside, Mode.after_cons, hnext, hafter]
    · rw [Mode.depth_cons, hnext, hdepth, hbrace, Int.zero_add]
  | symbol hkind hmem htaken =>
    obtain ⟨hafter, hdepth, -⟩ := symbols_brace text hmem
    rw [htaken]
    refine ⟨hafter, hdepth.trans ?_⟩
    simp only [Token.brace, Token.is_iff, hkind, true_and]
  | inert h hkind =>
    rw [hzero hkind]
    exact outside_of_inert fun c hc => (h c hc).1

/-- No blank stands inside a lexeme, except between quotes. -/
theorem Shape.not_blank {front back : List Char} (h : Shape kind text (front ++ back))
    (hfront : Outside front) (hback : back ≠ []) :
    (∀ c ∈ front.getLast?, isBlank c = false) ∧ ∀ c ∈ back.head?, isBlank c = false := by
  have hall (hno : ∀ c ∈ front ++ back, isBlank c = false) :
      (∀ c ∈ front.getLast?, isBlank c = false) ∧ ∀ c ∈ back.head?, isBlank c = false :=
    ⟨fun c hc => hno c (List.mem_append_left _ (List.mem_of_getLast? hc)),
      fun c hc => hno c (List.mem_append_right _ (List.mem_of_head? hc))⟩
  cases h with
  | quoted quote body decoded hquote htaken h hkind =>
    cases front with
    | nil =>
      refine ⟨fun c hc => (nomatch hc), fun c hc => ?_⟩
      rw [List.nil_append] at htaken
      rw [htaken] at hc
      obtain rfl : quote = c := Option.some.inj hc
      rcases hquote with rfl | rfl <;> rfl
    | cons c front =>
      obtain ⟨rfl, hsplit⟩ := List.cons.inj htaken
      have hslash : c ≠ '\\' := by rcases hquote with rfl | rfl <;> decide
      have hnext : Mode.code.next c = .quoted c := if_pos hquote
      rw [Outside, Mode.after_cons, hnext] at hfront
      exact absurd hfront ((h.after_body hslash).2.2 front back hsplit.symm hback)
  | symbol hkind hmem htaken =>
    refine hall fun c hc => ?_
    have hno := List.all_eq_true.mp (symbols_noBlank text hmem) c (htaken ▸ hc)
    simpa using hno
  | inert h hkind => exact hall fun c hc => (h c hc).2

/-- A lexeme starts with a closing brace exactly if its token is one. -/
theorem Shape.closes_iff {c : Char} {cs : List Char} (h : Shape kind text (c :: cs)) (span : Span) :
    Token.is ⟨kind, text, value, span⟩ .symbol "\x7d" = true ↔ c = '\x7d' := by
  rw [Token.is_iff]
  cases h with
  | quoted quote body decoded hquote htaken h hkind =>
    obtain ⟨rfl, -⟩ := List.cons.inj htaken
    refine ⟨fun his => absurd his.1 hkind, ?_⟩
    rcases hquote with rfl | rfl <;> exact fun h => absurd h (by decide)
  | symbol hkind hmem htaken =>
    obtain ⟨-, -, hhead⟩ := symbols_brace text hmem
    rw [← htaken, List.head?_cons, Option.some.injEq] at hhead
    exact ⟨fun his => hhead.mpr his.2, fun hc => ⟨hkind, hhead.mp hc⟩⟩
  | inert h hkind =>
    refine ⟨fun his => absurd his.1 hkind, ?_⟩
    rintro rfl
    exact absurd (h _ List.mem_cons_self).1 (by decide)

/-! ### A shorter text behind a lexeme -/

theorem NumberAt.shorten {lead : NumberLead} {body : List Char}
    (h : NumberAt (lead.taken ++ (body ++ (rest ++ after))) lead body (rest ++ after)) :
    NumberAt (lead.taken ++ (body ++ rest)) lead body rest := by
  have hhead : ∀ {cs : List Char}, ∀ c ∈ (cs ++ rest).head?, c ∈ (cs ++ (rest ++ after)).head? := by
    intro cs c hc
    rw [← List.append_assoc]
    exact List.mem_head?_append_of_mem_head? hc
  refine ⟨rfl, ?_, h.digits, fun c hc => h.longest c (@hhead [] c hc)⟩
  have hdigit := h.exists_digit
  have hlead := h.introduced
  generalize hsplit : body ++ (rest ++ after) = text at hlead
  cases hlead with
  | hexadecimal hx => exact .hexadecimal hx
  | negative hd =>
    obtain ⟨-, d, ds, rfl, hd⟩ := hdigit.resolve_left (by decide)
    exact .negative hd
  | decimal hd hx =>
    obtain ⟨-, d, ds, rfl, hd⟩ := hdigit.resolve_left (by decide)
    obtain ⟨rfl, rfl⟩ := List.cons.inj hsplit
    exact .decimal hd fun hzero c hc => hx hzero c (hhead c hc)

/-- **A rule that applies in a text applies where the text is cut off behind the lexeme.** -/
theorem TokenAt.shorten (h : TokenAt kind text value taken (rest ++ after)) :
    TokenAt kind text value taken rest := by
  have hhead : ∀ c ∈ rest.head?, c ∈ (rest ++ after).head? :=
    fun c hc => List.mem_head?_append_of_mem_head? hc
  have hlonger {cs : List Char} : cs ++ rest <+: cs ++ (rest ++ after) :=
    ⟨after, List.append_assoc _ _ _⟩
  cases h with
  | number h hv => exact .number h.shorten hv
  | char h => exact .char h
  | string h => exact .string h
  | symbol h =>
    exact .symbol ⟨h.mem, fun t ht hp => h.longest t ht (hp.trans hlonger),
      fun hminus c hc => h.minus hminus c (hhead c hc)⟩
  | @word s run mark _ hs h =>
    refine .word hs ⟨h.start, h.chars, fun c hc => h.longest c ?_, ?_⟩
    · rw [← List.append_assoc]
      exact List.mem_head?_append_of_mem_head? hc
    · rcases h.marked with hm | hm | ⟨hm, hrest⟩
      · exact .inl hm
      · exact .inr (.inl hm)
      · exact .inr (.inr ⟨hm, fun c hc => hrest c (hhead c hc)⟩)
  | @unexpected c _ h =>
    refine .unexpected ⟨?_, h.char, h.string, fun s hs hp => ?_, h.word⟩
    · have hnumber := h.number
      rw [Bool.eq_false_iff, ne_eq, startsNumber_iff] at hnumber ⊢
      rintro ⟨d, tail, hd, heq⟩
      refine hnumber ⟨d, tail ++ after, hd, ?_⟩
      rcases heq with heq | heq
      · exact .inl (congrArg (· ++ after) heq)
      · exact .inr (congrArg (· ++ after) heq)
    · exact h.symbol s hs (hp.trans (@hlonger [c]))

end

end Lexer

/-! ## The tokens of a text -/

/-- From an offset on, the characters are lexed to tokens: all blanks there are, then a lexeme, and
so on. -/
inductive LexesTo : Nat → List Char → List Token → Prop where
  | done {offset : Nat} {cs : List Char} (hb : Blanks cs) : LexesTo offset cs []
  | lexeme {offset : Nat} {gap taken rest : List Char} {kind : TokenKind} {text : String}
      {value : UInt64} {ts : List Token} (hb : Blanks gap) (hn : NoBlank (taken ++ rest))
      (hx : TokenAt kind text value taken rest)
      (h : LexesTo (offset + byteLength gap + byteLength taken) rest ts) :
      LexesTo offset (gap ++ (taken ++ rest))
        (tokenAt (offset + byteLength gap) kind text value taken :: ts)

/-- How many more braces the tokens open than they close. -/
def netBraces (ts : List Token) : Int :=
  ts.countP (fun t => t.is .symbol "\x7b") - ts.countP (fun t => t.is .symbol "\x7d")

theorem netBraces_cons (t : Token) (ts : List Token) :
    netBraces (t :: ts) = t.brace + netBraces ts := by
  have hone : t.is .symbol "\x7b" = true → t.is .symbol "\x7d" = false := by
    rw [Token.is_iff, Bool.eq_false_iff, ne_eq, Token.is_iff]
    rintro ⟨-, hopen⟩ ⟨-, hclose⟩
    rw [hopen] at hclose
    exact absurd hclose (by decide)
  unfold netBraces Token.brace
  rw [List.countP_cons, List.countP_cons]
  cases hopen : t.is .symbol "\x7b" with
  | true =>
    rw [hone hopen]
    simp only [if_true, if_false, Bool.false_eq_true]
    omega
  | false =>
    cases t.is .symbol "\x7d" <;> simp only [if_true, if_false, Bool.false_eq_true] <;> omega

section

variable {source : String} {offset : Nat} {cs : List Char} {ts : List Token}

theorem lexAux_lexesTo :
    ∀ (fuel : Nat) (l l' : Lexer) (ts : List Token), l.rest.length < fuel →
      lexAux fuel l = (.ok ts, l') → LexesTo l.offset l.rest ts := by
  intro fuel
  induction fuel with
  | zero => intro l l' ts hf; omega
  | succ fuel ih =>
    intro l l' ts hf h
    rw [lexAux] at h
    rcases nextToken_cases l with ⟨hb, hcall⟩ | ⟨gap, x, hr, hg, hn, hx, hcall⟩
    · rw [hcall] at h
      dsimp only at h
      rw [if_pos (by rfl)] at h
      cases h
      exact .done hb
    · have hlt := scan_rest_lt hx
      have hlength := congrArg List.length hr
      rw [List.length_append] at hlength
      obtain ⟨reading, taken, rest⟩ := x
      rw [hcall] at h
      cases reading with
      | malformed problem => cases h
      | token kind text value =>
        dsimp only [Lexeme.answer] at h hx hn hr hlt hlength
        have hend : (tokenAt (l.offset + byteLength gap) kind text value taken).isEnd = false := by
          simp [Token.isEnd, tokenAt, scan_kind_ne hx]
        rw [hend, if_neg Bool.false_ne_true] at h
        split at h
        · rename_i us l₂ hus
          cases h
          rw [hr]
          exact .lexeme hg hn (tokenAt_of_scan hx) (ih _ _ _ (by dsimp only; omega) hus)
        · cases h

theorem lexesTo_of_lex (h : lex source = .ok ts) : LexesTo 0 source.toList ts := by
  unfold FrontEnd.lex Lexer.lex at h
  cases hlex : lexAux ((Lexer.ofSource source).rest.length + 1) (Lexer.ofSource source) with
  | mk r l' =>
    rw [hlex] at h
    cases h
    exact lexAux_lexesTo _ _ _ _ (Nat.lt_succ_self _) hlex

theorem LexesTo.lexAux_eq (h : LexesTo offset cs ts) :
    ∀ (l : Lexer) (fuel : Nat), l.offset = offset → l.rest = cs → cs.length < fuel →
      ∃ l', lexAux fuel l = (.ok ts, l') := by
  induction h with
  | done hb =>
    intro l fuel _ hr hf
    obtain ⟨fuel, rfl⟩ : ∃ n, fuel = n + 1 := ⟨fuel - 1, by omega⟩
    exact lexAux_blanks (hr ▸ hb) fuel
  | @lexeme offset gap taken rest kind text value ts hb hn hx _ ih =>
    intro l fuel ho hr hf
    obtain ⟨fuel, rfl⟩ : ∃ n, fuel = n + 1 := ⟨fuel - 1, by omega⟩
    have hscan := hx.scan
    have hlt := scan_rest_lt hscan
    rw [List.length_append] at hf
    obtain ⟨l', hrest⟩ := ih
      { l with offset := l.offset + byteLength gap + byteLength taken, rest := rest } fuel
      (by rw [ho]) rfl (by dsimp only at hlt; omega)
    exact ⟨l', ho ▸ lexAux_scan hr hb hn hscan (scan_kind_ne hscan) hrest⟩

/-- A text that is lexed to tokens by the relation is so by the lexer. -/
theorem LexesTo.lex_eq (h : LexesTo 0 cs ts) : lex (String.ofList cs) = .ok ts := by
  have hr : (Lexer.ofSource (String.ofList cs)).rest = cs := String.toList_ofList
  obtain ⟨l', hrun⟩ := h.lexAux_eq (Lexer.ofSource (String.ofList cs)) (cs.length + 1) rfl hr
    (Nat.lt_succ_self _)
  rw [FrontEnd.lex, Lexer.lex, hr, hrun]

/-- **The tokens of a text lead as deep in braces as its characters do**, and no token leaves a
quote open. -/
theorem LexesTo.depth_eq (h : LexesTo offset cs ts) :
    Outside cs ∧ Mode.code.depth cs = netBraces ts := by
  have hblanks {gap : List Char} (hb : Blanks gap) : Outside gap ∧ Mode.code.depth gap = 0 :=
    outside_of_inert fun c hc => isInert_of_blank (hb c hc)
  induction h with
  | done hb => exact hblanks hb
  | @lexeme offset gap taken rest kind text value ts hb hn hx _ ih =>
    obtain ⟨hgap, hgapDepth⟩ := hblanks hb
    obtain ⟨htaken, hdepth⟩ := @Shape.outside kind text value taken (hx.shape hn)
      (Span.ofRange (offset + byteLength gap) (offset + byteLength gap + byteLength taken))
    refine ⟨hgap.append (htaken.append ih.1), ?_⟩
    rw [hgap.depth_append, htaken.depth_append, hgapDepth, hdepth, ih.2, netBraces_cons,
      Int.zero_add]
    rfl

/-- **Where a blank stands outside of quotes, a text falls into two**: its tokens are those of the
part before and those of the part behind. -/
theorem LexesTo.split {front back : List Char} (h : LexesTo offset (front ++ back) ts)
    (houtside : Outside front)
    (hblank : (∀ c ∈ front.getLast?, isBlank c = true) ∨ ∀ c ∈ back.head?, isBlank c = true) :
    ∃ ts₁ ts₂, ts = ts₁ ++ ts₂ ∧ LexesTo offset front ts₁ ∧
      LexesTo (offset + byteLength front) back ts₂ := by
  generalize hcs : front ++ back = cs at h
  induction h generalizing front with
  | done hb =>
    subst hcs
    exact ⟨[], [], rfl, .done fun c hc => hb c (List.mem_append_left _ hc),
      .done fun c hc => hb c (List.mem_append_right _ hc)⟩
  | @lexeme offset gap taken rest kind text value ts hb hn hx hrest ih =>
    rcases List.append_eq_append_iff.mp hcs with ⟨gap', rfl, rfl⟩ | ⟨behind, rfl, hbehind⟩
    · -- the cut is in the blanks before the lexeme
      refine ⟨[], _, rfl, .done fun c hc => hb c (List.mem_append_left _ hc), ?_⟩
      rw [byteLength_append, ← Nat.add_assoc] at hrest ⊢
      exact .lexeme (fun c hc => hb c (List.mem_append_right _ hc)) hn hx hrest
    have hgap : Outside gap := (outside_of_inert fun c hc => isInert_of_blank (hb c hc)).1
    have hbehindOutside : Outside behind := hgap.of_append houtside
    have hshape := hx.shape hn
    -- the cut is behind the lexeme: the rest of the text is cut there
    have hlater (rest' : List Char) (hfront : behind = taken ++ rest')
        (hback : rest = rest' ++ back) :
        ∃ ts₁ ts₂, tokenAt (offset + byteLength gap) kind text value taken :: ts = ts₁ ++ ts₂ ∧
          LexesTo offset (gap ++ behind) ts₁ ∧
            LexesTo (offset + byteLength (gap ++ behind)) back ts₂ := by
      subst hfront hback
      have htaken : Outside taken := (@Shape.outside kind text value taken hshape Span.none).1
      have hlast : ∀ c ∈ rest'.getLast?, c ∈ (gap ++ (taken ++ rest')).getLast? := fun c hc =>
        List.mem_getLast?_append_of_mem_getLast? (List.mem_getLast?_append_of_mem_getLast? hc)
      have hn' : NoBlank (taken ++ rest') := by
        intro c hc
        have hhead : c ∈ ((taken ++ rest') ++ back).head? := List.mem_head?_append_of_mem_head? hc
        rw [List.append_assoc] at hhead
        exact hn c hhead
      obtain ⟨us₁, us₂, rfl, hfirst, hsecond⟩ := ih (htaken.of_append hbehindOutside)
        (hblank.imp_left fun h c hc => h c (hlast c hc)) rfl
      refine ⟨_, us₂, rfl, .lexeme hb hn' hx.shorten hfirst, ?_⟩
      rwa [byteLength_append, byteLength_append, ← Nat.add_assoc, ← Nat.add_assoc]
    rcases List.append_eq_append_iff.mp hbehind.symm with ⟨taken', rfl, rfl⟩ | ⟨rest', rfl, rfl⟩
    · by_cases hnil : taken' = []
      · subst hnil
        exact hlater [] (by rw [List.append_nil, List.append_nil]) rfl
      cases behind with
      | nil =>
        -- the cut is between the blanks and the lexeme
        refine ⟨[], _, rfl, .done (by rwa [List.append_nil]), ?_⟩
        have hnone : Blanks [] := fun c hc => nomatch hc
        rw [List.append_nil]
        exact .lexeme hnone hn hx hrest
      | cons c behind =>
        obtain ⟨hfront, hback⟩ := hshape.not_blank hbehindOutside hnil
        rcases hblank with hblank | hblank
        · have hd := List.getLast?_eq_some_getLast (List.cons_ne_nil c behind)
          have hyes := hblank _ (List.mem_getLast?_append_of_mem_getLast? hd)
          rw [hfront _ hd] at hyes
          cases hyes
        · obtain ⟨d, taken', rfl⟩ := List.exists_cons_of_ne_nil hnil
          have hyes := hblank d rfl
          rw [hback d rfl] at hyes
          cases hyes
    · exact hlater rest' rfl rfl

/-- The first token of a text closes a brace exactly if its first character that is no blank
does. -/
theorem LexesTo.first_closes {gap : List Char} {c : Char} (h : LexesTo offset (gap ++ c :: cs) ts)
    (hgap : Blanks gap) (hc : isBlank c = false) :
    ∃ t ts', ts = t :: ts' ∧ (t.is .symbol "\x7d" = true ↔ c = '\x7d') := by
  have hstart : NoBlank (c :: cs) := by
    intro d hd
    obtain rfl : c = d := Option.some.inj hd
    exact hc
  have hdrop : (gap ++ c :: cs).dropWhile isBlank = c :: cs := (run_append hgap hstart).2
  generalize hcs : gap ++ c :: cs = text at h hdrop
  cases h with
  | done hb =>
    have hyes := hb c (hcs ▸ List.mem_append_right _ List.mem_cons_self)
    rw [hc] at hyes
    cases hyes
  | @lexeme _ gap' taken rest kind text value ts hb hn hx hrest =>
    rw [(run_append hb hn).2] at hdrop
    obtain ⟨d, taken', rfl⟩ := List.exists_cons_of_ne_nil (scan_taken_ne_nil hx.scan)
    obtain ⟨rfl, -⟩ := List.cons.inj hdrop
    exact ⟨_, ts, rfl, (@Shape.closes_iff kind text value d taken' (hx.shape hn) _)⟩

end

end FrontEnd
