import FrontEnd.Proofs.LexemeRules

/-!
# The run of the lexer

Lexing as a relation between characters and tokens, lexeme after lexeme, with the offset of each.
Fuel and the state of the lexer leave no trace in it.

* `Token.WrittenAs` says with which characters a token is written; `scan_writtenAs` proves it of
  every lexeme. The body of a literal stands for its text as `Decodes` says.
* `nextToken_cases` says what one call gives, in whatever state.
* `Lexes` is the relation. `nextToken_ok` is one step of it, `lex_lexes` says that a source is lexed
  in this way, `Lexes.forall_mem` carries a property of lexemes to all tokens.
* `iterateAux_of_lexAux`: iteration answers the tokens that are lexed, then the end token.
-/

set_option autoImplicit false

namespace FrontEnd

open Lexer Text

/-! ## How tokens are written -/

/-- A quote, a body that stands for the text, and the same quote. -/
def IsQuoted (quote : Char) (text : String) (cs : List Char) : Prop :=
  ∃ body, cs = quote :: (body ++ [quote]) ∧ Decodes quote body text.toList

/-- The characters are those that the token is written with: its text, but for a literal in quotes.
The end of a source is written with none. -/
def Token.WrittenAs (t : Token) (cs : List Char) : Prop :=
  match t.kind with
  | .endOfFile => False
  | .string => IsQuoted '"' t.text cs
  | .char => IsQuoted '\'' t.text cs
  | _ => cs = t.text.toList

/-- A word is of one of three kinds. -/
theorem classify_kind (word : String) :
    (classify word).1 = .boolean ∨ (classify word).1 = .keyword ∨
      (classify word).1 = .identifier := by
  unfold classify
  split
  · exact .inl rfl
  split
  · exact .inl rfl
  split
  · exact .inr (.inl rfl)
  · exact .inr (.inr rfl)

/-- **A lexeme takes the characters that its token is written with.** -/
theorem scan_writtenAs {cs : List Char} {x : Lexeme} {kind : TokenKind} {text : String}
    {value : UInt64} (h : scan cs = some x) (hx : x.reading = .token kind text value)
    (span : Span) : Token.WrittenAs ⟨kind, text, value, span⟩ x.taken := by
  obtain ⟨reading, taken, rest⟩ := x
  cases hx
  cases tokenAt_of_scan h with
  | number _ _ => exact String.toList_ofList.symm
  | @char v body _ hd =>
    refine ⟨body, rfl, ?_⟩
    rw [Char.toString_eq_singleton, String.toList_singleton]
    exact hd
  | @string _ body _ hd => exact ⟨body, rfl, hd⟩
  | symbol _ => rfl
  | word _ _ =>
    unfold Token.WrittenAs
    rcases classify_kind text with hk | hk | hk
    all_goals
      dsimp only
      rw [hk]
  | @unexpected c _ _ =>
    show [c] = c.toString.toList
    rw [Char.toString_eq_singleton, String.toList_singleton]

/-- No lexeme is the end of a source. -/
theorem scan_kind_ne {cs taken rest : List Char} {kind : TokenKind} {text : String}
    {value : UInt64} (h : scan cs = some ⟨.token kind text value, taken, rest⟩) :
    kind ≠ .endOfFile := by
  rintro rfl
  exact scan_writtenAs h rfl Span.none

/-! ## The run of the lexer -/

theorem scan_rest_lt {cs : List Char} {x : Lexeme} (h : scan cs = some x) :
    x.rest.length < cs.length := by
  have hne := List.length_pos_iff.mpr (scan_taken_ne_nil h)
  rw [← scan_taken_append_rest h, List.length_append]
  omega

/-- The token of a lexeme that starts at an offset. -/
def tokenAt (offset : Nat) (kind : TokenKind) (text : String) (value : UInt64)
    (taken : List Char) : Token :=
  ⟨kind, text, value, Span.ofRange offset (offset + Text.byteLength taken)⟩

/-- Every character is one that separates tokens. -/
def Blanks (cs : List Char) : Prop := ∀ c ∈ cs, isBlank c = true

theorem blanks_takeWhile (cs : List Char) : Blanks (cs.takeWhile isBlank) :=
  fun c hc => List.all_eq_true.mp List.all_takeWhile c hc

/-- No blank stands here. -/
def NoBlank (cs : List Char) : Prop := ∀ c ∈ cs.head?, isBlank c = false

theorem isBlank_of_wordChar {c : Char} (h : isWordChar c = true) : isBlank c = false := by
  rw [Bool.eq_false_iff]
  intro hblank
  simp only [isBlank, Bool.or_eq_true, beq_iff_eq] at hblank
  rcases hblank with ((((rfl | rfl) | rfl) | rfl) | rfl) | rfl
  all_goals cases h

theorem noBlank_append {cs ds rest : List Char} {c : Char} (hcs : cs = c :: ds)
    (hc : isBlank c = false) : NoBlank (cs ++ rest) := by
  intro d hd
  rw [hcs] at hd
  obtain rfl : c = d := by simpa using hd
  exact hc

/-- Text is split at its first character that is no blank. -/
theorem exists_gap (cs : List Char) : ∃ gap rest, cs = gap ++ rest ∧ Blanks gap ∧ NoBlank rest := by
  refine ⟨cs.takeWhile isBlank, cs.dropWhile isBlank, List.takeWhile_append_dropWhile.symm,
    blanks_takeWhile cs, fun c hc => ?_⟩
  have hhead := List.head?_dropWhile_not isBlank cs
  rw [hc] at hhead
  exact hhead

/-- The answer for a lexeme that starts at an offset: its token, or what is wrong with it and the
part of the source that was read. -/
def Lexer.Lexeme.answer (x : Lexeme) (start : Nat) : Except LexError Token :=
  match x.reading with
  | .token kind text value => .ok (tokenAt start kind text value x.taken)
  | .malformed problem => .error ⟨problem, Span.ofRange start (start + byteLength x.taken)⟩

theorem nextToken_of_scan {l : Lexer} {gap cs : List Char} {x : Lexeme} (hr : l.rest = gap ++ cs)
    (hg : Blanks gap) (hn : NoBlank cs) (hx : scan cs = some x) :
    l.nextToken = (x.answer (l.offset + byteLength gap),
      { l with offset := l.offset + byteLength gap + byteLength x.taken, rest := x.rest }) := by
  obtain ⟨htake, hdrop⟩ := run_append hg hn
  unfold Lexer.nextToken Lexer.lexemeStart
  rw [hr, htake, hdrop, hx]
  rfl

theorem nextToken_of_blanks {l : Lexer} (hb : Blanks l.rest) :
    l.nextToken = (.ok (Token.endOfFile (l.offset + byteLength l.rest)),
      { l with offset := l.offset + byteLength l.rest, rest := [] }) := by
  obtain ⟨htake, hdrop⟩ := @run_append isBlank l.rest [] hb (fun c hc => nomatch hc)
  rw [List.append_nil] at htake hdrop
  unfold Lexer.nextToken Lexer.lexemeStart
  rw [htake, hdrop]
  rfl

/-- From an offset on, the characters are lexed to tokens: blanks, a lexeme, and so on, with blanks
at the end. -/
inductive Lexes : Nat → List Char → List Token → Prop where
  | done {offset : Nat} {cs : List Char} (hb : Blanks cs) : Lexes offset cs []
  | lexeme {offset : Nat} {gap taken rest : List Char} {kind : TokenKind} {text : String}
      {value : UInt64} {ts : List Token} (hb : Blanks gap)
      (hx : scan (taken ++ rest) = some ⟨.token kind text value, taken, rest⟩)
      (h : Lexes (offset + byteLength gap + byteLength taken) rest ts) :
      Lexes offset (gap ++ (taken ++ rest))
        (tokenAt (offset + byteLength gap) kind text value taken :: ts)

/-- **What one call gives in any state.** Blanks are passed. If nothing else is left, the end token is
answered; else the next lexeme is. -/
theorem nextToken_cases (l : Lexer) :
    (Blanks l.rest ∧ l.nextToken = (.ok (Token.endOfFile (l.offset + byteLength l.rest)),
      { l with offset := l.offset + byteLength l.rest, rest := [] })) ∨
    ∃ gap x, l.rest = gap ++ (x.taken ++ x.rest) ∧ Blanks gap ∧ NoBlank (x.taken ++ x.rest) ∧
      scan (x.taken ++ x.rest) = some x ∧
      l.nextToken = (x.answer (l.offset + byteLength gap),
        { l with offset := l.offset + byteLength gap + byteLength x.taken, rest := x.rest }) := by
  obtain ⟨gap, cs, hr, hg, hn⟩ := exists_gap l.rest
  by_cases hnil : cs = []
  · rw [hnil, List.append_nil] at hr
    rw [← hr] at hg
    exact .inl ⟨hg, nextToken_of_blanks hg⟩
  · obtain ⟨x, hx⟩ := Option.isSome_iff_exists.mp (scan_isSome hnil)
    have happ := scan_taken_append_rest hx
    refine .inr ⟨gap, x, ?_, hg, ?_, ?_, nextToken_of_scan hr hg hn hx⟩
    · rw [happ]
      exact hr
    · rw [happ]
      exact hn
    · rw [happ]
      exact hx

/-- What one call gives that does not fail: the end token, with nothing but blanks before it, or
the token of the next lexeme, which takes a character at least. -/
theorem nextToken_ok {l l' : Lexer} {t : Token} (h : l.nextToken = (.ok t, l')) :
    (Blanks l.rest ∧ t = Token.endOfFile (l.offset + byteLength l.rest)) ∨
      ∃ gap taken kind text value, Blanks gap ∧ l.rest = gap ++ (taken ++ l'.rest) ∧
        scan (taken ++ l'.rest) = some ⟨.token kind text value, taken, l'.rest⟩ ∧
        t = tokenAt (l.offset + byteLength gap) kind text value taken ∧ t.isEnd = false ∧
        l'.offset = l.offset + byteLength gap + byteLength taken ∧
        l'.rest.length < l.rest.length := by
  rcases nextToken_cases l with ⟨hb, hcall⟩ | ⟨gap, x, hr, hg, -, hx, hcall⟩
  · rw [hcall] at h
    cases h
    exact .inl ⟨hb, rfl⟩
  · rw [hcall] at h
    have hlt := scan_rest_lt hx
    have hle : (x.taken ++ x.rest).length ≤ l.rest.length := by
      rw [hr, @List.length_append _ gap]
      omega
    obtain ⟨reading, taken, rest⟩ := x
    cases reading with
    | malformed problem => cases h
    | token kind text value =>
      cases h
      exact .inr ⟨gap, taken, kind, text, value, hg, hr, hx, rfl,
        by simp [Token.isEnd, tokenAt, scan_kind_ne hx], rfl, Nat.lt_of_lt_of_le hlt hle⟩

/-- Nothing but blanks is lexed to no tokens. -/
theorem lexAux_blanks {l : Lexer} (hb : Blanks l.rest) (fuel : Nat) :
    ∃ l', lexAux (fuel + 1) l = (.ok [], l') := by
  rw [lexAux, nextToken_of_blanks hb]
  exact ⟨_, rfl⟩

/-- The next lexeme gives the first token. -/
theorem lexAux_scan {l l' : Lexer} {gap cs taken rest : List Char} {kind : TokenKind}
    {text : String} {value : UInt64} {ts : List Token} {fuel : Nat} (hr : l.rest = gap ++ cs)
    (hg : Blanks gap) (hn : NoBlank cs)
    (hx : scan cs = some ⟨.token kind text value, taken, rest⟩) (hk : kind ≠ .endOfFile)
    (h : lexAux fuel { l with
      offset := l.offset + byteLength gap + byteLength taken, rest := rest } = (.ok ts, l')) :
    lexAux (fuel + 1) l =
      (.ok (tokenAt (l.offset + byteLength gap) kind text value taken :: ts), l') := by
  have hend : (tokenAt (l.offset + byteLength gap) kind text value taken).isEnd = false := by
    simp [Token.isEnd, tokenAt, hk]
  rw [lexAux, nextToken_of_scan hr hg hn hx]
  dsimp only [Lexer.Lexeme.answer]
  rw [hend, if_neg Bool.false_ne_true, h]

theorem lexAux_lexes :
    ∀ (fuel : Nat) (l l' : Lexer) (ts : List Token), l.rest.length < fuel →
      lexAux fuel l = (.ok ts, l') → Lexes l.offset l.rest ts := by
  intro fuel
  induction fuel with
  | zero => intro l l' ts hf; omega
  | succ fuel ih =>
    intro l l' ts hf h
    rw [lexAux] at h
    split at h
    · cases h
    · rename_i t l₁ ht
      rcases nextToken_ok ht with ⟨hb, rfl⟩ |
        ⟨gap, taken, kind, text, value, hb, hr, hx, rfl, hend, ho, hlt⟩
      · rw [if_pos (by rfl)] at h
        cases h
        exact .done hb
      · rw [hend, if_neg Bool.false_ne_true] at h
        split at h
        · rename_i us l₂ hus
          cases h
          have hrun := ih l₁ l' us (by omega) hus
          rw [ho] at hrun
          rw [hr]
          exact .lexeme hb hx hrun
        · cases h

/-- **A source is lexed gap after gap and lexeme after lexeme.** -/
theorem lex_lexes {source : String} {ts : List Token} (h : lex source = .ok ts) :
    Lexes 0 source.toList ts := by
  unfold FrontEnd.lex Lexer.lex at h
  cases hlex : lexAux ((Lexer.ofSource source).rest.length + 1) (Lexer.ofSource source) with
  | mk r l' =>
    rw [hlex] at h
    cases h
    exact lexAux_lexes _ _ _ _ (Nat.lt_succ_self _) hlex

/-- What holds of the token of every lexeme holds of every token that is lexed. -/
theorem Lexes.forall_mem {P : Token → Prop} {offset : Nat} {cs : List Char} {ts : List Token}
    (hP : ∀ cs x kind text value span, scan cs = some x → x.reading = .token kind text value →
      P ⟨kind, text, value, span⟩) (h : Lexes offset cs ts) : ∀ t ∈ ts, P t := by
  induction h with
  | done _ => exact fun t ht => nomatch ht
  | lexeme _ hx _ ih =>
    intro t ht
    rcases List.mem_cons.mp ht with rfl | ht
    · exact hP _ _ _ _ _ _ hx rfl
    · exact ih t ht

theorem iterateAux_finished {l : Lexer} (h : l.finished = true) (fuel : Nat) :
    iterateAux fuel l = [] := by
  cases fuel with
  | zero => rfl
  | succ fuel => rw [iterateAux, Lexer.next, h]; rfl

/-- Iteration answers the tokens that are lexed, then the token that ends the source. -/
theorem iterateAux_of_lexAux :
    ∀ (fuel : Nat) (l l' : Lexer) (ts : List Token), l.rest.length < fuel → l.finished = false →
      lexAux fuel l = (.ok ts, l') →
      iterateAux fuel l =
        ts.map .ok ++ [.ok (Token.endOfFile (l.offset + byteLength l.rest))] := by
  intro fuel
  induction fuel with
  | zero => intro l l' ts hf; omega
  | succ fuel ih =>
    intro l l' ts hf hfin h
    rw [lexAux] at h
    rw [iterateAux, Lexer.next, hfin, if_neg Bool.false_ne_true]
    split at h
    · cases h
    · rename_i t l₁ ht
      have hfin₁ : l₁.finished = false := by
        have := l.nextToken_finished
        rw [ht] at this
        exact this.trans hfin
      rw [ht]
      dsimp only
      rcases nextToken_ok ht with ⟨hb, rfl⟩ |
        ⟨gap, taken, kind, text, value, hb, hr, hx, rfl, hend, ho, hlt⟩
      · rw [if_pos (by rfl)] at h
        cases h
        rw [iterateAux_finished (by rfl)]
        rfl
      · rw [hend, if_neg Bool.false_ne_true] at h
        split at h
        · rename_i us l₂ hus
          cases h
          have hstop : l₁.offset + byteLength l₁.rest = l.offset + byteLength l.rest := by
            rw [hr, ho, byteLength_append, byteLength_append]
            omega
          have hlast : isLast (.ok (tokenAt (l.offset + byteLength gap) kind text value taken)) =
              false := hend
          have hsame : ({ l₁ with finished := false } : Lexer) = l₁ := by
            rw [← hfin₁]
          rw [hlast, hsame, ih l₁ l' us (by omega) hfin₁ hus, hstop]
          rfl
        · cases h

end FrontEnd
