import FrontEnd.Proofs.Covering

/-!
# The states of a lexer

A lexer may be asked for a token as often as one likes, also after an error. What it has left is
then always the source from its offset on.

* `Lexer.StandsIn` is that invariant: one call keeps it (`Lexer.StandsIn.nextToken`), so every state
  that calls lead to has it (`Lexer.Reached.standsIn`).
* `Lexer.StandsIn.exists_split`: what the next call answers, by what is scanned at its place in the
  source.
* `lex_scanned`: the tokens of a source are what is scanned where they stand in it. `lex_of_scan`: a
  text that is scanned as a whole is lexed to one token.
-/

set_option autoImplicit false

namespace FrontEnd

open Lexer Text

/-- The lexer has come to its offset in the source. -/
def Lexer.StandsIn (l : Lexer) (source : String) : Prop :=
  ∃ front, source.toList = front ++ l.rest ∧ byteLength front = l.offset

/-- The states of a lexer of the source: calls for a token and steps of an iteration lead to it, in
any order and whatever they answered. -/
inductive Lexer.Reached (source : String) : Lexer → Prop where
  | start : Reached source (Lexer.ofSource source)
  | nextToken {l : Lexer} (h : Reached source l) : Reached source l.nextToken.2
  | next {l : Lexer} (h : Reached source l) : Reached source l.next.2

section

variable {source : String} {l l' : Lexer} {ts : List Token}

theorem standsIn_ofSource (source : String) : (Lexer.ofSource source).StandsIn source :=
  ⟨[], rfl, rfl⟩

/-- One call moves the lexer on in the source. -/
theorem Lexer.StandsIn.nextToken (h : l.StandsIn source) : l.nextToken.2.StandsIn source := by
  obtain ⟨front, hs, ho⟩ := h
  rcases nextToken_cases l with ⟨-, hcall⟩ | ⟨gap, x, hr, -, -, -, hcall⟩
  · rw [hcall]
    refine ⟨front ++ l.rest, ?_, ?_⟩
    · rw [List.append_nil]
      exact hs
    · rw [byteLength_append, ho]
  · rw [hr] at hs
    obtain ⟨-, hstop, hlength⟩ := source_splits hs
    rw [hcall]
    refine ⟨front ++ gap ++ x.taken, hstop, ?_⟩
    rw [hlength, ho]

/-- **Whatever was called, what a lexer has left is the source from its offset on.** -/
theorem Lexer.Reached.standsIn (h : Reached source l) : l.StandsIn source := by
  induction h with
  | start => exact standsIn_ofSource source
  | nextToken _ ih => exact ih.nextToken
  | @next l _ ih =>
    unfold Lexer.next
    split
    · exact ih
    · exact ih.nextToken

/-- How the source is split where the next lexeme of the lexer starts. -/
theorem Lexer.StandsIn.exists_split (h : l.StandsIn source) :
    ∃ front cs, source.toList = front ++ cs ∧ byteLength front = l.lexemeStart ∧ NoBlank cs ∧
      ∀ x, scan cs = some x → l.nextToken.1 = x.answer l.lexemeStart := by
  obtain ⟨front, hs, ho⟩ := h
  obtain ⟨gap, cs, hr, hg, hn⟩ := exists_gap l.rest
  have hstart : l.lexemeStart = l.offset + byteLength gap := by
    rw [Lexer.lexemeStart, hr, (run_append hg hn).1]
  refine ⟨front ++ gap, cs, ?_, ?_, hn, fun x hx => ?_⟩
  · rw [hs, hr, List.append_assoc]
  · rw [byteLength_append, ho, hstart]
  · rw [nextToken_of_scan hr hg hn hx, hstart]

end

/-! ## The tokens of a source -/

/-- The token is what is read between two parts of the source. -/
structure Token.ScannedIn (t : Token) (source : String) (front taken rest : List Char) : Prop where
  source : source.toList = front ++ (taken ++ rest)
  noBlank : NoBlank (taken ++ rest)
  scan : scan (taken ++ rest) = some ⟨.token t.kind t.text t.value, taken, rest⟩
  span : t.span = ⟨byteLength front, byteLength front + byteLength taken⟩

section

variable {source : String} {ts : List Token}

/-- The token that one call answers is what is read where it stands. -/
theorem Lexer.StandsIn.scanned {l l' : Lexer} {t : Token}
    (hsize : byteLength source.toList ≤ Span.limit) (hl : l.StandsIn source)
    (hread : l.nextToken = (.ok t, l')) (hend : t.isEnd = false) :
    ∃ front taken rest, t.ScannedIn source front taken rest := by
  obtain ⟨front, hs, ho⟩ := hl
  rcases nextToken_cases l with ⟨-, hcall⟩ | ⟨gap, ⟨reading, taken, rest⟩, hr, -, hn, hx, hcall⟩
  · rw [hcall] at hread
    cases hread
    cases hend
  · rw [hcall] at hread
    rw [hr] at hs
    cases reading with
    | malformed problem => cases hread
    | token kind text value =>
      cases hread
      have hspan := @lexeme_span source front gap taken rest kind text value hsize hs
      rw [ho] at hspan
      exact ⟨front ++ gap, taken, rest, (source_splits hs).1, hn, hx, hspan⟩

theorem lexAux_scanned (hsize : byteLength source.toList ≤ Span.limit) :
    ∀ (fuel : Nat) (l l' : Lexer) (ts : List Token), l.StandsIn source →
      lexAux fuel l = (.ok ts, l') →
      ∀ t ∈ ts, ∃ front taken rest, t.ScannedIn source front taken rest := by
  intro fuel
  induction fuel with
  | zero =>
    intro l l' ts _ h
    cases h
    exact fun t ht => nomatch ht
  | succ fuel ih =>
    intro l l' ts hl h
    have hnext := hl.nextToken
    rw [lexAux] at h
    split at h
    · cases h
    rename_i t l₁ hread
    rw [hread] at hnext
    split at h
    · cases h
      exact fun t ht => nomatch ht
    rename_i hend
    split at h
    · rename_i us l₂ hus
      cases h
      intro u hu
      rcases List.mem_cons.mp hu with rfl | hu
      · exact hl.scanned hsize hread (Bool.eq_false_iff.mpr hend)
      · exact ih l₁ _ us hnext hus u hu
    · cases h

/-- **Each token of a source is what is read where it stands.** -/
theorem lex_scanned (hsize : byteLength source.toList ≤ Span.limit) (hlex : lex source = .ok ts) :
    ∀ t ∈ ts, ∃ front taken rest, t.ScannedIn source front taken rest := by
  unfold FrontEnd.lex Lexer.lex at hlex
  cases hrun : lexAux ((Lexer.ofSource source).rest.length + 1) (Lexer.ofSource source) with
  | mk r l' =>
    rw [hrun] at hlex
    cases hlex
    exact lexAux_scanned hsize _ _ _ _ (standsIn_ofSource source) hrun

/-- A text that is one lexeme is lexed to one token. -/
theorem lex_of_scan {s : String} {kind : TokenKind} {text : String} {value : UInt64}
    (hn : NoBlank s.toList) (hx : scan s.toList = some ⟨.token kind text value, s.toList, []⟩) :
    lex s = .ok [tokenAt 0 kind text value s.toList] := by
  have hpos : 0 < s.toList.length := scan_rest_lt hx
  obtain ⟨fuel, hfuel⟩ : ∃ fuel, s.toList.length = fuel + 1 := ⟨s.toList.length - 1, by omega⟩
  have hrest : (Lexer.ofSource s).rest = [] ++ s.toList := rfl
  obtain ⟨l', hdone⟩ := lexAux_blanks
    (l := { Lexer.ofSource s with offset := 0 + byteLength s.toList, rest := [] })
    (fun c hc => nomatch hc) fuel
  have hlex := lexAux_scan hrest (fun c hc => nomatch hc) hn hx (scan_kind_ne hx) hdone
  rw [FrontEnd.lex, Lexer.lex]
  show (lexAux (s.toList.length + 1) (Lexer.ofSource s)).1 = _
  rw [hfuel]
  exact congrArg Prod.fst hlex

/-- A token covers the part of the source that was taken for it. -/
theorem Token.ScannedIn.slice {t : Token} {front taken rest : List Char}
    (h : t.ScannedIn source front taken rest) : slice source t.span = String.ofList taken := by
  rw [h.span]
  exact slice_middle h.source

end

end FrontEnd
