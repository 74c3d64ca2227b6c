import FrontEnd.Proofs.Correspondence
import FrontEnd.Proofs.LexerStates

/-!
# Tokens with other gaps between them

How the tokens of a source are spaced has no part in what they are. Cut out of the source and put
before a blank, each is scanned as before, although it was scanned with a view of what followed it.

* `Gap` says that a blank follows, or nothing. `TokenAt.before_gap`: every rule still applies there.
* `Spaced` is a text of pieces, each of which is scanned as a token, and of blanks between them;
  `Spaced.lex_eq`: it is lexed to those tokens.
* `lex_respaced`: the parts of a source that its tokens cover are such pieces.
-/

set_option autoImplicit false

namespace FrontEnd

open Lexer Text

/-- A blank follows, or nothing does. -/
def Gap (rest : List Char) : Prop := ∀ c ∈ rest.head?, isBlank c = true

/-- No token goes on with the character. -/
structure EndsToken (c : Char) : Prop where
  word : isWordChar c = false
  mark : c ≠ '?' ∧ c ≠ '!'
  digit : c.isDigit = false
  number : ∀ radix, ¬(IsDigitOf radix c ∨ c = '_')
  sign : c ≠ 'x' ∧ c ≠ 'X'
  symbol : ∀ s ∈ symbols, c ∉ s.toList

/-- No token goes on with a blank. -/
theorem endsToken_of_blank {c : Char} (h : isBlank c = true) : EndsToken c := by
  have hsymbol : ∀ s ∈ symbols, c ∉ s.toList := by
    intro s hs hc
    have hno := List.all_eq_true.mp (symbols_noBlank s hs) c hc
    rw [h] at hno
    cases hno
  simp only [isBlank, Bool.or_eq_true, beq_iff_eq] at h
  rcases h with ((((rfl | rfl) | rfl) | rfl) | rfl) | rfl
  all_goals
    exact ⟨by decide, by decide, by decide, fun radix => by simp [IsDigitOf], by decide, hsymbol⟩

/-! ## A token before a gap -/

section

variable {rest after : List Char}

/-- What starts a text before a gap and holds no blank starts it without the gap. -/
theorem prefix_before_gap {cs ds : List Char} (hp : ds <+: cs ++ rest) (hg : Gap rest)
    (hno : ∀ c ∈ ds, isBlank c = false) : ds <+: cs := by
  rcases Nat.le_total ds.length cs.length with hle | hle
  · exact List.prefix_of_prefix_length_le hp (List.prefix_append cs rest) hle
  · obtain ⟨tail, rfl⟩ := List.prefix_of_prefix_length_le (List.prefix_append cs rest) hp hle
    rw [List.prefix_append_right_inj] at hp
    cases tail with
    | nil => exact ⟨[], by simp⟩
    | cons c tail =>
      obtain ⟨tail', rfl⟩ := hp
      have hblank := hg c rfl
      rw [hno c (by simp)] at hblank
      cases hblank

theorem Lexer.NumberAt.before_gap {lead : NumberLead} {body : List Char}
    (h : NumberAt (lead.taken ++ (body ++ rest)) lead body rest) (hg : Gap after) :
    NumberAt (lead.taken ++ (body ++ after)) lead body after := by
  refine ⟨rfl, ?_, h.digits, fun c hc => (endsToken_of_blank (hg c hc)).number _⟩
  have hdigit := h.exists_digit
  have hlead := h.introduced
  generalize hsplit : body ++ rest = text at hlead
  cases hlead with
  | hexadecimal hx => exact .hexadecimal hx
  | negative hd =>
    obtain ⟨-, d, ds, rfl, hd⟩ := hdigit.resolve_left (by decide)
    exact .negative hd
  | decimal hd hx =>
    obtain ⟨-, d, ds, rfl, hd⟩ := hdigit.resolve_left (by decide)
    obtain ⟨rfl, rfl⟩ := List.cons.inj hsplit
    refine .decimal hd fun hzero c hc => ?_
    cases ds with
    | nil => exact (endsToken_of_blank (hg c hc)).sign
    | cons e ds => exact hx hzero c hc

theorem Lexer.SymbolAt.before_gap {s : String} (h : SymbolAt s rest) (hg : Gap after) :
    SymbolAt s after := by
  refine ⟨h.mem, fun t ht hp => ?_, fun _ c hc => (endsToken_of_blank (hg c hc)).digit⟩
  refine (prefix_before_gap hp hg fun c hc => ?_).length_le
  rw [Bool.eq_false_iff]
  exact fun hblank => (endsToken_of_blank hblank).symbol t ht hc

theorem Lexer.WordAt.before_gap {run mark : List Char} (h : WordAt run mark rest) (hg : Gap after) :
    WordAt run mark after := by
  refine ⟨h.start, h.chars, fun c hc => ?_, ?_⟩
  · cases mark with
    | nil => exact (endsToken_of_blank (hg c hc)).word
    | cons d mark => exact h.longest c hc
  · rcases h.marked with hm | hm | ⟨hm, -⟩
    · exact .inl hm
    · exact .inr (.inl hm)
    · exact .inr (.inr ⟨hm, fun c hc => (endsToken_of_blank (hg c hc)).mark⟩)

theorem Lexer.StartsNone.before_gap {c : Char} (h : StartsNone c rest) (hg : Gap after) :
    StartsNone c after := by
  refine ⟨?_, h.char, h.string, fun s hs hp => ?_, h.word⟩
  · have hnumber := h.number
    rw [Bool.eq_false_iff, ne_eq, startsNumber_iff] at hnumber ⊢
    rintro ⟨d, tail, hd, heq | heq⟩
    · obtain ⟨rfl, -⟩ := List.cons.inj heq
      exact hnumber ⟨c, rest, hd, .inl rfl⟩
    · obtain ⟨rfl, rfl⟩ := List.cons.inj heq
      rw [(endsToken_of_blank (hg d rfl)).digit] at hd
      cases hd
  · have hp' : s.toList <+: [c] ++ after := hp
    have hstart : s.toList <+: [c] := prefix_before_gap hp' hg fun d hd => by
      rw [Bool.eq_false_iff]
      exact fun hblank => (endsToken_of_blank hblank).symbol s hs hd
    exact h.symbol s hs (hstart.trans (List.prefix_append [c] rest))

/-- **Every rule that applies to a part of a text applies to the part alone**, before a gap. -/
theorem Lexer.TokenAt.before_gap {kind : TokenKind} {text : String} {value : UInt64}
    {taken : List Char} (h : TokenAt kind text value taken rest) (hg : Gap after) :
    TokenAt kind text value taken after := by
  cases h with
  | number h hv => exact .number (h.before_gap hg) hv
  | char h => exact .char h
  | string h => exact .string h
  | symbol h => exact .symbol (h.before_gap hg)
  | word hs h => exact .word hs (h.before_gap hg)
  | unexpected h => exact .unexpected (h.before_gap hg)

end

/-! ## Pieces and gaps -/

/-- The piece is scanned as the token wherever a gap follows. -/
structure Token.StandsAlone (t : Token) (piece : List Char) : Prop where
  noBlank : ∀ rest, NoBlank (piece ++ rest)
  scan : ∀ rest, Gap rest →
    scan (piece ++ rest) = some ⟨.token t.kind t.text t.value, piece, rest⟩

/-- A text of pieces, each scanned as its token, with blanks after each, and at least one between
each two. -/
inductive Spaced : List Token → List Char → Prop where
  | nil : Spaced [] []
  | cons {t : Token} {ts : List Token} {piece gap cs : List Char} (ht : t.StandsAlone piece)
      (hg : Blanks gap) (hne : ts ≠ [] → gap ≠ []) (h : Spaced ts cs) :
      Spaced (t :: ts) (piece ++ (gap ++ cs))

theorem lexAux_spaced {ts : List Token} {cs : List Char} (h : Spaced ts cs) :
    ∀ (l : Lexer) (gap : List Char) (fuel : Nat), l.rest = gap ++ cs → Blanks gap →
      cs.length < fuel →
      ∃ us l', lexAux fuel l = (.ok us, l') ∧ us.map Token.word = ts.map Token.word := by
  induction h with
  | nil =>
    intro l gap fuel hr hg hfuel
    obtain ⟨fuel, rfl⟩ : ∃ n, fuel = n + 1 := ⟨fuel - 1, by omega⟩
    rw [List.append_nil] at hr
    obtain ⟨l', hdone⟩ := lexAux_blanks (hr ▸ hg) fuel
    exact ⟨[], l', hdone, rfl⟩
  | @cons t ts piece gap' cs ht hg' hne h ih =>
    intro l gap fuel hr hg hfuel
    have hgap : Gap (gap' ++ cs) := by
      intro c hc
      cases gap' with
      | nil =>
        cases h with
        | nil => cases hc
        | cons _ _ _ _ => exact absurd rfl (hne (List.cons_ne_nil _ _))
      | cons d gap' =>
        obtain rfl : d = c := Option.some.inj hc
        exact hg' d List.mem_cons_self
    have hx := ht.scan _ hgap
    have hlt := scan_rest_lt hx
    obtain ⟨fuel, rfl⟩ : ∃ n, fuel = n + 1 := ⟨fuel - 1, by omega⟩
    obtain ⟨us, l', hus, hwords⟩ := ih
      { l with offset := l.offset + byteLength gap + byteLength piece, rest := gap' ++ cs }
      gap' fuel rfl hg' (by simp only [List.length_append] at hlt hfuel ⊢; omega)
    refine ⟨_, l', lexAux_scan hr hg (ht.noBlank _) hx (scan_kind_ne hx) hus, ?_⟩
    rw [List.map_cons, List.map_cons, hwords]
    rfl

/-- **A text of pieces is lexed to their tokens.** -/
theorem Spaced.lex_eq {ts : List Token} {lead s : String} (h : Spaced ts s.toList)
    (hlead : Blanks lead.toList) :
    ∃ us, lex (lead ++ s) = .ok us ∧ us.map Token.word = ts.map Token.word := by
  have hr : (Lexer.ofSource (lead ++ s)).rest = lead.toList ++ s.toList := String.toList_append
  have hfuel : s.toList.length < (Lexer.ofSource (lead ++ s)).rest.length + 1 := by
    rw [hr, List.length_append]
    omega
  obtain ⟨us, l', hrun, hwords⟩ := lexAux_spaced h _ lead.toList _ hr hlead hfuel
  exact ⟨us, congrArg Prod.fst hrun, hwords⟩

/-! ## The tokens of a source -/

/-- Pieces of text, each with the gap after it. -/
def joinSpaced : List (String × String) → String
  | [] => ""
  | (piece, gap) :: rest => piece ++ gap ++ joinSpaced rest

section

variable {source : String} {ts : List Token}

/-- The part of a source that a token covers stands alone. -/
theorem Token.ScannedIn.standsAlone {t : Token} {front taken rest : List Char}
    (h : t.ScannedIn source front taken rest) : t.StandsAlone (Text.slice source t.span).toList := by
  rw [h.slice, String.toList_ofList]
  obtain ⟨c, cs, rfl⟩ := List.exists_cons_of_ne_nil (scan_taken_ne_nil h.scan)
  refine ⟨fun after => noBlank_append rfl (h.noBlank c rfl), fun after hg => ?_⟩
  exact ((tokenAt_of_scan h.scan).before_gap hg).scan

theorem spaced_joinSpaced :
    ∀ (ts : List Token) (gaps : List String),
      (∀ t ∈ ts, t.StandsAlone (slice source t.span).toList) → gaps.length = ts.length →
      (∀ gap ∈ gaps, Blanks gap.toList) → (∀ gap ∈ gaps.dropLast, gap ≠ "") →
      Spaced ts (joinSpaced ((ts.map fun t => slice source t.span).zip gaps)).toList := by
  intro ts
  induction ts with
  | nil => intro gaps _ _ _ _; exact .nil
  | cons t ts ih =>
    intro gaps hpieces hlength hblanks hinner
    cases gaps with
    | nil => cases hlength
    | cons gap gaps =>
      have htail := ih gaps (fun u hu => hpieces u (List.mem_cons_of_mem t hu))
        (Nat.succ.inj hlength) (fun g hg => hblanks g (List.mem_cons_of_mem gap hg))
        (fun g hg => hinner g ?_)
      · rw [List.map_cons, List.zip_cons_cons, joinSpaced, String.toList_append,
          String.toList_append, List.append_assoc]
        refine .cons (hpieces t List.mem_cons_self) (hblanks gap List.mem_cons_self)
          (fun hts hnil => hinner gap ?_ (String.toList_eq_nil_iff.mp hnil)) htail
        have hgaps : gaps ≠ [] := by
          rintro rfl
          exact hts (List.length_eq_zero_iff.mp (Nat.succ.inj hlength).symm)
        rw [List.dropLast_cons_of_ne_nil hgaps]
        exact List.mem_cons_self
      · have hgaps : gaps ≠ [] := by
          rintro rfl
          cases hg
        rw [List.dropLast_cons_of_ne_nil hgaps]
        exact List.mem_cons_of_mem gap hg

/-- **Lexing does not depend on how tokens are spaced.** The parts of a source that its tokens cover,
with any blanks before and after them and with some between each two, are lexed to the same tokens
but for their places. -/
theorem lex_respaced (hsize : byteLength source.toList ≤ Span.limit) (hlex : lex source = .ok ts)
    (lead : String) (gaps : List String) (hlength : gaps.length = ts.length)
    (hlead : Blanks lead.toList) (hblanks : ∀ gap ∈ gaps, Blanks gap.toList)
    (hinner : ∀ gap ∈ gaps.dropLast, gap ≠ "") :
    ∃ us, lex (lead ++ joinSpaced ((ts.map fun t => slice source t.span).zip gaps)) = .ok us ∧
      us.map Token.word = ts.map Token.word := by
  refine (spaced_joinSpaced ts gaps (fun t ht => ?_) hlength hblanks hinner).lex_eq hlead
  obtain ⟨front, taken, rest, h⟩ := lex_scanned hsize hlex t ht
  exact h.standsAlone

/-- A minus sign after a number, both set apart. -/
theorem lex_respaced_minus :
    ∃ us, lex ("\t" ++ joinSpaced ((([⟨.number, "0x1F", 31, ⟨0, 4⟩⟩, ⟨.symbol, "--", 0, ⟨4, 6⟩⟩,
        ⟨.number, "2", 2, ⟨6, 7⟩⟩] : List Token).map fun t => slice "0x1F--2" t.span).zip
          [" ", "\n", ""])) = .ok us ∧
      us.map Token.word = [⟨.number, "0x1F", 31, Span.none⟩, ⟨.symbol, "--", 0, Span.none⟩,
        ⟨.number, "2", 2, Span.none⟩] :=
  @lex_respaced "0x1F--2" _ (by decide) (by decide) "\t" [" ", "\n", ""] rfl
    (by simp [Blanks, isBlank]) (by simp [Blanks, isBlank]) (by decide)

end

end FrontEnd
