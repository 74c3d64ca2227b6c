import FrontEnd.Proofs.Lexing

/-!
# Tokens and blanks cover a source

The tokens of a source and the blanks between them are the whole of it. No character is lost, and
none is in two tokens.

* `Token.StandsIn` is what holds of one token of a source, `Covered` what holds of all of them and
  of the gaps between them.
* `Lexes.standsIn`, `Lexes.ordered`, `Lexes.gaps` prove the parts of it by induction on the run of
  the lexer, from any place in the source on.
* `lex_covers` is the statement for a source, and for the token that ends it.

Offsets are 32 bits wide, so a longer source is covered by no spans.
-/

set_option autoImplicit false

namespace FrontEnd

open Lexer Text

/-! ## Tokens in their source -/

/-- A character starts at the offset, or the text ends there. -/
def Text.IsBoundary (s : String) (offset : Nat) : Prop :=
  ∃ front back, s.toList = front ++ back ∧ byteLength front = offset

/-- The token covers a part of the source, from one character to another, that it is written
with. -/
structure Token.StandsIn (t : Token) (source : String) : Prop where
  nonempty : t.span.start < t.span.stop
  start : IsBoundary source t.span.start
  stop : IsBoundary source t.span.stop
  written : t.WrittenAs (slice source t.span).toList

/-- The gaps before, between and after tokens, from one offset up to another. -/
def gaps (stop : Nat) : Nat → List Token → List Span
  | start, [] => [⟨start, stop⟩]
  | start, t :: ts => ⟨start, t.span.start⟩ :: gaps stop t.span.stop ts

/-- The gaps with the spans of the tokens between them. -/
def cover (stop : Nat) : Nat → List Token → List Span
  | start, [] => [⟨start, stop⟩]
  | start, t :: ts => ⟨start, t.span.start⟩ :: t.span :: cover stop t.span.stop ts

/-- The tokens stand in the source one after the other with nothing but blanks between them, and
with these blanks they are the source. -/
structure Covered (source : String) (ts : List Token) : Prop where
  tokens : ∀ t ∈ ts, t.StandsIn source
  ordered : ts.Pairwise fun t u => t.span.stop ≤ u.span.start
  blanks : ∀ gap ∈ gaps (byteLength source.toList) 0 ts,
    gap.start ≤ gap.stop ∧ Blanks (slice source gap).toList
  whole : (cover (byteLength source.toList) 0 ts).flatMap (fun span => (slice source span).toList) =
    source.toList

section

variable {source : String} {offset : Nat} {front cs : List Char} {ts : List Token}

theorem tokenAt_span {taken : List Char} {kind : TokenKind} {text : String} {value : UInt64}
    (h : offset + byteLength taken ≤ Span.limit) :
    (tokenAt offset kind text value taken).span = ⟨offset, offset + byteLength taken⟩ :=
  Span.ofRange_eq (by omega) h

/-- How the first lexeme and the gap before it lie in the source. -/
theorem lexeme_span {gap taken rest : List Char} {kind : TokenKind} {text : String}
    {value : UInt64} (hsize : byteLength source.toList ≤ Span.limit)
    (hs : source.toList = front ++ (gap ++ (taken ++ rest))) :
    (tokenAt (byteLength front + byteLength gap) kind text value taken).span =
      ⟨byteLength (front ++ gap), byteLength (front ++ gap) + byteLength taken⟩ := by
  rw [hs] at hsize
  simp only [byteLength_append] at hsize ⊢
  exact tokenAt_span (by omega)

/-- The source split where its first lexeme starts, and where that stops. -/
theorem source_splits {gap taken rest : List Char}
    (hs : source.toList = front ++ (gap ++ (taken ++ rest))) :
    source.toList = (front ++ gap) ++ (taken ++ rest) ∧
      source.toList = (front ++ gap ++ taken) ++ rest ∧
      byteLength (front ++ gap ++ taken) = byteLength front + byteLength gap + byteLength taken := by
  refine ⟨?_, ?_, ?_⟩
  · rw [hs, List.append_assoc]
  · rw [hs, List.append_assoc, List.append_assoc]
  · rw [byteLength_append, byteLength_append]

theorem Lexes.standsIn (h : Lexes offset cs ts) (hsize : byteLength source.toList ≤ Span.limit) :
    ∀ front, source.toList = front ++ cs → byteLength front = offset →
      ∀ t ∈ ts, offset ≤ t.span.start ∧ t.StandsIn source := by
  induction h with
  | done _ => exact fun _ _ _ t ht => nomatch ht
  | @lexeme offset gap taken rest kind text value ts hb hx _ ih =>
    intro front hs ho t ht
    subst ho
    have hspan := @lexeme_span source front gap taken rest kind text value hsize hs
    obtain ⟨hs', hs'', hlen⟩ := source_splits hs
    rcases List.mem_cons.mp ht with rfl | ht
    · have hpos : 0 < byteLength taken := by
        have hne := List.length_pos_iff.mpr (scan_taken_ne_nil hx)
        have hle := length_le_byteLength taken
        dsimp only at hne
        omega
      refine ⟨?_, ?_, ?_, ?_, ?_⟩
      · rw [hspan, byteLength_append]
        exact Nat.le_add_right _ _
      · rw [hspan]
        show byteLength (front ++ gap) < byteLength (front ++ gap) + byteLength taken
        omega
      · rw [hspan]
        exact ⟨front ++ gap, taken ++ rest, hs', rfl⟩
      · rw [hspan]
        exact ⟨front ++ gap ++ taken, rest, hs'', byteLength_append _ _⟩
      · rw [hspan, slice_middle hs', String.toList_ofList]
        exact scan_writtenAs hx rfl _
    · have hnext := ih (front ++ gap ++ taken) hs'' hlen t ht
      exact ⟨by omega, hnext.2⟩

theorem Lexes.ordered (h : Lexes offset cs ts) (hsize : byteLength source.toList ≤ Span.limit) :
    ∀ front, source.toList = front ++ cs → byteLength front = offset →
      ts.Pairwise fun t u => t.span.stop ≤ u.span.start := by
  induction h with
  | done _ => exact fun _ _ _ => .nil
  | @lexeme offset gap taken rest kind text value ts hb hx h ih =>
    intro front hs ho
    subst ho
    have hspan := @lexeme_span source front gap taken rest kind text value hsize hs
    obtain ⟨-, hs', hlen⟩ := source_splits hs
    refine List.pairwise_cons.mpr ⟨fun u hu => ?_, ih _ hs' hlen⟩
    have hle := (h.standsIn hsize _ hs' hlen u hu).1
    rw [hspan, byteLength_append]
    exact hle

/-- The gaps hold blanks, and with the tokens they are all that is left of the source. -/
theorem Lexes.gaps (h : Lexes offset cs ts) (hsize : byteLength source.toList ≤ Span.limit) :
    ∀ front, source.toList = front ++ cs → byteLength front = offset →
      (∀ gap ∈ gaps (byteLength source.toList) offset ts,
        gap.start ≤ gap.stop ∧ Blanks (slice source gap).toList) ∧
      (cover (byteLength source.toList) offset ts).flatMap
        (fun span => (slice source span).toList) = cs := by
  induction h with
  | @done offset cs hb =>
    intro front hs ho
    subst ho
    have hstop : byteLength source.toList = byteLength front + byteLength cs := by
      rw [hs, byteLength_append]
    have hslice : slice source ⟨byteLength front, byteLength source.toList⟩ = String.ofList cs := by
      have hs' : source.toList = front ++ (cs ++ []) := by
        rw [hs, List.append_nil]
      rw [hstop]
      exact slice_middle hs'
    constructor
    · intro gap hgap
      rw [FrontEnd.gaps, List.mem_singleton] at hgap
      subst hgap
      rw [hslice, String.toList_ofList]
      exact ⟨by dsimp only; omega, hb⟩
    · rw [cover, List.flatMap_singleton, hslice, String.toList_ofList]
  | @lexeme offset gap taken rest kind text value ts hb hx _ ih =>
    intro front hs ho
    subst ho
    have hspan := @lexeme_span source front gap taken rest kind text value hsize hs
    obtain ⟨hs', hs'', hlen⟩ := source_splits hs
    obtain ⟨hgaps, hcover⟩ := ih (front ++ gap ++ taken) hs'' hlen
    have hslice : slice source ⟨byteLength front, byteLength (front ++ gap)⟩ = String.ofList gap := by
      rw [byteLength_append]
      exact slice_middle hs
    rw [FrontEnd.gaps, cover, hspan]
    dsimp only
    rw [byteLength_append, Nat.add_assoc, ← Nat.add_assoc, ← byteLength_append front gap]
    constructor
    · intro g hg
      rcases List.mem_cons.mp hg with rfl | hg
      · rw [hslice, String.toList_ofList]
        refine ⟨?_, hb⟩
        show byteLength front ≤ byteLength (front ++ gap)
        rw [byteLength_append]
        exact Nat.le_add_right _ _
      · refine hgaps g ?_
        rw [byteLength_append] at hg
        exact hg
    · rw [List.flatMap_cons, List.flatMap_cons, hslice, slice_middle hs', String.toList_ofList,
        String.toList_ofList, byteLength_append, hcover]

end

/-- **Tokens and blanks are the whole source**: each token covers the characters that it is written
with, one after the other, with nothing but blanks between them. Iteration answers these tokens and
then the end token, whose span is the empty one at the end of the source. -/
theorem lex_covers {source : String} {ts : List Token}
    (hsize : byteLength source.toList ≤ Span.limit) (hlex : lex source = .ok ts) :
    Covered source ts ∧ ∃ last : Token, last.kind = .endOfFile ∧
      last.span = ⟨byteLength source.toList, byteLength source.toList⟩ ∧
      (Lexer.ofSource source).iterate = ts.map .ok ++ [.ok last] := by
  have hrun := lex_lexes hlex
  obtain ⟨hblanks, hwhole⟩ := hrun.gaps hsize [] rfl rfl
  refine ⟨⟨fun t ht => (hrun.standsIn hsize [] rfl rfl t ht).2, hrun.ordered hsize [] rfl rfl,
    hblanks, hwhole⟩, Token.endOfFile (byteLength source.toList), rfl, ?_, ?_⟩
  · exact Span.ofRange_eq hsize hsize
  · unfold FrontEnd.lex Lexer.lex at hlex
    cases hres : lexAux ((Lexer.ofSource source).rest.length + 1) (Lexer.ofSource source) with
    | mk r l' =>
      rw [hres] at hlex
      cases hlex
      have hall := iterateAux_of_lexAux _ _ _ _ (Nat.lt_succ_self _) rfl hres
      rw [show (Lexer.ofSource source).offset = 0 from rfl, Nat.zero_add] at hall
      exact hall

/-- A character of two bytes that starts no token, a literal with an escape, and blanks around
them. -/
def quotedSource : String := "\té \"a\\n\" "

theorem lex_covers_quoted :
    ∃ ts, byteLength quotedSource.toList ≤ Span.limit ∧ lex quotedSource = .ok ts ∧
      ts.map Token.text = ["é", "a\n"] ∧ Covered quotedSource ts := by
  have hsize : byteLength quotedSource.toList ≤ Span.limit := by decide
  have htexts : (lex quotedSource).toOption.map (List.map Token.text) = some ["é", "a\n"] := by
    decide +kernel
  obtain ⟨ts, hts, htext⟩ := Option.map_eq_some_iff.mp htexts
  have hlex : lex quotedSource = .ok ts := by
    cases hrun : lex quotedSource with
    | error e =>
      rw [hrun] at hts
      cases hts
    | ok us =>
      rw [hrun] at hts
      cases hts
      rfl
  exact ⟨ts, hsize, hlex, htext, (lex_covers hsize hlex).1⟩

end FrontEnd
