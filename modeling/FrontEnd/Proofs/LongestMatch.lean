import FrontEnd.Proofs.LexerStates

/-!
# Longest match

A token goes as far in its source as its rule lets it, and a word is told apart by its text.

* `Token.Longest` is what holds of a token in view of the text after it, `Token.Classified` of the
  kind and the value of a word. `TokenAt.longest`: every rule gives such a token.
* `longest_match_and_words`: so it is for all tokens of a source, where they stand in it.
-/

set_option autoImplicit false

namespace FrontEnd

open Lexer Text

/-- The kinds of the tokens that are words. -/
def TokenKind.IsWord (kind : TokenKind) : Prop :=
  kind = .boolean ∨ kind = .keyword ∨ kind = .identifier

/-- The kind and the value of a word are as its text says. -/
structure Token.Classified (t : Token) : Prop where
  boolean : t.kind = .boolean ↔ t.text = "true" ∨ t.text = "false"
  keyword : t.kind = .keyword ↔ t.text ∈ keywords
  identifier : t.kind = .identifier ↔ t.text ≠ "true" ∧ t.text ≠ "false" ∧ t.text ∉ keywords
  value : t.value = if t.text = "true" then 1 else 0

/-- The token, with the characters taken for it, in view of the text after them. A symbol is the
longest in the table, a word and the digits of a number end where they have to, and a character by
itself starts nothing else. -/
structure Token.Longest (t : Token) (taken rest : List Char) : Prop where
  symbol : t.kind = .symbol → taken = t.text.toList ∧ SymbolAt t.text rest
  word : t.kind.IsWord → taken = t.text.toList ∧ t.Classified ∧
    ∃ run mark, taken = run ++ mark ∧ WordAt run mark rest
  number : t.kind = .number → taken = t.text.toList ∧
    ∃ lead body, taken = lead.taken ++ body ∧ NumberAt (taken ++ rest) lead body rest
  unexpected : t.kind = .unexpected → ∃ c, taken = [c] ∧ t.text = c.toString ∧
    t.value.toNat = c.toNat ∧ isBlank c = false ∧ StartsNone c rest

section

variable {kind : TokenKind} {text : String} {value : UInt64} {taken rest : List Char}

/-- The word is classified by the table of keywords. -/
theorem classified (word : String) (span : Span) :
    Token.Classified ⟨(classify word).1, word, (classify word).2, span⟩ := by
  have hkeywords : "true" ∉ keywords ∧ "false" ∉ keywords := by decide
  unfold classify
  split
  · constructor <;> simp_all
  split
  · constructor <;> simp_all
  split
  · rename_i hkeyword
    have hmem := isKeyword_iff.mp hkeyword
    constructor <;> simp_all
  · rename_i hkeyword
    have hmem := mt isKeyword_iff.mpr hkeyword
    constructor <;> simp_all

theorem toNat_codePoint (c : Char) : (UInt64.ofNat c.toNat).toNat = c.toNat := by
  have hlt : c.toNat < 4294967296 := c.val.toNat_lt
  rw [UInt64.toNat_ofNat']
  exact Nat.mod_eq_of_lt (by omega)

/-- **Every rule goes as far as it can.** -/
theorem Lexer.TokenAt.longest (h : TokenAt kind text value taken rest) (hn : NoBlank (taken ++ rest))
    (span : Span) : Token.Longest ⟨kind, text, value, span⟩ taken rest := by
  cases h with
  | @number lead body _ _ h hv =>
    have hstands : NumberAt (lead.taken ++ body ++ rest) lead body rest := by
      rw [List.append_assoc]
      exact h
    exact ⟨nofun, by simp [TokenKind.IsWord],
      fun _ => ⟨String.toList_ofList.symm, lead, body, rfl, hstands⟩, nofun⟩
  | char h => exact ⟨nofun, by simp [TokenKind.IsWord], nofun, nofun⟩
  | string h => exact ⟨nofun, by simp [TokenKind.IsWord], nofun, nofun⟩
  | symbol h => exact ⟨fun _ => ⟨rfl, h⟩, by simp [TokenKind.IsWord], nofun, nofun⟩
  | @word _ run mark _ hs h =>
    have hkind := classify_kind text
    refine ⟨fun hk => ?_, fun _ => ⟨rfl, classified text span, run, mark, hs, h⟩, fun hk => ?_,
      fun hk => ?_⟩
    all_goals
      dsimp only at hk
      rw [hk] at hkind
      simp at hkind
  | @unexpected c _ h =>
    exact ⟨nofun, by simp [TokenKind.IsWord], nofun,
      fun _ => ⟨c, rfl, rfl, toNat_codePoint c, hn c rfl, h⟩⟩

end

/-- **Tokens go as far as they can, and words are told apart by their text**, for every token of
every source. -/
theorem longest_match_and_words {source : String} {ts : List Token}
    (hsize : byteLength source.toList ≤ Span.limit) (hlex : lex source = .ok ts) :
    ∀ t ∈ ts, ∃ front taken rest, source.toList = front ++ (taken ++ rest) ∧
      t.span = ⟨byteLength front, byteLength front + byteLength taken⟩ ∧
      t.Longest taken rest := by
  intro t ht
  obtain ⟨front, taken, rest, h⟩ := lex_scanned hsize hlex t ht
  exact ⟨front, taken, rest, h.source, h.span,
    (tokenAt_of_scan h.scan).longest h.noBlank t.span⟩

/-- A word that starts as a keyword does and ends in a mark, after a symbol. -/
theorem longest_match_and_words_marked :
    ∃ front taken rest, "<in?".toList = front ++ (taken ++ rest) ∧
      (⟨1, 4⟩ : Span) = ⟨byteLength front, byteLength front + byteLength taken⟩ ∧
      Token.Longest ⟨.identifier, "in?", 0, ⟨1, 4⟩⟩ taken rest :=
  @longest_match_and_words "<in?" [⟨.symbol, "<", 0, ⟨0, 1⟩⟩, ⟨.identifier, "in?", 0, ⟨1, 4⟩⟩]
    (by decide) (by decide) ⟨.identifier, "in?", 0, ⟨1, 4⟩⟩ (by decide)

end FrontEnd
