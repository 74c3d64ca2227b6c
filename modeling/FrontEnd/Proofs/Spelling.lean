import FrontEnd.Proofs.Contents
import FrontEnd.Proofs.Lexing
import FrontEnd.Proofs.Scanning

/-!
# From characters to contents

* `Spells` says that characters spell contents: lexeme after lexeme, with any blanks between them.
  It speaks of no offset, so it can be put together from its parts.
* `lex_of_spells`: characters that spell contents are lexed to tokens with these contents.
* `Token.Lexed` is what holds of every token that comes from a source (`lex_lexed`): the text of an
  identifier is a name, a character is no single quote, and a boolean is written as its value.
-/

set_option autoImplicit false

namespace FrontEnd

open Grammar Lexer

/-- The characters spell the contents. A number without suffix is not followed by a word, and a
suffix stands directly after its number. -/
inductive Spells : List Char → List Content → Prop where
  | nil : Spells [] []
  | blank {c : Char} {cs : List Char} {ws : List Content} (hb : isBlank c = true)
      (h : Spells cs ws) : Spells (c :: cs) ws
  | plain {cs taken rest : List Char} {kind : TokenKind} {text : String} {value : UInt64}
      {ws : List Content} (hb : NoBlank cs)
      (hx : scan cs = some ⟨.token kind text value, taken, rest⟩) (he : kind ≠ .endOfFile)
      (hn : kind ≠ .number) (hk : kind ≠ .boolean) (h : Spells rest ws) :
      Spells cs (.plain kind text :: ws)
  | boolean {cs taken rest : List Char} {text : String} {value : UInt64} {ws : List Content}
      (hb : NoBlank cs) (hx : scan cs = some ⟨.token .boolean text value, taken, rest⟩)
      (h : Spells rest ws) : Spells cs (.boolean (value != 0) :: ws)
  | integer {cs taken rest : List Char} {text : String} {bits : UInt64} {ws : List Content}
      (hb : NoBlank cs) (hx : scan cs = some ⟨.token .number text bits, taken, rest⟩)
      (hn : ∀ s, ws.head? ≠ some (.name s)) (h : Spells rest ws) :
      Spells cs (.integer bits .defaultInteger :: ws)
  | suffixed {cs taken mid taken' rest : List Char} {text word : String} {bits value : UInt64}
      {type : TypeExpr} {ws : List Content} (hb : NoBlank cs)
      (hx : scan cs = some ⟨.token .number text bits, taken, mid⟩) (hm : NoBlank mid)
      (hy : scan mid = some ⟨.token .identifier word value, taken', rest⟩)
      (hw : TypeExpr.primitive? word = some type) (hi : type.isInteger = true)
      (h : Spells rest ws) : Spells cs (.integer bits type :: ws)

theorem Spells.blanks {bs cs : List Char} {ws : List Content} (hb : ∀ c ∈ bs, isBlank c = true)
    (h : Spells cs ws) : Spells (bs ++ cs) ws := by
  induction bs with
  | nil => exact h
  | cons c bs ih =>
    exact .blank (hb c List.mem_cons_self) (ih fun d hd => hb d (List.mem_cons_of_mem c hd))

/-! ## Lexing -/

/-- A blank only moves the offset. -/
theorem nextToken_blank {l : Lexer} {c : Char} {cs : List Char} (hr : l.rest = c :: cs)
    (hb : isBlank c = true) :
    l.nextToken = ({ l with offset := l.offset + c.utf8Size, rest := cs } : Lexer).nextToken := by
  unfold Lexer.nextToken Lexer.lexemeStart
  rw [hr]
  simp only [List.dropWhile_cons, List.takeWhile_cons, hb, if_true, Text.byteLength_cons,
    Nat.add_assoc]

theorem lexAux_blank {l : Lexer} {c : Char} {cs : List Char} (hr : l.rest = c :: cs)
    (hb : isBlank c = true) (fuel : Nat) :
    lexAux fuel.succ l =
      lexAux fuel.succ ({ l with offset := l.offset + c.utf8Size, rest := cs } : Lexer) := by
  rw [lexAux, lexAux, nextToken_blank hr hb]

theorem lexAux_lexeme {l l' : Lexer} {kind : TokenKind} {text : String} {value : UInt64}
    {taken rest : List Char} {ts : List Token} {fuel : Nat} (hb : NoBlank l.rest)
    (hx : scan l.rest = some ⟨.token kind text value, taken, rest⟩) (hk : kind ≠ .endOfFile)
    (h : lexAux fuel { l with offset := l.offset + Text.byteLength taken, rest := rest } =
      (.ok ts, l')) :
    lexAux fuel.succ l = (.ok (tokenAt l.offset kind text value taken :: ts), l') := by
  have hgap : l.rest = [] ++ l.rest := rfl
  exact lexAux_scan hgap (fun c hc => nomatch hc) hb hx hk h

theorem suffixAt?_eq_none {t : Token} {ts : List Token} {ws : List Content} (h : Carries ts ws)
    (hn : ∀ s, ws.head? ≠ some (.name s)) : suffixAt? ⟨[t], ts⟩ = none := by
  cases hs : suffixAt? ⟨[t], ts⟩ with
  | none => rfl
  | some type =>
    obtain ⟨u, hu, hk, _⟩ := suffixAt?_eq_some_iff.mp hs
    exact absurd hk (Carries.kind_ne (c := ⟨[t], ts⟩) h hu (by decide) (by decide) hn)

theorem lexAux_of_spells {cs : List Char} {ws : List Content} (h : Spells cs ws) :
    ∀ (l : Lexer) (fuel : Nat), l.rest = cs → cs.length < fuel →
      ∃ ts l', lexAux fuel l = (.ok ts, l') ∧ Carries ts ws := by
  induction h with
  | nil =>
    intro l fuel hr hf
    cases fuel with
    | zero => simp at hf
    | succ fuel =>
      rw [lexAux, Lexer.nextToken, hr]
      exact ⟨[], _, rfl, .nil⟩
  | @blank c cs ws hb _ ih =>
    intro l fuel hr hf
    rw [List.length_cons] at hf
    cases fuel with
    | zero => omega
    | succ fuel =>
      rw [lexAux_blank hr hb]
      exact ih _ _ rfl (by omega)
  | @plain cs taken rest kind text value ws hb hx he hn hk _ ih =>
    intro l fuel hr hf
    subst hr
    have hlt : rest.length < l.rest.length := scan_rest_lt hx
    cases fuel with
    | zero => omega
    | succ fuel =>
      obtain ⟨ts, l', hlex, hc⟩ := ih { l with offset := l.offset + Text.byteLength taken, rest }
        fuel rfl (by omega)
      exact ⟨_, l', lexAux_lexeme hb hx he hlex,
        .plain (t := tokenAt l.offset kind text value taken) hn hk hc⟩
  | @boolean cs taken rest text value ws hb hx _ ih =>
    intro l fuel hr hf
    subst hr
    have hlt : rest.length < l.rest.length := scan_rest_lt hx
    cases fuel with
    | zero => omega
    | succ fuel =>
      obtain ⟨ts, l', hlex, hc⟩ := ih { l with offset := l.offset + Text.byteLength taken, rest }
        fuel rfl (by omega)
      exact ⟨_, l', lexAux_lexeme hb hx (by decide) hlex,
        .boolean (t := tokenAt l.offset .boolean text value taken) rfl hc⟩
  | @integer cs taken rest text bits ws hb hx hn _ ih =>
    intro l fuel hr hf
    subst hr
    have hlt : rest.length < l.rest.length := scan_rest_lt hx
    cases fuel with
    | zero => omega
    | succ fuel =>
      obtain ⟨ts, l', hlex, hc⟩ := ih { l with offset := l.offset + Text.byteLength taken, rest }
        fuel rfl (by omega)
      exact ⟨_, l', lexAux_lexeme hb hx (by decide) hlex,
        .integer (t := tokenAt l.offset .number text bits taken) rfl (suffixAt?_eq_none hc hn) hc⟩
  | @suffixed cs taken mid taken' rest text word bits value type ws hb hx hm hy hw hi _ ih =>
    intro l fuel hr hf
    subst hr
    have hlt : mid.length < l.rest.length := scan_rest_lt hx
    have hlt' : rest.length < mid.length := scan_rest_lt hy
    -- one step for the number, one for its suffix
    obtain ⟨fuel, rfl⟩ : ∃ n, fuel = n + 2 := ⟨fuel - 2, by omega⟩
    obtain ⟨ts, l', hlex, hc⟩ := ih
      { l with offset := l.offset + Text.byteLength taken + Text.byteLength taken', rest }
      fuel rfl (by omega)
    have hword := lexAux_lexeme
      (l := { l with offset := l.offset + Text.byteLength taken, rest := mid }) hm hy (by decide)
      hlex
    refine ⟨_, l', lexAux_lexeme hb hx (by decide) hword, ?_⟩
    refine .suffixed (t := tokenAt l.offset .number text bits taken) rfl ?_ hc
    exact suffixAt?_eq_some_iff.mpr ⟨_, rfl, rfl, rfl, hw, hi⟩

/-- **What spells contents is lexed to tokens with these contents.** -/
theorem lex_of_spells {s : String} {ws : List Content} (h : Spells s.toList ws) :
    ∃ ts, lex s = .ok ts ∧ Carries ts ws := by
  obtain ⟨ts, l', hlex, hc⟩ := lexAux_of_spells h (Lexer.ofSource s) (s.toList.length + 1) rfl
    (Nat.lt_succ_self _)
  refine ⟨ts, ?_, hc⟩
  rw [FrontEnd.lex, Lexer.lex]
  exact congrArg Prod.fst hlex

/-! ## Tokens of a source -/

/-- The text of an identifier. -/
structure IsName (s : String) : Prop where
  word : IsWord s.toList
  classified : classify s = (.identifier, 0)

/-- What holds of a token that comes from a source. -/
structure Token.Lexed (t : Token) : Prop where
  identifier : t.kind = .identifier → IsName t.text
  char : t.kind = .char → ∃ v, t.text = v.toString ∧ v ≠ '\''
  boolean : t.kind = .boolean → t.text = if t.value != 0 then "true" else "false"

theorem classify_identifier {s : String} (h : (classify s).1 = .identifier) :
    classify s = (.identifier, 0) := by
  unfold classify at h ⊢
  split at h
  · cases h
  split at h
  · cases h
  split at h
  · cases h
  · rename_i h₁ h₂ h₃
    rw [if_neg h₁, if_neg h₂, if_neg h₃]

theorem classify_boolean {s : String} (h : (classify s).1 = .boolean) :
    s = if (classify s).2 != 0 then "true" else "false" := by
  unfold classify at h ⊢
  split
  · rename_i ht
    exact ht
  split
  · rename_i hf
    exact hf
  · rename_i ht hf
    rw [if_neg ht, if_neg hf] at h
    split at h
    · cases h
    · cases h

/-- What a lexeme means is what a token of a source can be. -/
theorem scan_lexed {cs : List Char} {x : Lexeme} {kind : TokenKind} {text : String}
    {value : UInt64} (h : scan cs = some x) (hx : x.reading = .token kind text value)
    (span : Span) : Token.Lexed ⟨kind, text, value, span⟩ := by
  obtain ⟨reading, taken, rest⟩ := x
  cases hx
  cases tokenAt_of_scan h with
  | number _ _ => exact ⟨nofun, nofun, nofun⟩
  | char hd => exact ⟨nofun, fun _ => ⟨_, rfl, hd.ne_quote⟩, nofun⟩
  | string _ => exact ⟨nofun, nofun, nofun⟩
  | symbol _ => exact ⟨nofun, nofun, nofun⟩
  | word hs hword =>
    refine ⟨fun hk => ⟨hs ▸ hword.isWord, classify_identifier hk⟩, fun hk => ?_,
      classify_boolean⟩
    dsimp only at hk
    rcases classify_kind text with hkind | hkind | hkind
    all_goals
      rw [hkind] at hk
      cases hk
  | unexpected _ => exact ⟨nofun, nofun, nofun⟩

/-- **Every token of a source is one that a lexeme stands for.** -/
theorem lex_lexed {s : String} {ts : List Token} (h : lex s = .ok ts) : ∀ t ∈ ts, t.Lexed :=
  (lex_lexes h).forall_mem fun _ _ _ _ _ span hx hr => scan_lexed hx hr span

end FrontEnd
