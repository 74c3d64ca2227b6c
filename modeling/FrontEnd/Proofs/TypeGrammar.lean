import FrontEnd.Proofs.Layout
import FrontEnd.Proofs.Types

/-!
# The grammar of types

The grammar of types over lists of tokens, with no parser and no place in it: which types a list of
tokens stands for. The parser of types accepts exactly this grammar.

* `TypeGrammar` has a rule for each form of a type, `LengthGrammar` for the length of an array.
* `Cursor.Took` says which tokens lie between two places; `TypeReads.iff_grammar` takes a derivation
  between two places to one over the tokens between them, and back.
* `typeExpr_accepts_grammar`: at every position of every list of tokens the parser reads a type up
  to another position exactly if the tokens between them stand for it, and there is at most one such
  type and end.
-/

set_option autoImplicit false

namespace FrontEnd

open Grammar FrontEnd.Parser

/-! ## The grammar -/

/-- The tokens are the length of an array: a number, and directly after it the word of an integer
type, if any. Only a number that is said to be unsigned may have its highest bit set. -/
inductive LengthGrammar : List Token → UInt64 → Prop where
  | plain {n : Token} (hn : n.kind = .number) (hsmall : n.value.toNat < Word.signBit) :
      LengthGrammar [n] n.value
  | signed {n s : Token} {w : IntWidth} (hn : n.kind = .number) (hs : s.kind = .identifier)
      (hadjacent : s.span.start = n.span.stop)
      (hword : TypeExpr.primitive? s.text = some (.sint w))
      (hsmall : n.value.toNat < Word.signBit) :
      LengthGrammar [n, s] n.value
  | unsigned {n s : Token} {w : IntWidth} (hn : n.kind = .number) (hs : s.kind = .identifier)
      (hadjacent : s.span.start = n.span.stop)
      (hword : TypeExpr.primitive? s.text = some (.uint w)) :
      LengthGrammar [n, s] n.value

/-- The tokens stand for the type. -/
inductive TypeGrammar : List Token → TypeExpr → Prop where
  | builtin {t : Token} {e : TypeExpr} (hk : t.kind = .identifier)
      (hword : TypeExpr.primitive? t.text = some e) :
      TypeGrammar [t] e
  | named {t : Token} (hk : t.kind = .identifier)
      (hword : TypeExpr.primitive? t.text = none) :
      TypeGrammar [t] (.named t.text)
  | unit {o c : Token} (ho : o.is .symbol "(" = true) (hc : c.is .symbol ")" = true) :
      TypeGrammar [o, c] .unit
  | slice {o c : Token} {ts : List Token} {e : TypeExpr} (ho : o.is .symbol "[" = true)
      (he : TypeGrammar ts e) (hc : c.is .symbol "]" = true) :
      TypeGrammar (o :: (ts ++ [c])) (.slice e)
  | array {o d c : Token} {ts ns : List Token} {e : TypeExpr} {size : UInt64}
      (ho : o.is .symbol "[" = true) (he : TypeGrammar ts e) (hd : d.is .symbol ";" = true)
      (hns : LengthGrammar ns size) (hc : c.is .symbol "]" = true) :
      TypeGrammar (o :: (ts ++ d :: (ns ++ [c]))) (.array e size)
  | ref {o : Token} {ts : List Token} {e : TypeExpr} (ho : o.is .symbol "&" = true)
      (he : TypeGrammar ts e) :
      TypeGrammar (o :: ts) (.ref e)
  | refRef {o : Token} {ts : List Token} {e : TypeExpr} (ho : o.is .symbol "&&" = true)
      (he : TypeGrammar ts e) :
      TypeGrammar (o :: ts) (.ref (.ref e))
  | pointer {o : Token} {ts : List Token} {e : TypeExpr} (ho : o.is .symbol "*" = true)
      (he : TypeGrammar ts e) :
      TypeGrammar (o :: ts) (.pointer e)

/-- The tokens from position `p` up to, but not including, position `q` stand for the type. -/
structure TypeStands (tokens : List Token) (p q : Nat) (e : TypeExpr) : Prop where
  ordered : p ≤ q
  bounded : q ≤ tokens.length
  grammar : TypeGrammar (tokens.extract p q) e

/-! ## The tokens between two places -/

namespace Cursor

/-- The place at a position of a list of tokens. -/
def atPosition (tokens : List Token) (p : Nat) : Cursor :=
  ⟨(tokens.take p).reverse, tokens.drop p⟩

/-- Exactly these tokens lie between the two places. -/
def Took (ts : List Token) (c c' : Cursor) : Prop :=
  c.rest = ts ++ c'.rest ∧ c'.passed = ts.reverse ++ c.passed

theorem took_nil {c c' : Cursor} : Took [] c c' ↔ c' = c := by
  obtain ⟨passed, rest⟩ := c
  obtain ⟨passed', rest'⟩ := c'
  simp [Took, and_comm, eq_comm]

theorem took_cons {t : Token} {ts : List Token} {c c' : Cursor} :
    Took (t :: ts) c c' ↔ c.peek? = some t ∧ Took ts c.next c' := by
  obtain ⟨passed, rest⟩ := c
  cases rest with
  | nil => simp [Took, peek?]
  | cons u us =>
    simp only [Took, peek?, next, read, List.head?_cons, Option.some.injEq, List.cons_append,
      List.cons.injEq, List.reverse_cons, List.append_assoc, List.nil_append]
    constructor
    · rintro ⟨⟨rfl, hrest⟩, hpassed⟩
      exact ⟨rfl, hrest, hpassed⟩
    · rintro ⟨rfl, hrest, hpassed⟩
      exact ⟨⟨rfl, hrest⟩, hpassed⟩

theorem took_append {ts us : List Token} {c c' : Cursor} :
    Took (ts ++ us) c c' ↔ ∃ c₁, Took ts c c₁ ∧ Took us c₁ c' := by
  induction ts generalizing c with
  | nil => simp [took_nil]
  | cons t ts ih => simp [took_cons, ih, and_assoc]

theorem took_singleton {t : Token} {c c' : Cursor} :
    Took [t] c c' ↔ c.peek? = some t ∧ c' = c.next := by
  rw [took_cons, took_nil]

/-- What lies between two places of one list is read off their positions. -/
theorem Took.extract {tokens ts : List Token} {p : Nat} {c' : Cursor}
    (h : Took ts (atPosition tokens p) c') (hp : p ≤ tokens.length) :
    c'.position = p + ts.length ∧ p + ts.length ≤ tokens.length ∧
      tokens.extract p c'.position = ts := by
  obtain ⟨hrest, hpassed⟩ := h
  have hdrop : tokens.drop p = ts ++ c'.rest := hrest
  have hposition : c'.position = p + ts.length := by
    rw [position, hpassed]
    simp [atPosition, Nat.min_eq_left hp, Nat.add_comm]
  have hlength := congrArg List.length hdrop
  rw [List.length_drop, List.length_append] at hlength
  refine ⟨hposition, by omega, ?_⟩
  rw [List.extract_eq_take_drop, hposition, hdrop, Nat.add_sub_cancel_left, List.take_left]

theorem took_atPosition {tokens : List Token} {p q : Nat} (hpq : p ≤ q) :
    Took (tokens.extract p q) (atPosition tokens p) (atPosition tokens q) := by
  have hdrop : tokens.drop p = tokens.extract p q ++ tokens.drop q := by
    rw [List.extract_eq_take_drop]
    conv_lhs => rw [← List.take_append_drop (q - p) (tokens.drop p), List.drop_drop,
      Nat.add_sub_cancel' hpq]
  have htake : tokens.take q = tokens.take p ++ tokens.extract p q := by
    rw [List.extract_eq_take_drop, ← List.take_add, Nat.add_sub_cancel' hpq]
  refine ⟨hdrop, ?_⟩
  show (tokens.take q).reverse = _
  rw [htake, List.reverse_append]
  rfl

end Cursor

/-! ## Derivations between places and over tokens -/

open Cursor

theorem arraySize?_integer {bits size : UInt64} {type : TypeExpr} :
    arraySize? (.integer bits type) = some size ↔
      (type.isSignedInteger = true → bits.toNat < Word.signBit) ∧ bits = size := by
  have hsmall : Word.isNegative bits = false ↔ bits.toNat < Word.signBit := by
    rw [← Bool.not_eq_true, Word.isNegative_iff, Nat.not_le]
  rw [← hsmall]
  unfold arraySize?
  cases hsigned : type.isSignedInteger <;> cases hneg : Word.isNegative bits <;>
    simp [hsigned, hneg]

/-- The length of an array between two places is one over the tokens between them. -/
theorem LengthGrammar.of_reads {a : Terminal} {size : UInt64} {c c' : Cursor}
    (ha : TerminalReads a c c') (hsize : arraySize? a = some size) :
    ∃ ns, Took ns c c' ∧ LengthGrammar ns size := by
  cases ha with
  | @number _ t ht hk _ =>
    obtain ⟨hsmall, rfl⟩ := arraySize?_integer.mp hsize
    exact ⟨[t], took_singleton.mpr ⟨ht, rfl⟩, .plain hk (hsmall rfl)⟩
  | @suffixed _ t type ht hk hs =>
    obtain ⟨u, hu, hku, hadjacent, hword, hint⟩ := suffixAt?_eq_some_iff.mp hs
    rw [lastSpan_next ht] at hadjacent
    obtain ⟨hsmall, rfl⟩ := arraySize?_integer.mp hsize
    refine ⟨[t, u], took_cons.mpr ⟨ht, took_singleton.mpr ⟨hu, rfl⟩⟩, ?_⟩
    cases type with
    | sint w => exact .signed hk hku hadjacent hword (hsmall rfl)
    | uint w => exact .unsigned hk hku hadjacent hword
    | _ => cases hint
  | _ => cases hsize

/-- Where a bracket follows, a length over tokens is one between the places around them: the bracket
is no suffix of the number. -/
theorem LengthGrammar.reads {ns : List Token} {size : UInt64} {c c' : Cursor}
    (h : LengthGrammar ns size) (htook : Took ns c c') (hc : c'.nextIs .symbol "]" = true) :
    ∃ a, TerminalReads a c c' ∧ arraySize? a = some size := by
  cases h with
  | @plain n hn hsmall =>
    obtain ⟨ht, rfl⟩ := took_singleton.mp htook
    have hs : suffixAt? c.next = none := by
      obtain ⟨u, hu, hk, _⟩ := nextIs_iff.mp hc
      simp [suffixAt?, hu, hk]
    exact ⟨_, .number ht hn hs, arraySize?_integer.mpr ⟨fun _ => hsmall, rfl⟩⟩
  | @signed n s w hn hs hadjacent hword hsmall =>
    obtain ⟨ht, htook⟩ := took_cons.mp htook
    obtain ⟨hu, rfl⟩ := took_singleton.mp htook
    have hsuffix : suffixAt? c.next = some (.sint w) :=
      suffixAt?_eq_some_iff.mpr ⟨s, hu, hs, by rw [lastSpan_next ht, hadjacent], hword, rfl⟩
    exact ⟨_, .suffixed ht hn hsuffix, arraySize?_integer.mpr ⟨fun _ => hsmall, rfl⟩⟩
  | @unsigned n s w hn hs hadjacent hword =>
    obtain ⟨ht, htook⟩ := took_cons.mp htook
    obtain ⟨hu, rfl⟩ := took_singleton.mp htook
    have hsuffix : suffixAt? c.next = some (.uint w) :=
      suffixAt?_eq_some_iff.mpr ⟨s, hu, hs, by rw [lastSpan_next ht, hadjacent], hword, rfl⟩
    exact ⟨_, .suffixed ht hn hsuffix, arraySize?_integer.mpr ⟨fun h => (nomatch h), rfl⟩⟩

theorem took_of_nextIs {c : Cursor} {kind : TokenKind} {text : String}
    (h : c.nextIs kind text = true) : ∃ t, Took [t] c c.next ∧ t.is kind text = true := by
  obtain ⟨t, ht, hk, hx⟩ := nextIs_iff.mp h
  exact ⟨t, took_singleton.mpr ⟨ht, rfl⟩, Token.is_iff.mpr ⟨hk, hx⟩⟩

theorem nextIs_of_peek {c : Cursor} {t : Token} {kind : TokenKind} {text : String}
    (ht : c.peek? = some t) (h : t.is kind text = true) : c.nextIs kind text = true := by
  rw [nextIs_eq_of_peek ht, h]

theorem TypeGrammar.word {t : Token} (hk : t.kind = .identifier) :
    TypeGrammar [t] (.ofWord t.text) := by
  unfold TypeExpr.ofWord
  cases hword : TypeExpr.primitive? t.text with
  | none => exact .named hk hword
  | some e => exact .builtin hk hword

/-- A type between two places is one over the tokens between them. -/
theorem TypeReads.grammar {e : TypeExpr} {c c' : Cursor} (h : TypeReads e c c') :
    ∃ ts, Took ts c c' ∧ TypeGrammar ts e := by
  induction h with
  | word ht hk => exact ⟨_, took_singleton.mpr ⟨ht, rfl⟩, .word hk⟩
  | unit ho hc =>
    obtain ⟨o, hto, ho⟩ := took_of_nextIs ho
    obtain ⟨t, htc, hc⟩ := took_of_nextIs hc
    exact ⟨[o] ++ [t], took_append.mpr ⟨_, hto, htc⟩, .unit ho hc⟩
  | slice ho _ hc ih =>
    obtain ⟨o, hto, ho⟩ := took_of_nextIs ho
    obtain ⟨ts, hts, he⟩ := ih
    obtain ⟨t, htc, hc⟩ := took_of_nextIs hc
    exact ⟨[o] ++ (ts ++ [t]), took_append.mpr ⟨_, hto, took_append.mpr ⟨_, hts, htc⟩⟩,
      .slice ho he hc⟩
  | array ho _ hd ha hs hc ih =>
    obtain ⟨o, hto, ho⟩ := took_of_nextIs ho
    obtain ⟨ts, hts, he⟩ := ih
    obtain ⟨d, htd, hd⟩ := took_of_nextIs hd
    obtain ⟨ns, hns, hlength⟩ := LengthGrammar.of_reads ha hs
    obtain ⟨t, htc, hc⟩ := took_of_nextIs hc
    have htail : Took ([d] ++ (ns ++ [t])) _ _ :=
      took_append.mpr ⟨_, htd, took_append.mpr ⟨_, hns, htc⟩⟩
    exact ⟨[o] ++ (ts ++ ([d] ++ (ns ++ [t]))),
      took_append.mpr ⟨_, hto, took_append.mpr ⟨_, hts, htail⟩⟩, .array ho he hd hlength hc⟩
  | ref ho _ ih =>
    obtain ⟨o, hto, ho⟩ := took_of_nextIs ho
    obtain ⟨ts, hts, he⟩ := ih
    exact ⟨[o] ++ ts, took_append.mpr ⟨_, hto, hts⟩, .ref ho he⟩
  | refRef ho _ ih =>
    obtain ⟨o, hto, ho⟩ := took_of_nextIs ho
    obtain ⟨ts, hts, he⟩ := ih
    exact ⟨[o] ++ ts, took_append.mpr ⟨_, hto, hts⟩, .refRef ho he⟩
  | pointer ho _ ih =>
    obtain ⟨o, hto, ho⟩ := took_of_nextIs ho
    obtain ⟨ts, hts, he⟩ := ih
    exact ⟨[o] ++ ts, took_append.mpr ⟨_, hto, hts⟩, .pointer ho he⟩

/-- A type over tokens is one between any two places around them. -/
theorem TypeGrammar.reads {ts : List Token} {e : TypeExpr} (h : TypeGrammar ts e) :
    ∀ {c c' : Cursor}, Took ts c c' → TypeReads e c c' := by
  induction h with
  | @builtin t e hk hword =>
    intro c c' htook
    obtain ⟨ht, rfl⟩ := took_singleton.mp htook
    have hr := TypeReads.word ht hk
    rwa [TypeExpr.ofWord, hword] at hr
  | @named t hk hword =>
    intro c c' htook
    obtain ⟨ht, rfl⟩ := took_singleton.mp htook
    have hr := TypeReads.word ht hk
    rwa [TypeExpr.ofWord, hword] at hr
  | unit ho hc =>
    intro c c' htook
    obtain ⟨hto, htook⟩ := took_cons.mp htook
    obtain ⟨htc, rfl⟩ := took_singleton.mp htook
    exact .unit (nextIs_of_peek hto ho) (nextIs_of_peek htc hc)
  | slice ho _ hc ih =>
    intro c c' htook
    obtain ⟨hto, htook⟩ := took_cons.mp htook
    obtain ⟨c₁, hts, htook⟩ := took_append.mp htook
    obtain ⟨htc, rfl⟩ := took_singleton.mp htook
    exact .slice (nextIs_of_peek hto ho) (ih hts) (nextIs_of_peek htc hc)
  | array ho _ hd hns hc ih =>
    intro c c' htook
    obtain ⟨hto, htook⟩ := took_cons.mp htook
    obtain ⟨c₁, hts, htook⟩ := took_append.mp htook
    obtain ⟨htd, htook⟩ := took_cons.mp htook
    obtain ⟨c₂, htn, htook⟩ := took_append.mp htook
    obtain ⟨htc, rfl⟩ := took_singleton.mp htook
    have hclose := nextIs_of_peek htc hc
    obtain ⟨a, ha, hsize⟩ := hns.reads htn hclose
    exact .array (nextIs_of_peek hto ho) (ih hts) (nextIs_of_peek htd hd) ha hsize hclose
  | ref ho _ ih =>
    intro c c' htook
    obtain ⟨hto, htook⟩ := took_cons.mp htook
    exact .ref (nextIs_of_peek hto ho) (ih htook)
  | refRef ho _ ih =>
    intro c c' htook
    obtain ⟨hto, htook⟩ := took_cons.mp htook
    exact .refRef (nextIs_of_peek hto ho) (ih htook)
  | pointer ho _ ih =>
    intro c c' htook
    obtain ⟨hto, htook⟩ := took_cons.mp htook
    exact .pointer (nextIs_of_peek hto ho) (ih htook)

/-- Derivations between two places are derivations over the tokens between them. -/
theorem TypeReads.iff_grammar {e : TypeExpr} {c c' : Cursor} :
    TypeReads e c c' ↔ ∃ ts, Took ts c c' ∧ TypeGrammar ts e :=
  ⟨TypeReads.grammar, fun ⟨_, htook, h⟩ => h.reads htook⟩

/-! ## The parser and the grammar -/

theorem TypeGrammar.ne_nil {ts : List Token} {e : TypeExpr} (h : TypeGrammar ts e) : ts ≠ [] := by
  cases h <;> simp

/-- A run that reads a type ends at a later position, and the tokens up to it stand for the type;
from a position, every such stretch of tokens is read. -/
theorem typeExpr_run_iff_stands {tokens : List Token} {p q : Nat} {e : TypeExpr} :
    (∃ c', typeExpr.run (atPosition tokens p) = (.ok e, c') ∧ c'.position = q) ↔
      TypeStands tokens p q e := by
  constructor
  · rintro ⟨c', hrun, rfl⟩
    obtain ⟨ts, htook, h⟩ := TypeReads.iff_grammar.mp (typeExpr_run_iff.mp hrun)
    have hp : p ≤ tokens.length := by
      rcases Nat.lt_or_ge tokens.length p with hlt | hle
      · -- past the end there is no token, and every type takes one
        have hnil : ts ++ c'.rest = [] := by
          rw [← htook.1]
          exact List.drop_eq_nil_of_le (Nat.le_of_lt hlt)
        exact absurd (List.append_eq_nil_iff.mp hnil).1 h.ne_nil
      · exact hle
    obtain ⟨hposition, hle, hextract⟩ := htook.extract hp
    exact ⟨by omega, by omega, by rwa [hextract]⟩
  · rintro ⟨hpq, hq, h⟩
    have hreads := TypeReads.iff_grammar.mpr ⟨_, took_atPosition hpq, h⟩
    refine ⟨atPosition tokens q, typeExpr_run_iff.mpr hreads, ?_⟩
    simp [position, atPosition, hq]

/-- **The parser of types accepts exactly the grammar of types**: at every position of every list of
tokens it reads a type up to a position exactly if the tokens up to there stand for the type, and
at most one stretch of tokens from that position stands for a type, and for only one. -/
theorem typeExpr_accepts_grammar (tokens : List Token) (p : Nat) :
    (∀ q e, (∃ c', typeExpr.run (atPosition tokens p) = (.ok e, c') ∧ c'.position = q) ↔
        TypeStands tokens p q e) ∧
      ∀ q e q' e', TypeStands tokens p q e → TypeStands tokens p q' e' → q = q' ∧ e = e' := by
  refine ⟨fun q e => typeExpr_run_iff_stands, fun q e q' e' h h' => ?_⟩
  obtain ⟨c, hrun, rfl⟩ := typeExpr_run_iff_stands.mpr h
  obtain ⟨c', hrun', rfl⟩ := typeExpr_run_iff_stands.mpr h'
  rw [hrun] at hrun'
  cases hrun'
  exact ⟨rfl, rfl⟩

end FrontEnd
