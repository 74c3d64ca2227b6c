import FrontEnd.Proofs.Derivation

/-!
# Derivations of types

The grammar of types as a relation between two places of one token list.

* `TypeReads` has a constructor for each form of a type; `&&` is two references.
* `typeExpr_run_iff`: `Grammar.typeExpr` reads exactly the types of the grammar.
* `TypeReads.start`: the tokens that a type can start with.
-/

set_option autoImplicit false

namespace FrontEnd

open Grammar FrontEnd.Parser

/-- The type that a word is written for: a built-in one, or one with that name. -/
def TypeExpr.ofWord (word : String) : TypeExpr := (TypeExpr.primitive? word).getD (.named word)

/-- The type stands between the two places. -/
inductive TypeReads : TypeExpr → Cursor → Cursor → Prop where
  | word {c : Cursor} {t : Token} (ht : c.peek? = some t) (hk : t.kind = .identifier) :
      TypeReads (.ofWord t.text) c c.next
  | unit {c : Cursor} (ho : c.nextIs .symbol "(" = true)
      (hc : c.next.nextIs .symbol ")" = true) :
      TypeReads .unit c c.next.next
  | slice {c c₁ : Cursor} {e : TypeExpr} (ho : c.nextIs .symbol "[" = true)
      (he : TypeReads e c.next c₁) (hc : c₁.nextIs .symbol "]" = true) :
      TypeReads (.slice e) c c₁.next
  | array {c c₁ c₂ : Cursor} {e : TypeExpr} {a : Terminal} {size : UInt64}
      (ho : c.nextIs .symbol "[" = true) (he : TypeReads e c.next c₁)
      (hd : c₁.nextIs .symbol ";" = true) (ha : TerminalReads a c₁.next c₂)
      (hs : arraySize? a = some size) (hc : c₂.nextIs .symbol "]" = true) :
      TypeReads (.array e size) c c₂.next
  | ref {c c' : Cursor} {e : TypeExpr} (ho : c.nextIs .symbol "&" = true)
      (he : TypeReads e c.next c') :
      TypeReads (.ref e) c c'
  | refRef {c c' : Cursor} {e : TypeExpr} (ho : c.nextIs .symbol "&&" = true)
      (he : TypeReads e c.next c') :
      TypeReads (.ref (.ref e)) c c'
  | pointer {c c' : Cursor} {e : TypeExpr} (ho : c.nextIs .symbol "*" = true)
      (he : TypeReads e c.next c') :
      TypeReads (.pointer e) c c'

theorem TypeReads.progress {e : TypeExpr} {c c' : Cursor} (h : TypeReads e c c') :
    c'.rest.length < c.rest.length := by
  induction h with
  | word ht _ => exact Cursor.rest_next_lt ht
  | unit ho hc =>
    exact Nat.lt_trans (Cursor.rest_next_lt_of_nextIs hc) (Cursor.rest_next_lt_of_nextIs ho)
  | slice ho _ hc ih =>
    have := Cursor.rest_next_lt_of_nextIs ho
    have := Cursor.rest_next_lt_of_nextIs hc
    omega
  | array ho _ hd ha _ hc ih =>
    have := Cursor.rest_next_lt_of_nextIs ho
    have := Cursor.rest_next_lt_of_nextIs hd
    have := ha.progress
    have := Cursor.rest_next_lt_of_nextIs hc
    omega
  | ref ho _ ih =>
    have := Cursor.rest_next_lt_of_nextIs ho
    omega
  | refRef ho _ ih =>
    have := Cursor.rest_next_lt_of_nextIs ho
    omega
  | pointer ho _ ih =>
    have := Cursor.rest_next_lt_of_nextIs ho
    omega

/-! ## The length and the end of an array -/

theorem arrayLength_run_eq_ok {c c' : Cursor} {size : UInt64} :
    arrayLength.run c = (.ok size, c') ↔
      ∃ a, TerminalReads a c c' ∧ arraySize? a = some size := by
  unfold arrayLength
  rw [run_bind_ok (run_nextSpan c), run_bind_eq_ok]
  constructor
  · rintro ⟨a, c₁, ha, h⟩
    split at h
    · rename_i n hn
      rw [run_pure] at h
      cases h
      exact ⟨a, .of_run ha, hn⟩
    · rw [run_bind_ok (run_spanSince _ c₁)] at h
      simp at h
  · rintro ⟨a, ha, hs⟩
    refine ⟨a, c', ha.run, ?_⟩
    rw [hs]
    rfl

theorem arrayTail_run_eq_ok {inner : Parser TypeExpr} {c c' : Cursor} {e : TypeExpr} :
    (arrayTail inner).run c = (.ok e, c') ↔
      ∃ e₁ c₁, inner.run c = (.ok e₁, c₁) ∧
        ((c₁.nextIs .symbol ";" = true ∧ ∃ a size c₂, TerminalReads a c₁.next c₂ ∧
            arraySize? a = some size ∧ c₂.nextIs .symbol "]" = true ∧ e = .array e₁ size ∧
            c' = c₂.next) ∨
          (c₁.nextIs .symbol ";" = false ∧ c₁.nextIs .symbol "]" = true ∧ e = .slice e₁ ∧
            c' = c₁.next)) := by
  unfold arrayTail
  rw [run_bind_eq_ok]
  refine exists_congr fun e₁ => exists_congr fun c₁ => and_congr_right fun _ => ?_
  rw [run_bind_ok (run_accept _ _ c₁)]
  cases hd : c₁.nextIs .symbol ";" with
  | true =>
    rw [if_pos rfl, Cursor.skipIf_of hd, run_bind_eq_ok]
    constructor
    · rintro ⟨size, c₂, hs, h⟩
      obtain ⟨a, ha, hsize⟩ := arrayLength_run_eq_ok.mp hs
      obtain ⟨hc, h⟩ := run_require_skip.mp h
      rw [run_pure] at h
      cases h
      exact .inl ⟨rfl, a, size, c₂, ha, hsize, hc, rfl, rfl⟩
    · rintro (⟨_, a, size, c₂, ha, hsize, hc, rfl, rfl⟩ | ⟨hn, _⟩)
      · exact ⟨size, c₂, arrayLength_run_eq_ok.mpr ⟨a, ha, hsize⟩, run_require_skip.mpr ⟨hc, rfl⟩⟩
      · cases hn
  | false =>
    rw [if_neg (by simp), Cursor.skipIf_of_not hd, run_require_skip]
    constructor
    · rintro ⟨hc, h⟩
      rw [run_pure] at h
      cases h
      exact .inr ⟨rfl, hc, rfl, rfl⟩
    · rintro (⟨hn, _⟩ | ⟨_, hc, rfl, rfl⟩)
      · cases hn
      · exact ⟨hc, rfl⟩

/-! ## The parser reads the grammar -/

theorem typeStep_reads {inner : Parser TypeExpr} (hin : inner.Yields TypeReads) :
    (typeStep inner).Yields TypeReads := by
  intro c e c' h
  unfold typeStep at h
  rw [run_withCursor] at h
  split at h
  · simp at h
  rename_i t ht
  split at h
  · rename_i hk
    rw [run_readAs] at h
    cases h
    exact .word ht hk
  rename_i hk
  rw [← Cursor.nextIs_eq_of_peek ht, ← Cursor.nextIs_eq_of_peek ht, ← Cursor.nextIs_eq_of_peek ht,
    ← Cursor.nextIs_eq_of_peek ht, ← Cursor.nextIs_eq_of_peek ht, Cursor.nextIsAt_one ht] at h
  split at h
  · rename_i hu
    rw [Bool.and_eq_true] at hu
    rw [run_bind_ok (run_read c), run_bind_ok (run_read c.next), run_pure] at h
    cases h
    exact .unit hu.1 hu.2
  split at h
  · rename_i ho
    rw [run_bind_ok (run_read c), run_within_eq_ok] at h
    obtain ⟨e₁, c₁, he, hcase⟩ := arrayTail_run_eq_ok.mp h
    rcases hcase with ⟨hd, a, size, c₂, ha, hs, hc, rfl, rfl⟩ | ⟨_, hc, rfl, rfl⟩
    · exact .array ho (hin _ _ _ he) hd ha hs hc
    · exact .slice ho (hin _ _ _ he) hc
  split at h
  · rename_i ho
    rw [run_bind_ok (run_read c), run_bind_eq_ok] at h
    obtain ⟨e₁, c₁, he, h⟩ := h
    cases h
    exact .ref ho (hin _ _ _ he)
  split at h
  · rename_i ho
    rw [run_bind_ok (run_read c), run_bind_eq_ok] at h
    obtain ⟨e₁, c₁, he, h⟩ := h
    cases h
    exact .refRef ho (hin _ _ _ he)
  split at h
  · rename_i ho
    rw [run_bind_ok (run_read c), run_bind_eq_ok] at h
    obtain ⟨e₁, c₁, he, h⟩ := h
    cases h
    exact .pointer ho (hin _ _ _ he)
  · simp at h

theorem typeAt_yields (depth : Nat) : (typeAt depth).Yields TypeReads := by
  induction depth with
  | zero =>
    intro c e c' h
    simp [typeAt] at h
  | succ depth ih =>
    rw [typeAt_succ]
    exact typeStep_reads ih

/-- What a type that starts with a symbol is read as, told by the symbol. -/
theorem typeStep_run_symbol {inner : Parser TypeExpr} {c : Cursor} {s : String}
    (h : c.nextIs .symbol s = true) :
    (typeStep inner).run c =
      if s == "(" && c.next.nextIs .symbol ")" then (.ok .unit, c.next.next)
      else if s == "[" then ((arrayTail inner).within "an array type").run c.next
      else if s == "&" then (inner >>= fun target => pure (.ref target)).run c.next
      else if s == "&&" then (inner >>= fun target => pure (.ref (.ref target))).run c.next
      else if s == "*" then (inner >>= fun target => pure (.pointer target)).run c.next
      else (typeStep inner).run c := by
  obtain ⟨t, ht, hk, rfl⟩ := Cursor.nextIs_iff.mp h
  unfold typeStep
  rw [run_withCursor, ht]
  simp only [hk, Token.is, Cursor.nextIsAt_one ht, beq_self_eq_true, Bool.true_and, reduceCtorEq,
    if_false]
  split
  · rw [run_bind_ok (run_read c), run_bind_ok (run_read c.next), run_pure]
  split
  · rw [run_bind_ok (run_read c)]
  split
  · rw [run_bind_ok (run_read c)]
  split
  · rw [run_bind_ok (run_read c)]
  split
  · rw [run_bind_ok (run_read c)]
  · rfl

theorem TypeReads.run {e : TypeExpr} {c c' : Cursor} (h : TypeReads e c c') :
    ∀ depth, c.rest.length < depth → (typeAt depth).run c = (.ok e, c') := by
  induction h with
  | word ht hk =>
    intro depth hd
    cases depth with
    | zero => omega
    | succ depth =>
      rw [typeAt_succ]
      unfold typeStep
      rw [run_withCursor, ht]
      simp only [hk, if_true]
      exact run_readAs _ _
  | unit ho hc =>
    intro depth hd
    cases depth with
    | zero => omega
    | succ depth => rw [typeAt_succ, typeStep_run_symbol ho, hc]; rfl
  | slice ho he hc ih =>
    intro depth hd
    cases depth with
    | zero => omega
    | succ depth =>
      have hlt := Cursor.rest_next_lt_of_nextIs ho
      rw [typeAt_succ, typeStep_run_symbol ho, if_neg (by simp), if_pos (by simp),
        run_within_eq_ok, arrayTail_run_eq_ok]
      refine ⟨_, _, ih depth (by omega), .inr ⟨?_, hc, rfl, rfl⟩⟩
      exact Cursor.nextIs_disjoint hc (.inr (by decide))
  | array ho he hd ha hs hc ih =>
    intro depth hdepth
    cases depth with
    | zero => omega
    | succ depth =>
      have hlt := Cursor.rest_next_lt_of_nextIs ho
      rw [typeAt_succ, typeStep_run_symbol ho, if_neg (by simp), if_pos (by simp),
        run_within_eq_ok, arrayTail_run_eq_ok]
      exact ⟨_, _, ih depth (by omega), .inl ⟨hd, _, _, _, ha, hs, hc, rfl, rfl⟩⟩
  | ref ho he ih =>
    intro depth hd
    cases depth with
    | zero => omega
    | succ depth =>
      have hlt := Cursor.rest_next_lt_of_nextIs ho
      rw [typeAt_succ, typeStep_run_symbol ho, if_neg (by simp), if_neg (by simp),
        if_pos (by simp), run_bind_ok (ih depth (by omega))]
      rfl
  | refRef ho he ih =>
    intro depth hd
    cases depth with
    | zero => omega
    | succ depth =>
      have hlt := Cursor.rest_next_lt_of_nextIs ho
      rw [typeAt_succ, typeStep_run_symbol ho, if_neg (by simp), if_neg (by simp),
        if_neg (by simp), if_pos (by simp), run_bind_ok (ih depth (by omega))]
      rfl
  | pointer ho he ih =>
    intro depth hd
    cases depth with
    | zero => omega
    | succ depth =>
      have hlt := Cursor.rest_next_lt_of_nextIs ho
      rw [typeAt_succ, typeStep_run_symbol ho, if_neg (by simp), if_neg (by simp),
        if_neg (by simp), if_neg (by simp), if_pos (by simp), run_bind_ok (ih depth (by omega))]
      rfl

/-- **The parser of types reads exactly the types of the grammar.** -/
theorem typeExpr_run_iff {e : TypeExpr} {c c' : Cursor} :
    typeExpr.run c = (.ok e, c') ↔ TypeReads e c c' := by
  unfold typeExpr
  rw [run_withFuel]
  exact ⟨typeAt_yields _ c e c', fun h => h.run _ (Nat.lt_succ_self _)⟩

/-- A type starts with a word or with one of five symbols. -/
theorem TypeReads.start {e : TypeExpr} {c c' : Cursor} (h : TypeReads e c c') :
    ∃ t, c.peek? = some t ∧ (t.kind = .identifier ∨
      (t.kind = .symbol ∧ t.text ∈ ["(", "[", "&", "&&", "*"])) := by
  cases h with
  | word ht hk => exact ⟨_, ht, .inl hk⟩
  | unit ho _ | slice ho _ _ | array ho _ _ _ _ _ | ref ho _ | refRef ho _ | pointer ho _ =>
    obtain ⟨t, ht, hk, hx⟩ := Cursor.nextIs_iff.mp ho
    exact ⟨t, ht, .inr ⟨hk, by simp [hx]⟩⟩

end FrontEnd
