import FrontEnd.Proofs.CorrespondingRuns

/-!
# What a declaration depends on

A production looks at the tokens ahead and at the last token passed, and at no other. So two runs
from places that agree in these give the same result, whatever was read before.

* `Cursor.Alike` is that agreement of two places; `locality` is the correspondence of such places,
  with equal trees and errors.
* `declaration_agrees`: a declaration depends on the tokens ahead alone, since it starts by taking
  one.
-/

set_option autoImplicit false

namespace FrontEnd

open Grammar FrontEnd.Parser

/-! ## Places -/

namespace Cursor

/-- The tokens ahead are the same, and so is the last one passed. -/
structure Alike (c d : Cursor) : Prop where
  rest : c.rest = d.rest
  last : c.passed.head? = d.passed.head?

variable {c d : Cursor}

theorem Alike.lastSpan (h : c.Alike d) : c.lastSpan = d.lastSpan := by
  obtain ⟨p, r⟩ := c
  obtain ⟨q, s⟩ := d
  have hlast := h.last
  cases p <;> cases q <;> simp_all [Cursor.lastSpan]

theorem Alike.nextSpan (h : c.Alike d) : c.nextSpan = d.nextSpan := by
  obtain ⟨p, r⟩ := c
  obtain ⟨q, s⟩ := d
  obtain rfl : r = s := h.rest
  have hlast := h.last
  cases r with
  | cons t ts => rfl
  | nil => cases p <;> cases q <;> simp_all [Cursor.nextSpan]

theorem nextSpan_of_rest (h : c.rest = d.rest) (hne : c.rest ≠ []) : c.nextSpan = d.nextSpan := by
  obtain ⟨p, r⟩ := c
  obtain ⟨q, s⟩ := d
  obtain rfl : r = s := h
  cases r with
  | nil => exact absurd rfl hne
  | cons t ts => rfl

/-- After one token is passed the places are alike, whatever was passed before. -/
theorem alike_next (h : c.rest = d.rest) (hne : c.rest ≠ []) : c.next.Alike d.next := by
  obtain ⟨p, r⟩ := c
  obtain ⟨q, s⟩ := d
  obtain rfl : r = s := h
  cases r with
  | nil => exact absurd rfl hne
  | cons t ts => exact ⟨rfl, rfl⟩

theorem Alike.next (h : c.Alike d) : c.next.Alike d.next := by
  by_cases hne : c.rest = []
  · obtain ⟨p, r⟩ := c
    obtain ⟨q, s⟩ := d
    obtain rfl : r = s := h.rest
    obtain rfl : r = [] := hne
    exact ⟨rfl, h.last⟩
  · exact alike_next h.rest hne

theorem Alike.suffixAt? (h : c.Alike d) : Grammar.suffixAt? c = Grammar.suffixAt? d := by
  unfold Grammar.suffixAt? Cursor.peek?
  rw [h.rest, h.lastSpan]

end Cursor

open Cursor

/-! ## Equal trees -/

theorem Branch.eq_of_related {b b' : Branch} (h : Branch.Related Eq b b') : b = b' := by
  cases h with
  | guarded hc hb => rw [hc, hb]
  | always hb => rw [hb]

theorem eq_of_forall₂ {α : Type} {R : α → α → Prop} (hR : ∀ a b, R a b → a = b) {as bs : List α}
    (h : List.Forall₂ R as bs) : as = bs := by
  have heq := h.imp hR
  rwa [List.forall₂_eq_eq_eq] at heq

/-- Trees that are equal. -/
def TreeRelation.equality : TreeRelation where
  span := Eq
  expr := Eq
  parameter := Eq
  member := Eq
  function := Eq
  struct := Eq
  merge hs ht := by rw [hs, ht]
  spanOf he := by rw [he]
  atom _ hs := by rw [hs]
  unary _ hs he := by rw [hs, he]
  binary _ hs hl hr := by rw [hs, hl, hr]
  tuple hs hes := by rw [hs, eq_of_forall₂ (fun _ _ => id) hes]
  call hs he hes := by rw [hs, he, eq_of_forall₂ (fun _ _ => id) hes]
  block hs hes := by rw [hs, eq_of_forall₂ (fun _ _ => id) hes]
  ifChain hs hbs := by
    rw [hs, eq_of_forall₂ (fun _ _ => Branch.eq_of_related) hbs]
  loop hs he := by rw [hs, he]
  accessor _ hs he := by rw [hs, he]
  parameterNode _ _ hs := by rw [hs]
  memberNode _ _ _ hs := by rw [hs]
  functionNode _ _ _ _ hs hps hbody := by
    rw [hs, eq_of_forall₂ (fun _ _ => id) hps]
    cases hbody with
    | some he => rw [he]
    | none => rfl
  structNode _ hs hms := by rw [hs, eq_of_forall₂ (fun _ _ => id) hms]

/-- Places that are alike, with equal trees and errors. -/
def locality : Correspondence where
  toTreeRelation := .equality
  place := Alike
  errorSpan := Eq
  words h := by rw [h.rest]
  next h _ _ := h.next
  suffix h _ _ := h.next.suffixAt?
  nextSpan h := h.nextSpan
  lastSpan h := h.lastSpan
  errorNext h := h.nextSpan
  errorSince h h' _ := by rw [h.nextSpan, h'.lastSpan]
  errorOrder hs ht := by rw [hs, ht]

theorem locality_start {c d : Cursor} (hrest : c.rest = d.rest) (hne : c.rest ≠ []) :
    locality.Start c d := by
  have hwords : c.rest.map Token.word = d.rest.map Token.word := by rw [hrest]
  have hspan : c.nextSpan = d.nextSpan := nextSpan_of_rest hrest hne
  have hsame := nextIs_of_words hwords .keyword "extern"
  have hnext := alike_next hrest hne
  have hskip : (c.skipIf .keyword "extern").nextSpan = (d.skipIf .keyword "extern").nextSpan := by
    unfold Cursor.skipIf
    rw [← hsame]
    split
    · exact hnext.nextSpan
    · exact hspan
  have hhead : c.afterHead.Alike d.afterHead := by
    unfold Cursor.afterHead Cursor.skipIf
    rw [← hsame]
    split
    · exact hnext.next
    · exact hnext
  exact ⟨⟨hwords, hspan, fun _ => hskip, fun _ => hhead⟩,
    ⟨hwords, hspan, fun _ => hspan, fun _ => hnext⟩, hspan⟩

/-! ## Declarations -/

/-- The runs from two places both fail with one error, or both give one value and end in places
that are alike. -/
def Parser.Agrees {α : Type} (p : Parser α) (c d : Cursor) : Prop :=
  (∃ e c' d', p.run c = (.error e, c') ∧ p.run d = (.error e, d')) ∨
    ∃ a c' d', p.run c = (.ok a, c') ∧ p.run d = (.ok a, d') ∧ c'.Alike d'

/-- Over local operands the layer is local. -/
def LocalLayer (layer : OperatorLayer) : Prop := locality.KeptBy layer

theorem localLayer_climbing : LocalLayer climbing := Correspondence.keptBy_climbing

/-- **A declaration depends on the tokens ahead alone.** -/
theorem declaration_agrees {layer : OperatorLayer} (hl : LocalLayer layer) {c d : Cursor}
    (hrest : c.rest = d.rest) (hne : c.rest ≠ []) : (declaration layer).Agrees c d := by
  cases Correspondence.agree_declaration hl (locality_start hrest hne) with
  | @error e f c' d' hc hd he =>
    obtain ⟨kind, message, span, context⟩ := e
    obtain ⟨hkind, hmessage, hcontext, hspan⟩ := he
    cases hkind
    cases hmessage
    cases hcontext
    cases hspan
    exact .inl ⟨_, c', d', hc, hd⟩
  | @ok a b c' d' hc hd hr h' =>
    cases hr with
    | function hf =>
      cases hf
      exact .inr ⟨_, c', d', hc, hd, h'⟩
    | struct hs =>
      cases hs
      exact .inr ⟨_, c', d', hc, hd, h'⟩

end FrontEnd
