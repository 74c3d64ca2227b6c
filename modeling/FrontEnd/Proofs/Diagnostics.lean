import FrontEnd.Proofs.SourceSpans
import FrontEnd.Proofs.Stages

/-!
# What a user is told of errors

A failed check tells the errors of one stage, and every place that it names can be shown.

* `labels_of_typeErrors`: a type error names the places of declarations, parameters and members.
* `StageErrors.pointsInto`: the labels of the errors of any stage point into the source.
* `check_tells` is the statement for what `check` answers.
-/

set_option autoImplicit false

namespace FrontEnd

open Grammar FrontEnd.Parser Text

/-! ## The places of type errors -/

section

variable {m : Module} {e : TypeError} {l : Label}

theorem labels_of_unknownErrors {type : TypeExpr} {span : Span}
    (h : e ∈ m.unknownErrors type span) (hl : l ∈ e.labels) : l.span = span := by
  obtain ⟨name, _, rfl⟩ := Option.map_eq_some_iff.mp (Option.mem_toList.mp h)
  rw [TypeError.labels, List.mem_singleton] at hl
  rw [hl]

theorem Function.labels_of_typeErrors {f : Function} (h : e ∈ f.typeErrors m)
    (hl : l ∈ e.labels) : l.span ∈ (Declaration.function f).spans := by
  rcases List.mem_append.mp h with h | h
  · obtain ⟨p, hp, h⟩ := List.mem_flatMap.mp h
    rw [labels_of_unknownErrors h hl]
    exact List.mem_cons_of_mem _ (List.mem_map_of_mem hp)
  · rw [labels_of_unknownErrors h hl]
    exact List.mem_cons_self

theorem Struct.labels_of_typeErrors {s : Struct} (h : e ∈ s.typeErrors m) (hl : l ∈ e.labels) :
    l.span ∈ (Declaration.struct s).spans := by
  have hspan : ∀ member ∈ s.members, member.span ∈ (Declaration.struct s).spans :=
    fun member hm => List.mem_cons_of_mem _ (List.mem_map_of_mem hm)
  obtain ⟨front, member, back, hs, h⟩ := mem_flatten_withEarlier.mp h
  have hmember : member ∈ s.members := by rw [hs]; simp
  unfold Member.typeErrors at h
  split at h
  · rename_i first hfirst
    have hfront : first ∈ front := List.mem_of_find?_eq_some hfirst
    have hmem : first ∈ s.members := by rw [hs]; exact List.mem_append_left _ hfront
    rw [List.mem_singleton] at h
    subst h
    simp only [TypeError.labels, List.mem_cons, List.not_mem_nil, or_false] at hl
    rcases hl with rfl | rfl
    · exact hspan member hmember
    · exact hspan first hmem
  · rw [labels_of_unknownErrors h hl]
    exact hspan member hmember

theorem labels_of_duplicateErrors {earlier : Module} {d : Declaration}
    (h : e ∈ d.duplicateErrors earlier) (hl : l ∈ e.labels) :
    l.span = d.span ∨ ∃ first, .struct first ∈ earlier ∧ l.span = first.span := by
  obtain ⟨first, hfirst, rfl⟩ := Option.map_eq_some_iff.mp (Option.mem_toList.mp h)
  simp only [TypeError.labels, List.mem_cons, List.not_mem_nil, or_false] at hl
  rcases hl with rfl | rfl
  · exact .inl rfl
  · cases d with
    | function f => cases hfirst
    | struct s => exact .inr ⟨first, Module.mem_of_struct? hfirst, rfl⟩

theorem Declaration.span_mem_spans (d : Declaration) : d.span ∈ d.spans := by
  cases d <;> exact List.mem_cons_self

/-- **A type error is told at declarations and their bindings.** -/
theorem labels_of_typeErrors (h : e ∈ m.typeErrors) (hl : l ∈ e.labels) :
    ∃ d ∈ m, l.span ∈ d.spans := by
  rcases List.mem_append.mp h with h | h
  · obtain ⟨front, d, back, hm, hduplicate⟩ := mem_flatten_withEarlier.mp h
    have hd : d ∈ m := by rw [hm]; simp
    rcases labels_of_duplicateErrors hduplicate hl with hspan | ⟨first, hfirst, hspan⟩
    · exact ⟨d, hd, hspan ▸ d.span_mem_spans⟩
    · have hmem : .struct first ∈ m := by rw [hm]; exact List.mem_append_left _ hfirst
      exact ⟨.struct first, hmem, hspan ▸ List.mem_cons_self⟩
  · obtain ⟨front, d, back, hm, htype⟩ := mem_flatten_withEarlier.mp h
    refine ⟨d, by rw [hm]; simp, ?_⟩
    cases d with
    | function f => exact Function.labels_of_typeErrors htype hl
    | struct s =>
      rw [Declaration.typeErrors] at htype
      split at htype
      · cases htype
      · exact Struct.labels_of_typeErrors htype hl

end

/-! ## The places of all errors -/

section

variable {source : String} {config : Config}

theorem StageErrors.pointsInto (hsize : byteLength source.toList ≤ Span.limit)
    {errors : List SourceError} (h : StageErrors source config errors) :
    ∀ e ∈ errors, ∀ l ∈ e.diagnostic.labels, l.span.PointsInto source := by
  intro e he l hl
  cases h with
  | @lexing e' hlex =>
    rw [List.mem_singleton.mp he] at hl
    rw [List.mem_singleton.mp hl]
    exact lex_error_pointsInto hsize hlex
  | @parsing tokens hlex _ =>
    obtain ⟨e', he', rfl⟩ := List.mem_map.mp he
    rw [List.mem_singleton.mp hl]
    exact (parseModule_spans (closed_pointsInto source) (lex_tokens_pointInto hsize hlex)).1 e' he'
  | @typing m hparse _ _ =>
    obtain ⟨e', he', rfl⟩ := List.mem_map.mp he
    rw [hparse.lowered_typed.1] at he'
    obtain ⟨d, hd, hspan⟩ := labels_of_typeErrors he' hl
    obtain ⟨tokens, hlex, hmodule⟩ := hparse
    have hspans := parseModule_spans (closed_pointsInto source) (lex_tokens_pointInto hsize hlex)
    rw [hmodule] at hspans
    exact hspans.2 d hd l.span hspan

/-- Without its notes an error is told at the same places. -/
theorem Config.labels_diagnostic (config : Config) (e : SourceError) :
    (config.diagnostic e).labels = e.diagnostic.labels := by
  unfold Config.diagnostic
  split <;> rfl

/-- **A failed check tells the first errors of one stage, at places in the source.** There is at
least one, there are as many as the configuration asks for, and the source can be cut at both ends
of every label. -/
theorem check_tells (hsize : byteLength source.toList ≤ Span.limit) {told : List Diagnostic}
    (h : check source config = .error told) :
    told ≠ [] ∧
      (∃ errors, StageErrors source config errors ∧
        told = (if config.maxErrors = 0 then errors else errors.take config.maxErrors).map
          config.diagnostic) ∧
      ∀ d ∈ told, ∀ l ∈ d.labels, l.span.PointsInto source ∧
        ∃ cs, Text.between source.toList l.span.start l.span.stop = some cs := by
  have houtcome := analyze_outcome source config
  unfold check at h
  cases hrun : analyze source config with
  | ok summary =>
    rw [hrun] at h
    cases h
  | error errors =>
    rw [hrun] at h houtcome
    cases houtcome with
    | errors hstage =>
      cases h
      refine ⟨?_, ⟨errors, hstage, rfl⟩, fun d hd l hl => ?_⟩
      · rw [Ne, List.map_eq_nil_iff, Config.limit]
        split
        · exact hstage.ne_nil
        · rename_i hmax
          exact fun hnil => (List.take_eq_nil_iff.mp hnil).elim hmax hstage.ne_nil
      · obtain ⟨e, he, rfl⟩ := List.mem_map.mp hd
        have hmem : e ∈ errors := by
          unfold Config.limit at he
          split at he
          · exact he
          · exact List.mem_of_mem_take he
        rw [config.labels_diagnostic] at hl
        have hpoints := hstage.pointsInto hsize e hmem l hl
        exact ⟨hpoints, hpoints.between⟩

/-- Two types that nobody declares and a member that is declared twice, with a character of two
bytes between them. -/
def misnamedSource : String := "fn f() -> T = \"é\" struct A \x7bx: B; x: C\x7d"

/-- The first two of the three errors are told. -/
theorem check_tells_misnamed :
    ∃ told, check misnamedSource ⟨true, 2, false⟩ = .error told ∧
      told.map Diagnostic.primarySpan? = [some ⟨0, 18⟩, some ⟨29, 33⟩] ∧
      ∀ d ∈ told, ∀ l ∈ d.labels, l.span.PointsInto misnamedSource ∧
        ∃ cs, Text.between misnamedSource.toList l.span.start l.span.stop = some cs := by
  have hsize : byteLength misnamedSource.toList ≤ Span.limit := by decide
  have hspans : (match check misnamedSource ⟨true, 2, false⟩ with
      | .ok _ => []
      | .error told => told.map Diagnostic.primarySpan?) = [some ⟨0, 18⟩, some ⟨29, 33⟩] := by
    decide +kernel
  cases hrun : check misnamedSource ⟨true, 2, false⟩ with
  | ok summary =>
    rw [hrun] at hspans
    cases hspans
  | error told =>
    rw [hrun] at hspans
    exact ⟨told, rfl, hspans, (check_tells hsize hrun).2.2⟩

end

end FrontEnd
