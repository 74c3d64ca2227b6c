import FrontEnd.Analysis
import FrontEnd.Proofs.Lowering
import FrontEnd.Proofs.Shape

/-!
# The stages of an analysis

An analysis stops at the first stage that finds errors, and its errors are those of that stage.

* `Parses` says that a source was read as a module without errors, `Module.lowered` is that module
  with its types.
* `StageErrors` lists the ways to fail, `Outcome` all that an analysis can come to;
  `analyze_outcome` is the only proof that looks into it.
* `Parses.lowered_typed`: what was read is lowered into the types of the module.
-/

set_option autoImplicit false

namespace FrontEnd

open Grammar FrontEnd.Parser

variable {source : String} {config : Config} {m : Module}

/-- The source is a module without lexical and syntactic errors. -/
def Parses (source : String) (m : Module) : Prop :=
  ∃ tokens, lex source = .ok tokens ∧ parseModule tokens = ⟨m, []⟩

/-- The module lowered into a new type system. -/
def Module.lowered (m : Module) : Lowered Module := lowerModule StampSupply.initial.start.1 m

/-- What is told of a module that has no errors. -/
def Module.summary (config : Config) (m : Module) : Summary :=
  if config.lowerTypes then
    ⟨m.map (Declaration.toSource defaultIndent), outlineStructs m.lowered.types m.lowered.value,
      m.lowered.types.size⟩
  else ⟨m.map (Declaration.toSource defaultIndent), [], 0⟩

/-- All errors of the first stage that has any. -/
inductive StageErrors (source : String) (config : Config) : List SourceError → Prop where
  | lexing {e : LexError} (h : lex source = .error e) : StageErrors source config [.lexing e]
  | parsing {tokens : List Token} (hlex : lex source = .ok tokens)
      (hne : (parseModule tokens).errors ≠ []) :
      StageErrors source config ((parseModule tokens).errors.map .parsing)
  | typing {m : Module} (hparse : Parses source m) (hlower : config.lowerTypes = true)
      (hne : m.lowered.errors ≠ []) :
      StageErrors source config (m.lowered.errors.map .typing)

/-- The errors of a stage, or a summary where no stage has any. -/
inductive Outcome (source : String) (config : Config) :
    Except (List SourceError) Summary → Prop where
  | errors {es : List SourceError} (h : StageErrors source config es) :
      Outcome source config (.error es)
  | summary {m : Module} (hparse : Parses source m)
      (hclean : config.lowerTypes = true → m.lowered.errors = []) :
      Outcome source config (.ok (m.summary config))

theorem StageErrors.ne_nil {errors : List SourceError} (h : StageErrors source config errors) :
    errors ≠ [] := by
  cases h with
  | lexing _ => exact List.cons_ne_nil _ _
  | parsing _ hne => exact fun hnil => hne (List.map_eq_nil_iff.mp hnil)
  | typing _ _ hne => exact fun hnil => hne (List.map_eq_nil_iff.mp hnil)

theorem summarizeModule_of_errors (hlower : config.lowerTypes = true)
    (hne : m.lowered.errors ≠ []) : summarizeModule config m = .error m.lowered.errors := by
  have hempty : m.lowered.errors.isEmpty = false := List.isEmpty_eq_false_iff.mpr hne
  unfold summarizeModule
  rw [if_pos hlower]
  exact if_neg (Bool.eq_false_iff.mp hempty)

theorem summarizeModule_of_clean (h : config.lowerTypes = true → m.lowered.errors = []) :
    summarizeModule config m = .ok (m.summary config) := by
  unfold summarizeModule Module.summary
  by_cases hlower : config.lowerTypes = true
  · rw [if_pos hlower, if_pos hlower]
    exact if_pos (List.isEmpty_iff.mpr (h hlower))
  · rw [if_neg hlower, if_neg hlower]

/-- **How an analysis comes out**: each stage is run only if those before it found no errors. -/
theorem analyze_outcome (source : String) (config : Config) :
    Outcome source config (analyze source config) := by
  unfold analyze
  cases hlex : lex source with
  | error e => exact .errors (.lexing hlex)
  | ok tokens =>
    have hclean : (parseModule tokens).isClean = true ↔ (parseModule tokens).errors = [] :=
      List.isEmpty_iff
    dsimp only
    by_cases herrors : (parseModule tokens).errors = []
    · have hparse : Parses source (parseModule tokens).declarations :=
        ⟨tokens, hlex, by rw [← herrors]⟩
      rw [if_pos (hclean.mpr herrors)]
      by_cases htyped : config.lowerTypes = true →
          (parseModule tokens).declarations.lowered.errors = []
      · rw [summarizeModule_of_clean htyped]
        exact .summary hparse htyped
      · obtain ⟨hlower, hne⟩ := Classical.not_imp.mp htyped
        rw [summarizeModule_of_errors hlower hne]
        exact .errors (.typing hparse hlower hne)
    · rw [if_neg fun h => herrors (hclean.mp h)]
      exact .errors (.parsing hlex herrors)

/-- The slots of what the parser gives are empty. -/
theorem Parses.slots (h : Parses source m) : ∀ s, .struct s ∈ m → s.slot = .empty := by
  intro s hs
  obtain ⟨tokens, _, hparse⟩ := h
  have hmem : .struct s ∈ (parseModule tokens).declarations := by
    rw [hparse]
    exact hs
  obtain ⟨_, _, _, hreads⟩ := mem_parseModule hmem
  exact hreads.wellShaped.slot

/-- **What the parser gives is lowered into the types of the module.** -/
theorem Parses.lowered_typed (h : Parses source m) :
    m.lowered.errors = m.typeErrors ∧ m.lowered.value = m.resolved m.lowered.types ∧
      m.lowered.types.TypesOf m := by
  have hslot : ∀ s, .struct s ∈ m → s.slot.readAs? StampSupply.initial.next = none := by
    intro s hs
    rw [h.slots s hs]
    rfl
  obtain ⟨herrors, hvalue, htypes, _⟩ := lowerModule_typed m hslot
  exact ⟨herrors, hvalue, htypes⟩

end FrontEnd
