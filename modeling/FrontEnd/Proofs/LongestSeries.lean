import FrontEnd.Proofs.Termination
import FrontEnd.Proofs.TreeTokens

/-!
# The longest series

A series of elements is read as far as there are elements, whatever the elements are. The parser of
an element need only be one that does not go back; it may take any number of tokens and fail, and
it may succeed and take none.

* `Parser.GoesOnward` is what is asked of an element.
* `Parser.Chain` is a series of elements from one place to another, `Parser.LongestChain` one that
  every other chain from there is the start of.
* `moreElements_longest` follows the loop: it never runs out of rounds before the chain is at its
  end.
* `sepBy_longest` is the result, also for a series between brackets.
-/

set_option autoImplicit false

namespace FrontEnd

namespace Parser

open Cursor

variable {α : Type} {element : Parser α} {kind : TokenKind} {delimiter : String} {a : α}
  {as bs : List α} {c c₁ c' d : Cursor}

/-- The parser keeps the list of tokens and does not go back, also where it fails. -/
def GoesOnward (p : Parser α) : Prop :=
  ∀ c, (p.run c).2.tokens = c.tokens ∧ c.position ≤ (p.run c).2.position

/-- Places in one list of tokens: the later, the fewer tokens are left. -/
theorem position_le_iff_rest (h : c'.tokens = c.tokens) :
    c.position ≤ c'.position ↔ c'.rest.length ≤ c.rest.length := by
  have hcount : c'.tokenCount = c.tokenCount := by
    rw [tokenCount_eq_length, tokenCount_eq_length, h]
  unfold tokenCount at hcount
  unfold position
  omega

theorem GoesOnward.runsAlike (h : element.GoesOnward) (c : Cursor) :
    RunsAlike 0 element element c := by
  obtain ⟨htokens, hle⟩ := h c
  have honward := (position_le_iff_rest htokens).mp hle
  refine ⟨rfl, htokens, honward, fun a c' hrun => ?_⟩
  rw [hrun] at honward
  exact honward

theorem goesOnward_of_runsAlike (h : ∀ c, RunsAlike 0 element element c) : element.GoesOnward :=
  fun c => ⟨(h c).tokens, (position_le_iff_rest (h c).tokens).mpr (h c).onward⟩

/-- What lies between a place and a later one is taken. -/
theorem exists_took (htokens : c'.tokens = c.tokens) (hle : c.position ≤ c'.position) :
    ∃ ts, Took ts c c' := by
  have hplace : ∀ e : Cursor, e = atPosition e.tokens e.position := fun e => by
    unfold atPosition
    rw [← passed_eq_take, ← rest_eq_drop]
  refine ⟨c.tokens.extract c.position c'.position, ?_⟩
  have htook := @took_atPosition c.tokens _ _ hle
  rw [← hplace c] at htook
  rw [← htokens, ← hplace c'] at htook
  rwa [htokens] at htook

/-! ## Chains -/

/-- The element runs from the one place to the other. -/
def RunsTo (element : Parser α) (a : α) (c c' : Cursor) : Prop := element.run c = (.ok a, c')

/-- Elements with one delimiter between each two, each run where the one before it stopped, after
the delimiter; or no element, and then no token. -/
def Chain (element : Parser α) (kind : TokenKind) (delimiter : String) (as : List α)
    (c c' : Cursor) : Prop :=
  (as = [] ∧ c' = c) ∨ SeriesReads (RunsTo element) kind delimiter as c c'

/-- A chain with every other chain from its place as a start. It ends directly after its last
element, where no delimiter with a further element after it stands. -/
structure LongestChain (element : Parser α) (kind : TokenKind) (delimiter : String) (as : List α)
    (c c' : Cursor) : Prop where
  chain : Chain element kind delimiter as c c'
  longest : ∀ bs d, Chain element kind delimiter bs c d → bs <+: as
  stopped : if as = [] then element.Fails c
    else c'.nextIs kind delimiter = false ∨ element.Fails c'.next

namespace LongestChain

/-- Nothing is read where the first element fails. -/
theorem empty (h : element.Fails c) : LongestChain element kind delimiter [] c c where
  chain := .inl ⟨rfl, rfl⟩
  longest bs d hchain := by
    obtain ⟨e, c', he⟩ := h
    rcases hchain with ⟨rfl, _⟩ | hseries
    · exact List.prefix_refl []
    · cases hseries with
      | last ha => rw [RunsTo, he] at ha; cases ha
      | more ha _ _ => rw [RunsTo, he] at ha; cases ha
  stopped := by rwa [if_pos rfl]

/-- One element, where no further one follows. -/
theorem single (ha : element.run c = (.ok a, c₁))
    (hstop : c₁.nextIs kind delimiter = false ∨ element.Fails c₁.next) :
    LongestChain element kind delimiter [a] c c₁ where
  chain := .inr (.last ha)
  longest bs d hchain := by
    rcases hchain with ⟨rfl, _⟩ | hseries
    · exact List.nil_prefix
    · cases hseries with
      | last hb =>
        rw [RunsTo, ha] at hb
        cases hb
        exact List.prefix_refl [a]
      | more hb hd has =>
        rw [RunsTo, ha] at hb
        cases hb
        obtain ⟨e, c', he⟩ := hstop.resolve_left (by rw [hd]; decide)
        -- a further element would have to run where it fails
        cases has with
        | last hb => rw [RunsTo, he] at hb; cases hb
        | more hb _ _ => rw [RunsTo, he] at hb; cases hb
  stopped := by rwa [if_neg (List.cons_ne_nil a [])]

/-- An element and a delimiter in front of a longest chain. -/
theorem cons (ha : element.run c = (.ok a, c₁)) (hd : c₁.nextIs kind delimiter = true)
    (has : as ≠ []) (h : LongestChain element kind delimiter as c₁.next c') :
    LongestChain element kind delimiter (a :: as) c c' where
  chain := .inr (.more ha hd (h.chain.resolve_left fun hnil => has hnil.1))
  longest bs d hchain := by
    rcases hchain with ⟨rfl, _⟩ | hseries
    · exact List.nil_prefix
    · cases hseries with
      | last hb =>
        rw [RunsTo, ha] at hb
        cases hb
        exact List.prefix_cons_inj a |>.mpr List.nil_prefix
      | more hb _ hbs =>
        rw [RunsTo, ha] at hb
        cases hb
        exact (List.prefix_cons_inj a).mpr (h.longest _ _ (.inr hbs))
  stopped := by
    have hstop := h.stopped
    rw [if_neg has] at hstop
    rwa [if_neg (List.cons_ne_nil a as)]

end LongestChain

/-! ## The loop -/

/-- **The loop reads the chain to its end**: with more rounds than tokens it does not run out of
them, as each round takes the delimiter at least. -/
theorem moreElements_longest (h : element.GoesOnward) :
    ∀ (fuel : Nat) (a : α) (c c₁ : Cursor), element.run c = (.ok a, c₁) → c₁.rest.length < fuel →
      ∃ as c', (moreElements element kind delimiter fuel).run c₁ = (.ok as, c') ∧
        LongestChain element kind delimiter (a :: as) c c' := by
  intro fuel
  induction fuel with
  | zero => exact fun a c c₁ _ hfuel => absurd hfuel (Nat.not_lt_zero _)
  | succ fuel ih =>
    intro a c c₁ ha hfuel
    cases hd : c₁.nextIs kind delimiter with
    | false =>
      exact ⟨[], c₁, run_moreElements_done (.inl hd), .single ha (.inl hd)⟩
    | true =>
      have hlt := rest_next_lt_of_nextIs hd
      cases hb : element.run c₁.next with
      | mk r c₂ =>
        cases r with
        | error e =>
          exact ⟨[], c₁, run_moreElements_done (.inr ⟨e, c₂, hb⟩), .single ha (.inr ⟨e, c₂, hb⟩)⟩
        | ok b =>
          have hle := (h.runsAlike c₁.next).takes b c₂ hb
          obtain ⟨bs, c', hrun, hlongest⟩ := ih b c₁.next c₂ hb (by omega)
          exact ⟨b :: bs, c', run_moreElements_step hd hb hrun,
            .cons ha hd (List.cons_ne_nil b bs) hlongest⟩

theorem sepBy_longestChain (h : element.GoesOnward) (kind : TokenKind) (delimiter : String)
    (c : Cursor) : ∃ as c', (sepBy element kind delimiter).run c = (.ok as, c') ∧
      LongestChain element kind delimiter as c c' := by
  cases ha : element.run c with
  | mk r c₁ =>
    cases r with
    | error e => exact ⟨[], c, run_sepBy_nil ⟨e, c₁, ha⟩, .empty ⟨e, c₁, ha⟩⟩
    | ok a =>
      obtain ⟨as, c', hrun, hlongest⟩ := moreElements_longest h _ a c c₁ ha (Nat.lt_succ_self _)
      refine ⟨a :: as, c', ?_, hlongest⟩
      rw [run_sepBy_next ha, run_map, run_withFuel, hrun]
      rfl

/-- A series takes the tokens up to the place where it stops. -/
theorem sepBy_took (h : element.GoesOnward)
    (hrun : (sepBy element kind delimiter).run c = (.ok as, c')) : ∃ ts, Took ts c c' := by
  have halike : RunsAlike 0 (sepBy element kind delimiter) (sepBy element kind delimiter) c :=
    .sepBy (fun d _ => h.runsAlike d) (Nat.lt_succ_self _)
  have htokens := halike.tokens
  have honward := halike.onward
  rw [hrun] at htokens honward
  exact exists_took htokens ((position_le_iff_rest htokens).mpr honward)

/-- What a series reads, whatever its elements are. The loop ends: unrolled more often than tokens
are left, it does not come to its innermost call. A series never fails, and reads the longest chain.
Between brackets it takes the opening token, that chain and the closing token. -/
structure ReadsLongest (element : Parser α) (kind : TokenKind) (delimiter : String) : Prop where
  ends : Settles (alone (moreElementsStep element kind delimiter)) fun _ =>
    withFuel (moreElements element kind delimiter)
  reads : ∀ c, ∃ as c' ts, (sepBy element kind delimiter).run c = (.ok as, c') ∧
    LongestChain element kind delimiter as c c' ∧ Took ts c c'
  enclosed : ∀ (b : Brackets) c as c', (enclosed (sepBy element kind delimiter) b).run c =
      (.ok as, c') →
    ∃ opening ts closing c₁, LongestChain element kind delimiter as c.next c₁ ∧
      Took ts c.next c₁ ∧ Took (opening :: (ts ++ [closing])) c c' ∧
      opening.is b.openKind b.openText = true ∧ closing.is b.closeKind b.closeText = true

end Parser

open FrontEnd.Parser Cursor

/-- **A series is the longest chain of its elements and nothing more.** -/
theorem sepBy_longest {α : Type} {element : Parser α} (h : element.GoesOnward) (kind : TokenKind)
    (delimiter : String) : ReadsLongest element kind delimiter where
  ends := .of_guards_alone (fun _ => guards_moreElements fun d _ => h.runsAlike d) moreElements_succ
  reads c := by
    obtain ⟨as, c', hrun, hlongest⟩ := sepBy_longestChain h kind delimiter c
    obtain ⟨ts, htook⟩ := sepBy_took h hrun
    exact ⟨as, c', ts, hrun, hlongest, htook⟩
  enclosed b c as c' hrun := by
    obtain ⟨hopen, c₁, hseries, hclose, rfl⟩ := run_enclosed_eq_ok.mp hrun
    obtain ⟨as', c₁', hrun', hlongest⟩ := sepBy_longestChain h kind delimiter c.next
    rw [hseries] at hrun'
    cases hrun'
    obtain ⟨ts, htook⟩ := sepBy_took h hseries
    obtain ⟨opening, hopening, hopens⟩ := took_of_nextIs hopen
    obtain ⟨closing, hclosing, hcloses⟩ := took_of_nextIs hclose
    refine ⟨opening, ts, closing, c₁, hlongest, htook, ?_, hopens, hcloses⟩
    exact hopening.trans (htook.trans hclosing)

/-- Two parameters before a parenthesis, the second without its type. -/
def openParameters : Cursor :=
  .ofTokens [⟨.identifier, "a", 0, Span.none⟩, ⟨.symbol, ":", 0, Span.none⟩,
    ⟨.identifier, "bool", 0, Span.none⟩, ⟨.symbol, ",", 0, Span.none⟩,
    ⟨.identifier, "b", 0, Span.none⟩, ⟨.symbol, ")", 0, Span.none⟩]

/-- The second parameter fails after its name, so that name and the comma before it stay. -/
theorem sepBy_longest_parameters :
    Grammar.parameter.GoesOnward ∧ ∃ ps c' ts,
      (sepBy Grammar.parameter .symbol ",").run openParameters = (.ok ps, c') ∧
        ps.map Parameter.name = ["a"] ∧ c'.rest.map Token.text = [",", "b", ")"] ∧
        LongestChain Grammar.parameter .symbol "," ps openParameters c' ∧
        Took ts openParameters c' := by
  have h : Grammar.parameter.GoesOnward :=
    goesOnward_of_runsAlike fun c => (runsAlike_parameter c).weaken
  obtain ⟨ps, c', ts, hrun, hlongest, htook⟩ :=
    (sepBy_longest h .symbol ",").reads openParameters
  have hnames : ((sepBy Grammar.parameter .symbol ",").run openParameters).1.toOption.map
      (List.map Parameter.name) = some ["a"] := by decide +kernel
  have hrest : ((sepBy Grammar.parameter .symbol ",").run openParameters).2.rest.map
      Token.text = [",", "b", ")"] := by decide +kernel
  rw [hrun] at hnames hrest
  exact ⟨h, ps, c', ts, hrun, Option.some.inj hnames, hrest, hlongest, htook⟩

end FrontEnd
