import FrontEnd.Proofs.Layout
import Mathlib.Logic.Function.Iterate

/-!
# Progress of parsers

Why recursive parsers end: each nested call is made where fewer tokens are left. That a call is made
there only is said by comparison. Two parsers that differ in what they call are run from one place;
if the calls run alike wherever fewer tokens are left, so do the two.

* `Parser.RunsAlike` is the comparison at one place. It says of both runs that they keep the
  tokens, do not go back, and take a number of tokens where they succeed. Each way to combine
  parsers keeps it.
* `Parser.Guards` says of the bodies of two recursions that their nested calls are made where fewer
  tokens are left; `Guards.runsAlike` follows the recursions.
* `Parser.Settles` says that an unbounded recursion ends: unrolled more often than tokens are left,
  it does not come to its innermost call, whatever that is (`Settles.of_guards`).
* `Parser.Progresses` is what a production does to the position.
-/

set_option autoImplicit false

namespace FrontEnd.Parser

open Cursor

variable {α β : Type} {k l : Nat} {p q : Parser α} {c : Cursor}

/-- From the place the two parsers run alike. They keep the tokens, do not go back, and take at
least `k` tokens where they succeed. -/
structure RunsAlike (k : Nat) (p q : Parser α) (c : Cursor) : Prop where
  same : p.run c = q.run c
  tokens : (p.run c).2.tokens = c.tokens
  onward : (p.run c).2.rest.length ≤ c.rest.length
  takes : ∀ a c', p.run c = (.ok a, c') → c'.rest.length + k ≤ c.rest.length

/-- The two parsers run alike wherever fewer than `n` tokens are left. -/
def AlikeBelow (k n : Nat) (p q : Parser α) : Prop :=
  ∀ c : Cursor, c.rest.length < n → RunsAlike k p q c

/-! ## Sequencing -/

namespace RunsAlike

theorem mono (h : RunsAlike k p q c) (hl : l ≤ k) : RunsAlike l p q c where
  same := h.same
  tokens := h.tokens
  onward := h.onward
  takes a c' hrun := Nat.le_trans (Nat.add_le_add_left hl _) (h.takes a c' hrun)

theorem weaken (h : RunsAlike k p q c) : RunsAlike 0 p q c := h.mono (Nat.zero_le k)

/-- What is left to do runs alike from a later place. -/
theorem of_run {p' q' : Parser α} {c₁ : Cursor} (h : RunsAlike k p' q' c₁)
    (hp : p.run c = p'.run c₁) (hq : q.run c = q'.run c₁) (htokens : c₁.tokens = c.tokens)
    (hlength : c₁.rest.length + l ≤ c.rest.length) : RunsAlike (k + l) p q c where
  same := by rw [hp, hq, h.same]
  tokens := by rw [hp, h.tokens, htokens]
  onward := by
    rw [hp]
    have honward := h.onward
    omega
  takes a c' hrun := by
    rw [hp] at hrun
    have htakes := h.takes a c' hrun
    omega

theorem withCursor {f g : Cursor → Parser α} (h : RunsAlike k (f c) (g c) c) :
    RunsAlike k (withCursor f) (withCursor g) c :=
  ⟨h.same, h.tokens, h.onward, h.takes⟩

theorem bind {f g : α → Parser β} (h : RunsAlike k p q c)
    (hf : ∀ a c', c'.rest.length + k ≤ c.rest.length → RunsAlike l (f a) (g a) c') :
    RunsAlike (k + l) (p >>= f) (q >>= g) c := by
  cases hp : p.run c with
  | mk r c' =>
    have hq : q.run c = (r, c') := by rw [← h.same, hp]
    have htokens := h.tokens
    have honward := h.onward
    rw [hp] at htokens honward
    cases r with
    | error e =>
      have hbind := run_bind_error (f := f) hp
      refine ⟨?_, ?_, ?_, ?_⟩
      · rw [hbind, run_bind_error hq]
      · rw [hbind]
        exact htokens
      · rw [hbind]
        exact honward
      · intro b c'' hrun
        rw [hbind] at hrun
        cases hrun
    | ok a =>
      have htakes := h.takes a c' hp
      have hrest := (hf a c' htakes).of_run (run_bind_ok hp) (run_bind_ok hq) htokens htakes
      exact hrest.mono (Nat.le_of_eq (Nat.add_comm k l))

/-- What comes first takes the tokens. -/
theorem andThen {f g : α → Parser β} (h : RunsAlike k p q c)
    (hf : ∀ a c', c'.rest.length + k ≤ c.rest.length → RunsAlike 0 (f a) (g a) c') :
    RunsAlike k (p >>= f) (q >>= g) c :=
  h.bind hf

/-- What comes after the first takes the tokens. -/
theorem before {f g : α → Parser β} (h : RunsAlike 0 p q c)
    (hf : ∀ a c', c'.rest.length ≤ c.rest.length → RunsAlike k (f a) (g a) c') :
    RunsAlike k (p >>= f) (q >>= g) c :=
  (h.bind hf).mono (Nat.le_add_left k 0)

theorem ite {p' q' : Parser α} {P : Prop} [Decidable P] (hp : P → RunsAlike k p q c)
    (hq : ¬ P → RunsAlike k p' q' c) :
    RunsAlike k (if P then p else p') (if P then q else q') c := by
  by_cases h : P
  · rw [if_pos h, if_pos h]
    exact hp h
  · rw [if_neg h, if_neg h]
    exact hq h

end RunsAlike

theorem AlikeBelow.weaken {n : Nat} (h : AlikeBelow k n p q) : AlikeBelow 0 n p q :=
  fun c hc => (h c hc).weaken

theorem runsAlike_pure (a : α) (c : Cursor) : RunsAlike 0 (pure a) (pure a) c where
  same := rfl
  tokens := rfl
  onward := Nat.le_refl _
  takes b c' hrun := by
    cases hrun
    exact Nat.le_refl _

theorem runsAlike_fail (e : ParseError) (k : Nat) (c : Cursor) :
    RunsAlike k (fail e : Parser α) (fail e) c where
  same := rfl
  tokens := rfl
  onward := Nat.le_refl _
  takes b c' hrun := by cases hrun

namespace RunsAlike

theorem map (h : RunsAlike k p q c) (f : α → β) : RunsAlike k (f <$> p) (f <$> q) c := by
  rw [← bind_pure_comp, ← bind_pure_comp]
  exact h.bind fun a c' _ => runsAlike_pure (f a) c'

/-- The errors get a context, the runs are the same. -/
theorem within (h : RunsAlike k p q c) (context : String) :
    RunsAlike k (p.within context) (q.within context) c := by
  cases hp : p.run c with
  | mk r c' =>
    have hq : q.run c = (r, c') := by rw [← h.same, hp]
    have htokens := h.tokens
    have honward := h.onward
    rw [hp] at htokens honward
    cases r with
    | error e =>
      have hrun := run_within_error hp context
      refine ⟨by rw [hrun, run_within_error hq context], by rw [hrun]; exact htokens,
        by rw [hrun]; exact honward, ?_⟩
      intro a c'' hok
      rw [hrun] at hok
      cases hok
    | ok a =>
      have hrun := run_within_ok hp context
      refine ⟨by rw [hrun, run_within_ok hq context], by rw [hrun]; exact htokens,
        by rw [hrun]; exact honward, ?_⟩
      intro a' c'' hok
      rw [hrun] at hok
      cases hok
      exact h.takes a c' hp

/-- The result as a value, after which nothing is known to be taken. -/
theorem result (h : RunsAlike k p q c) : RunsAlike 0 p.result q.result c where
  same := by
    show (Except.ok (p.run c).1, (p.run c).2) = (Except.ok (q.run c).1, (q.run c).2)
    rw [h.same]
  tokens := h.tokens
  onward := h.onward
  takes a c' hrun := by
    have hlast : (p.run c).2 = c' := congrArg Prod.snd hrun
    rw [← hlast]
    exact h.onward

end RunsAlike

/-! ## Readers -/

theorem runsAlike_look (f : Cursor → α) (c : Cursor) : RunsAlike 0 (look f) (look f) c where
  same := rfl
  tokens := rfl
  onward := Nat.le_refl _
  takes a c' hrun := by
    cases hrun
    exact Nat.le_refl _

/-- A token is passed, and what follows runs after it. -/
theorem RunsAlike.read {t : Token} (ht : c.peek? = some t) (h : RunsAlike k p q c.next) :
    RunsAlike (k + 1) (do let _ ← read; p) (do let _ ← read; q) c :=
  h.of_run (run_bind_ok (run_read c)) (run_bind_ok (run_read c)) (tokens_next c) (rest_next_lt ht)

theorem runsAlike_readAs {t : Token} (ht : c.peek? = some t) (a : α) :
    RunsAlike 1 (Grammar.readAs a) (Grammar.readAs a) c :=
  (runsAlike_pure a c.next).read ht

/-- Two symbols are passed. -/
theorem runsAlike_readPair {first second : String} (hfirst : c.nextIs .symbol first = true)
    (hsecond : c.nextIsAt .symbol second 1 = true) (a : α) :
    RunsAlike 2 (do let _ ← read; let _ ← read; pure a) (do let _ ← read; let _ ← read; pure a)
      c := by
  obtain ⟨t, ht, _⟩ := nextIs_iff.mp hfirst
  rw [nextIsAt_one ht] at hsecond
  obtain ⟨u, hu, _⟩ := nextIs_iff.mp hsecond
  exact ((runsAlike_pure a c.next.next).read hu).read ht

theorem runsAlike_accept (kind : TokenKind) (text : String) (c : Cursor) :
    RunsAlike 0 (accept kind text) (accept kind text) c where
  same := rfl
  tokens := by
    rw [run_accept, skipIf]
    split
    · exact tokens_next c
    · rfl
  onward := by
    rw [run_accept]
    exact rest_skipIf_le c kind text
  takes a c' hrun := by
    rw [run_accept] at hrun
    cases hrun
    exact rest_skipIf_le c kind text

theorem run_acceptThen_of {p' : Parser α} {kind : TokenKind} {text : String}
    (h : c.nextIs kind text = true) :
    (do if ← accept kind text then p else p' : Parser α).run c = p.run c.next := by
  have hrun := run_accept kind text c
  rw [h, skipIf_of h] at hrun
  exact run_bind_ok hrun

theorem run_acceptThen_of_not {p' : Parser α} {kind : TokenKind} {text : String}
    (h : c.nextIs kind text = false) :
    (do if ← accept kind text then p else p' : Parser α).run c = p'.run c := by
  have hrun := run_accept kind text c
  rw [h, skipIf_of_not h] at hrun
  exact run_bind_ok hrun

/-- Where the token stands it is passed and the first alternative runs, elsewhere the second. -/
theorem RunsAlike.acceptThen {p' q' : Parser α} {kind : TokenKind} {text : String}
    (hk : k ≤ l + 1) (hyes : c.nextIs kind text = true → RunsAlike l p q c.next)
    (hno : c.nextIs kind text = false → RunsAlike k p' q' c) :
    RunsAlike k (do if ← accept kind text then p else p')
      (do if ← accept kind text then q else q') c := by
  cases h : c.nextIs kind text with
  | true =>
    refine RunsAlike.mono ?_ hk
    exact (hyes h).of_run (l := 1) (run_acceptThen_of h) (run_acceptThen_of h) (tokens_next c)
      (rest_next_lt_of_nextIs h)
  | false =>
    exact (hno h).of_run (l := 0) (run_acceptThen_of_not h) (run_acceptThen_of_not h) rfl
      (Nat.le_refl _)

/-- A reader passes the next token and gives it, or gives nothing. -/
def ReadsOne (r : Parser (Option Token)) : Prop :=
  ∀ c, r.run c = (.ok none, c) ∨ ∃ t, c.peek? = some t ∧ r.run c = (.ok (some t), c.next)

theorem readsOne_readIf (kind : TokenKind) (text : String) : ReadsOne (readIf kind text) := by
  intro c
  rw [run_readIf]
  cases h : c.nextIs kind text with
  | true =>
    obtain ⟨t, ht, _⟩ := nextIs_iff.mp h
    exact .inr ⟨t, ht, by rw [if_pos rfl, skipIf_of h, ht]⟩
  | false => exact .inl (by rw [skipIf_of_not h]; rfl)

theorem readsOne_readKind (kind : TokenKind) : ReadsOne (readKind kind) := by
  intro c
  rw [run_readKind]
  cases hpeek : c.peek? with
  | none => exact .inl (by rw [nextHasKind, hpeek]; rfl)
  | some t =>
    by_cases h : c.nextHasKind kind = true
    · exact .inr ⟨t, rfl, by rw [if_pos h]⟩
    · exact .inl (by rw [if_neg h])

/-- A token that is required is passed. -/
theorem ReadsOne.requires {r : Parser (Option Token)} (hr : ReadsOne r)
    {error : Cursor → ParseError} (c : Cursor) :
    let required : Parser Token := do
      match ← r with
      | some t => pure t
      | none => Parser.withCursor fun c => fail (error c)
    RunsAlike 1 required required c := by
  rcases hr c with hnone | ⟨t, ht, hsome⟩
  · have hfail : RunsAlike 1 (Parser.withCursor fun c => fail (error c) : Parser Token)
        (Parser.withCursor fun c => fail (error c)) c := .withCursor (runsAlike_fail _ 1 c)
    exact hfail.of_run (l := 0) (run_bind_ok hnone) (run_bind_ok hnone) rfl (Nat.le_refl _)
  · exact (runsAlike_pure t c.next).of_run (l := 1) (run_bind_ok hsome) (run_bind_ok hsome)
      (tokens_next c) (rest_next_lt ht)

theorem runsAlike_require (kind : TokenKind) (text : String) (c : Cursor) :
    RunsAlike 1 (require kind text) (require kind text) c :=
  (readsOne_readIf kind text).requires c

theorem runsAlike_requireSymbol (text : String) (c : Cursor) :
    RunsAlike 1 (requireSymbol text) (requireSymbol text) c :=
  (readsOne_readIf .symbol text).requires c

theorem runsAlike_requireIdentifier (c : Cursor) :
    RunsAlike 1 requireIdentifier requireIdentifier c :=
  (readsOne_readKind .identifier).requires c

/-! ## Choices and brackets -/

theorem tryEach_alike {ps qs : List (Parser α)}
    (h : List.Forall₂ (fun p q => RunsAlike k p q c) ps qs) :
    ∀ best, tryEach c ps best = tryEach c qs best ∧
      ∀ a c', tryEach c ps best = .ok (a, c') →
        c'.tokens = c.tokens ∧ c'.rest.length + k ≤ c.rest.length := by
  induction h with
  | nil => exact fun best => ⟨rfl, fun a c' hok => by cases hok⟩
  | @cons p q ps qs hpq _ ih =>
    intro best
    have hsame := hpq.same
    have htokens := hpq.tokens
    have htakes := hpq.takes
    cases hp : p.run c with
    | mk r c' =>
      rw [hp] at hsame htokens
      cases r with
      | error e =>
        rw [tryEach_of_error hp, tryEach_of_error hsame.symm]
        exact ih _
      | ok a =>
        rw [tryEach_of_ok hp, tryEach_of_ok hsame.symm]
        refine ⟨rfl, fun a' c'' hok => ?_⟩
        cases hok
        exact ⟨htokens, htakes a c' hp⟩

/-- A choice fails where it stands. -/
theorem RunsAlike.oneOf {ps qs : List (Parser α)}
    (h : List.Forall₂ (fun p q => RunsAlike k p q c) ps qs) (otherwise : Cursor → ParseError) :
    RunsAlike k (oneOf ps otherwise) (oneOf qs otherwise) c := by
  obtain ⟨hsame, htakes⟩ := tryEach_alike h none
  cases hp : tryEach c ps none with
  | ok r =>
    obtain ⟨a, c'⟩ := r
    obtain ⟨htokens, hlength⟩ := htakes a c' hp
    have hps : (Parser.oneOf ps otherwise).run c = (.ok a, c') := run_oneOf_eq_ok.mpr hp
    have hqs : (Parser.oneOf qs otherwise).run c = (.ok a, c') :=
      run_oneOf_eq_ok.mpr (hsame ▸ hp)
    exact ((runsAlike_pure a c').of_run hps hqs htokens hlength).mono (Nat.le_add_left k 0)
  | error best =>
    exact (runsAlike_fail _ k c).of_run (l := 0) (run_oneOf_of_error hp)
      (run_oneOf_of_error (hsame ▸ hp)) rfl (Nat.le_refl _)

/-- What is inside runs after the opening token, or here if that is missing. -/
theorem RunsAlike.enclosed {b : Brackets}
    (hopen : c.nextIs b.openKind b.openText = true → RunsAlike 0 p q c.next)
    (hmissing : c.nextIs b.openKind b.openText = false → RunsAlike 0 p q c) :
    RunsAlike 1 (enclosed p b) (enclosed q b) c := by
  refine .withCursor (RunsAlike.acceptThen (l := 0) (Nat.le_refl _) (fun ho => ?_) fun hm => ?_)
  · refine (hopen ho).bind fun a d _ => .acceptThen (l := 0) (Nat.zero_le _) (fun _ => ?_) fun _ => ?_
    · exact runsAlike_pure a d.next
    · exact .withCursor (runsAlike_fail _ 0 d)
  · exact (hmissing hm).result.bind fun _ d _ => runsAlike_fail _ 1 d

/-! ## Recursion -/

section Recursion

variable {ι : Type} {F G : (ι → Parser α) → ι → Parser α} {r s : Nat → ι → Parser α} {m : Nat}

/-- Where fewer than `m` tokens are left, the bodies run alike if their nested calls do wherever
still fewer are left. -/
def Guards (k m : Nat) (F G : (ι → Parser α) → ι → Parser α) : Prop :=
  ∀ X Y c, c.rest.length < m → (∀ i, AlikeBelow k c.rest.length (X i) (Y i)) →
    ∀ i, RunsAlike k (F X i) (G Y i) c

/-- Two recursions that are unrolled more often than tokens are left run alike, whatever their
innermost calls are. -/
theorem Guards.runsAlike (h : Guards k m F G) (hr : ∀ n, r (n + 1) = F (r n))
    (hs : ∀ n, s (n + 1) = G (s n)) :
    ∀ n c, c.rest.length < n → c.rest.length < m → ∀ i, RunsAlike k (r n i) (s n i) c := by
  intro n
  induction n with
  | zero => exact fun c hn => absurd hn (Nat.not_lt_zero _)
  | succ n ih =>
    intro c hn hm i
    rw [hr, hs]
    exact h _ _ c hm (fun j d hd => ih d (by omega) (by omega) j) i

theorem Guards.withFuel (h : Guards k m F G) (hr : ∀ n, r (n + 1) = F (r n))
    (hs : ∀ n, s (n + 1) = G (s n)) (hc : c.rest.length < m) (i : ι) :
    RunsAlike k (Parser.withFuel (r · i)) (Parser.withFuel (s · i)) c :=
  .withCursor (h.runsAlike hr hs _ c (Nat.lt_succ_self _) hc i)

/-- The parsers solve a recursion that ends. Unrolled more often than tokens are left it gives their
results, whatever the innermost calls are: it does not come to them. -/
structure Settles (F : (ι → Parser α) → ι → Parser α) (p : ι → Parser α) : Prop where
  unfolds : F p = p
  ends : ∀ innermost n c, c.rest.length < n → ∀ i, (F^[n] innermost i).run c = (p i).run c

/-- **A recursion ends if its nested calls are made where fewer tokens are left.** -/
theorem Settles.of_guards (h : ∀ m, Guards k m F F) (hr : ∀ n, r (n + 1) = F (r n)) :
    Settles F fun i => Parser.withFuel (r · i) := by
  have halike : ∀ innermost n c, c.rest.length < n →
      ∀ i, RunsAlike k (F^[n] innermost i) (Parser.withFuel (r · i)) c := by
    intro innermost n c hn i
    -- the last calls that are not made are part of the innermost ones
    obtain ⟨d, rfl⟩ := Nat.exists_eq_add_of_lt hn
    have hsplit : F^[c.rest.length + d + 1] innermost =
        F^[c.rest.length + 1] (F^[d] innermost) := by
      rw [← Function.iterate_add_apply, Nat.add_right_comm]
    rw [hsplit]
    have hunrolled := (h _).runsAlike (r := fun n => F^[n] (F^[d] innermost)) (s := r)
      (fun n => Function.iterate_succ_apply' F n _) hr _ c (Nat.lt_succ_self _)
      (Nat.lt_succ_self _) i
    exact ⟨hunrolled.same, hunrolled.tokens, hunrolled.onward, hunrolled.takes⟩
  refine ⟨?_, fun innermost n c hn i => (halike innermost n c hn i).same⟩
  funext i
  refine Parser.ext fun c => ?_
  have hstep := h _ (F^[c.rest.length] (r 0)) _ c (Nat.lt_succ_self _)
    (fun j d hd => halike (r 0) _ d hd j) i
  have hlast := halike (r 0) _ c (Nat.lt_succ_self _) i
  rw [Function.iterate_succ_apply'] at hlast
  exact hstep.same.symm.trans hlast.same

/-- The body of a recursion without parameters, among those with parameters. -/
def alone (step : Parser α → Parser α) (more : Unit → Parser α) (_ : Unit) : Parser α :=
  step (more ())

variable {f g : Parser α → Parser α} {u v : Nat → Parser α}

theorem Guards.withFuel_alone (h : Guards k m (alone f) (alone g)) (hu : ∀ n, u (n + 1) = f (u n))
    (hv : ∀ n, v (n + 1) = g (v n)) (hc : c.rest.length < m) :
    RunsAlike k (Parser.withFuel u) (Parser.withFuel v) c :=
  h.withFuel (r := fun n _ => u n) (s := fun n _ => v n) (fun n => funext fun _ => hu n)
    (fun n => funext fun _ => hv n) hc ()

theorem Settles.of_guards_alone (h : ∀ m, Guards k m (alone f) (alone f))
    (hu : ∀ n, u (n + 1) = f (u n)) : Settles (alone f) fun _ => Parser.withFuel u :=
  of_guards (r := fun n _ => u n) h fun n => funext fun _ => hu n

end Recursion

/-! ## Series -/

section Series

variable {element element' : Parser α} {kind : TokenKind} {delimiter : String} {m : Nat}

theorem guards_moreElements (h : AlikeBelow 0 m element element') :
    Guards 0 m (alone (moreElementsStep element kind delimiter))
      (alone (moreElementsStep element' kind delimiter)) := by
  intro X Y c hm hX _
  have hpure := runsAlike_pure ([] : List α) c
  cases hd : c.nextIs kind delimiter with
  | false =>
    exact hpure.of_run (l := 0) (run_moreElementsStep_done (.inl hd))
      (run_moreElementsStep_done (.inl hd)) rfl (Nat.le_refl _)
  | true =>
    have hlt := rest_next_lt_of_nextIs hd
    have helement := h c.next (Nat.lt_trans hlt hm)
    have hsame := helement.same
    have htokens := helement.tokens
    cases hp : element.run c.next with
    | mk r c' =>
      rw [hp] at hsame htokens
      cases r with
      | error e =>
        exact hpure.of_run (l := 0) (run_moreElementsStep_done (.inr ⟨e, c', hp⟩))
          (run_moreElementsStep_done (.inr ⟨e, c', hsame.symm⟩)) rfl (Nat.le_refl _)
      | ok a =>
        have hlength := Nat.lt_of_le_of_lt (helement.takes a c' hp) hlt
        exact ((hX () c' hlength).map (a :: ·)).of_run (l := 0)
          (run_moreElementsStep_next hd hp) (run_moreElementsStep_next hd hsame.symm)
          (htokens.trans (tokens_next c)) (Nat.le_of_lt hlength)

theorem runsAlike_moreElements (h : AlikeBelow 0 m element element') (hc : c.rest.length < m) :
    RunsAlike 0 (withFuel (moreElements element kind delimiter))
      (withFuel (moreElements element' kind delimiter)) c :=
  (guards_moreElements h).withFuel_alone moreElements_succ moreElements_succ hc

theorem RunsAlike.sepBy (h : AlikeBelow 0 m element element') (hc : c.rest.length < m) :
    RunsAlike 0 (sepBy element kind delimiter) (sepBy element' kind delimiter) c := by
  have hsame := (h c hc).same
  have htokens := (h c hc).tokens
  cases hp : element.run c with
  | mk r c' =>
    rw [hp] at hsame htokens
    cases r with
    | error e =>
      exact (runsAlike_pure ([] : List α) c).of_run (l := 0) (run_sepBy_nil ⟨e, c', hp⟩)
        (run_sepBy_nil ⟨e, c', hsame.symm⟩) rfl (Nat.le_refl _)
    | ok a =>
      have hlength := (h c hc).takes a c' hp
      have hmore : RunsAlike 0 (Parser.withFuel (moreElements element kind delimiter))
          (Parser.withFuel (moreElements element' kind delimiter)) c' :=
        runsAlike_moreElements h (Nat.lt_of_le_of_lt hlength hc)
      exact (hmore.map (a :: ·)).of_run (l := 0) (run_sepBy_next hp) (run_sepBy_next hsame.symm)
        htokens hlength

end Series

/-! ## Positions -/

/-- The production passes at least one token where it succeeds, and does not go back where it
fails. -/
structure Progresses (p : Parser α) : Prop where
  ok : ∀ c a c', p.run c = (.ok a, c') →
    c'.tokens = c.tokens ∧ c.position < c'.position ∧ c'.position ≤ c.tokenCount
  error : ∀ c e c', p.run c = (.error e, c') → c'.tokens = c.tokens ∧ c.position ≤ c'.position

theorem progresses_of_runsAlike (h : ∀ c, RunsAlike 1 p p c) : p.Progresses where
  ok c a c' hrun := by
    have htokens := (h c).tokens
    rw [hrun] at htokens
    refine ⟨htokens, position_lt htokens ((h c).takes a c' hrun), ?_⟩
    rw [tokenCount_eq_length]
    exact position_le_length htokens
  error c e c' hrun := by
    have hlast : (p.run c).2 = c' := congrArg Prod.snd hrun
    have htokens := (h c).tokens
    have honward := (h c).onward
    rw [hlast] at htokens honward
    have hcount : c'.tokenCount = c.tokenCount := by
      rw [tokenCount_eq_length, tokenCount_eq_length, htokens]
    refine ⟨htokens, ?_⟩
    unfold tokenCount at hcount
    unfold position
    omega

end FrontEnd.Parser
