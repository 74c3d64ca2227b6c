import FrontEnd.Grammar.Parser

/-!
# Choice between alternatives

`Parser.oneOf` tries parsers in turn from one place. The first that succeeds is taken. If none
does, the error reported is the one that got furthest, if that is beyond the start; otherwise no
alternative read anything of use, and the caller says what was wrong.

* `run_oneOf_error`: a choice that fails leaves the cursor where it was.
-/

namespace FrontEnd.Parser

variable {α : Type}

/-- The furthest of an error and those before it. -/
def furthestSoFar : Option ParseError → ParseError → ParseError
  | none, e => e
  | some best, e => best.further e

/-- Run each alternative from `c` until one succeeds; `best` is the furthest error so far. -/
def tryEach (c : Cursor) :
    List (Parser α) → Option ParseError → Except (Option ParseError) (α × Cursor)
  | [], best => .error best
  | p :: ps, best =>
    match p.run c with
    | (.ok a, c') => .ok (a, c')
    | (.error e, _) => tryEach c ps (some (furthestSoFar best e))

/-- The error of a choice whose alternatives all failed. -/
def choiceError (c : Cursor) (best : Option ParseError) (otherwise : Cursor → ParseError) :
    ParseError :=
  match best with
  | some e => if c.nextSpan.start < e.span.start then e else otherwise c
  | none => otherwise c

/-- The first alternative that succeeds. -/
def oneOf (alternatives : List (Parser α)) (otherwise : Cursor → ParseError) : Parser α :=
  ⟨fun c =>
    match tryEach c alternatives none with
    | .ok (a, c') => (.ok a, c')
    | .error best => (.error (choiceError c best otherwise), c)⟩

theorem run_oneOf_error {alternatives : List (Parser α)} {otherwise : Cursor → ParseError}
    {c c' : Cursor} {e : ParseError} (h : (oneOf alternatives otherwise).run c = (.error e, c')) :
    c' = c := by
  unfold oneOf at h
  dsimp only at h
  split at h
  · simp at h
  · simp only [Prod.mk.injEq] at h
    exact h.2.symm

end FrontEnd.Parser
