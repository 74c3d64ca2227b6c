/-!
# Spans

Half-open ranges of byte offsets into one source text.

* `Span.ofRange` clamps both ends to `Span.limit`, the largest offset a span can hold.
* `Span.merge` is the smallest span that covers two spans; it is associative, commutative and
  idempotent.
-/

namespace FrontEnd

/-- The byte offsets from `start` up to, but not including, `stop`. -/
structure Span where
  start : Nat
  stop : Nat
  deriving DecidableEq, Repr

namespace Span

/-- The largest offset that a span records: offsets are 32 bits wide. -/
def limit : Nat := 4294967295

/-- The span that stands where no place in the source is known. -/
def none : Span := ⟨0, 0⟩

instance : Inhabited Span := ⟨Span.none⟩

/-- The span of a range of offsets, each end clamped to `limit`. -/
def ofRange (start stop : Nat) : Span := ⟨min start limit, min stop limit⟩

/-- The empty span at one offset. -/
def point (offset : Nat) : Span := ⟨offset, offset⟩

/-- The number of bytes covered, as a 32-bit word: a span whose ends are out of order has the length
that subtraction of such words gives. -/
def length (s : Span) : Nat := (s.stop + (limit + 1) - s.start) % (limit + 1)

/-- No byte is covered: both ends are the same offset. -/
def isEmpty (s : Span) : Bool := s.start == s.stop

/-- The offset lies inside the span. -/
def contains (s : Span) (offset : Nat) : Bool := decide (s.start ≤ offset ∧ offset < s.stop)

/-- The smallest span that covers both. -/
def merge (s t : Span) : Span := ⟨min s.start t.start, max s.stop t.stop⟩

/-- The two ends with two dots between them, as in `3..8`. -/
def text (s : Span) : String := toString s.start ++ ".." ++ toString s.stop

theorem ofRange_eq {start stop : Nat} (hs : start ≤ limit) (ht : stop ≤ limit) :
    ofRange start stop = ⟨start, stop⟩ := by
  simp [ofRange, Nat.min_eq_left hs, Nat.min_eq_left ht]

theorem length_eq {s : Span} (h : s.start ≤ s.stop) (hs : s.stop ≤ limit) :
    s.length = s.stop - s.start := by
  unfold length limit at *
  omega

@[simp] theorem merge_start (s t : Span) : (s.merge t).start = min s.start t.start := rfl

@[simp] theorem merge_stop (s t : Span) : (s.merge t).stop = max s.stop t.stop := rfl

theorem merge_comm (s t : Span) : s.merge t = t.merge s := by
  simp [merge, Nat.min_comm, Nat.max_comm]

theorem merge_assoc (s t u : Span) : (s.merge t).merge u = s.merge (t.merge u) := by
  simp [merge, Nat.min_assoc, Nat.max_assoc]

@[simp] theorem merge_self (s : Span) : s.merge s = s := by
  simp [merge]

end Span

end FrontEnd
