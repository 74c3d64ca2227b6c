import FrontEnd.Proofs.LineColumns
import Mathlib.Data.List.Pairwise

/-!
# Columns at the limit

A column is one more than the characters before it on its line. The characters are counted without
a bound and then written as a 32-bit word, to which one is added. Sources of any length are meant
here, also those that are longer than the largest offset.

* `lastStart_lineAt`: the line of an offset is the one whose start is the last not behind it. Line
  starts beyond the limit are clamped to it, so this one is looked for in a table with repeated
  entries.
* `counts_charsBefore`: the characters are counted from there, up to the offset or the end.
* `limit_of_count`: as many characters as the limit are counted at one place only, the offset at the
  limit of a source that starts with so many characters of one byte and has no line feed.
* `column_wraps_iff` is the statement: a column is what it should be everywhere but there, where the
  addition wraps to zero.
-/

set_option autoImplicit false

namespace FrontEnd

open Text

namespace LineTable

/-- A line starts at the offset: it is zero, or a line feed stands before it. What is beyond the
limit is clamped to it. -/
def StartsLine (source : String) (start : Nat) : Prop :=
  start = 0 ∨ ∃ front back, source.toList = front ++ '\n' :: back ∧
    start = min (byteLength front + 1) Span.limit

/-- Of the line starts, the last that is not behind the offset. -/
structure LastStart (source : String) (offset start : Nat) : Prop where
  starts : StartsLine source start
  start_le : start ≤ offset
  latest : ∀ other, StartsLine source other → other ≤ offset → other ≤ start

/-- The number of characters between two offsets; none are counted if one of the offsets is no
boundary. -/
structure Counts (cs : List Char) (start stop n : Nat) : Prop where
  inside : ∀ front mid back, cs = front ++ (mid ++ back) → byteLength front = start →
    byteLength (front ++ mid) = stop → n = mid.length
  outside : (∀ front mid back, cs = front ++ (mid ++ back) → byteLength front = start →
    byteLength (front ++ mid) ≠ stop) → n = 0

/-! ## The start of the line -/

section

variable {source : String} {offset start : Nat} {cs : List Char}

theorem mem_startsFrom_iff :
    start ∈ startsFrom offset cs ↔
      ∃ front back, cs = front ++ '\n' :: back ∧
        start = min (offset + byteLength front + 1) Span.limit := by
  induction cs generalizing offset with
  | nil => simp [startsFrom]
  | cons c cs ih =>
    have hrest : start ∈ startsFrom (offset + c.utf8Size) cs ↔
        ∃ front back, c :: cs = (c :: front) ++ '\n' :: back ∧
          start = min (offset + byteLength (c :: front) + 1) Span.limit := by
      simp only [ih, byteLength_cons, List.cons_append, List.cons.injEq, true_and, Nat.add_assoc]
    have hsize : ('\n').utf8Size = 1 := rfl
    rw [startsFrom]
    constructor
    · intro h
      split at h
      · next hc =>
        rcases List.mem_cons.mp h with rfl | h
        · exact ⟨[], cs, by rw [hc]; rfl, by rw [hc, hsize]; rfl⟩
        · obtain ⟨front, back, hcs, hstart⟩ := hrest.mp h
          exact ⟨c :: front, back, hcs, hstart⟩
      · obtain ⟨front, back, hcs, hstart⟩ := hrest.mp h
        exact ⟨c :: front, back, hcs, hstart⟩
    · rintro ⟨front, back, hcs, hstart⟩
      cases front with
      | nil =>
        obtain ⟨rfl, rfl⟩ := List.cons.inj hcs
        rw [if_pos rfl, hstart]
        exact List.mem_cons_self
      | cons d front =>
        obtain ⟨rfl, -⟩ := List.cons.inj hcs
        have hmem := hrest.mpr ⟨front, back, hcs, hstart⟩
        split
        · exact List.mem_cons_of_mem _ hmem
        · exact hmem

theorem mem_starts_iff :
    start ∈ (ofSource source).starts.toList ↔ StartsLine source start := by
  show start ∈ 0 :: startsFrom 0 source.toList ↔ _
  simp only [List.mem_cons, mem_startsFrom_iff, Nat.zero_add, StartsLine]

/-- A line start is not behind the end of the source. -/
theorem StartsLine.le_length (h : StartsLine source start) : start ≤ byteLength source.toList := by
  rcases h with rfl | ⟨front, back, hs, rfl⟩
  · exact Nat.zero_le _
  · have hsize : ('\n').utf8Size = 1 := rfl
    rw [hs, byteLength_append, byteLength_cons, hsize]
    omega

theorem startsFrom_ordered : (startsFrom offset cs).Pairwise (· ≤ ·) := by
  induction cs generalizing offset with
  | nil => exact List.Pairwise.nil
  | cons c cs ih =>
    rw [startsFrom]
    split
    · refine List.pairwise_cons.mpr ⟨fun later hlater => ?_, ih⟩
      obtain ⟨front, -, -, rfl⟩ := mem_startsFrom_iff.mp hlater
      omega
    · exact ih

/-- An ordered list splits into what is not above a value and what is. -/
theorem exists_split_of_ordered {l : List Nat} (h : l.Pairwise (· ≤ ·)) (value : Nat) :
    ∃ upTo behind, l = upTo ++ behind ∧ (∀ x ∈ upTo, x ≤ value) ∧ ∀ x ∈ behind, value < x := by
  induction l with
  | nil => exact ⟨[], [], rfl, fun _ hx => (nomatch hx), fun _ hx => (nomatch hx)⟩
  | cons x xs ih =>
    obtain ⟨hx, hxs⟩ := List.pairwise_cons.mp h
    by_cases hle : x ≤ value
    · obtain ⟨upTo, behind, rfl, hlow, hhigh⟩ := ih hxs
      exact ⟨x :: upTo, behind, rfl, List.forall_mem_cons.mpr ⟨hle, hlow⟩, hhigh⟩
    · have hall : ∀ y ∈ x :: xs, value < y :=
        List.forall_mem_cons.mpr ⟨by omega, fun y hy => by have := hx y hy; omega⟩
      exact ⟨[], x :: xs, rfl, fun _ hy => (nomatch hy), hall⟩

/-- The line of an offset starts where the last line up to it does. -/
theorem lastStart_lineAt (source : String) (offset : Nat) :
    ∃ start, (ofSource source).lineStart? ((ofSource source).lineAt offset) = some start ∧
      LastStart source offset start := by
  have hordered : (ofSource source).starts.toList.Pairwise (· ≤ ·) :=
    List.pairwise_cons.mpr ⟨fun _ _ => Nat.zero_le _, startsFrom_ordered⟩
  obtain ⟨upTo, behind, hsplit, hlow, hhigh⟩ := exists_split_of_ordered hordered offset
  have hzero : 0 ∈ upTo := by
    have hmem : 0 ∈ upTo ++ behind := hsplit ▸ mem_starts_iff.mpr (.inl rfl)
    rcases List.mem_append.mp hmem with h | h
    · exact h
    · exact absurd (hhigh 0 h) (Nat.not_lt_zero _)
  have hne := List.ne_nil_of_mem hzero
  have hpos := List.length_pos_iff.mpr hne
  have hline := lineAt_of_split hsplit hne hlow hhigh
  have hlast : (ofSource source).starts[upTo.length - 1]? = some (upTo.getLast hne) := by
    rw [← Array.getElem?_toList, hsplit, List.getElem?_append_left (by omega),
      ← List.getLast?_eq_getElem?, List.getLast?_eq_some_getLast hne]
  refine ⟨upTo.getLast hne, ?_, ?_, hlow _ (List.getLast_mem hne), fun other hother hle => ?_⟩
  · rw [hline]
    obtain ⟨n, hn⟩ := Nat.exists_eq_add_of_lt hpos
    rw [Nat.zero_add] at hn
    rw [hn] at hlast ⊢
    exact hlast
  · refine mem_starts_iff.mp ?_
    rw [hsplit]
    exact List.mem_append_left _ (List.getLast_mem hne)
  · have hmem : other ∈ upTo ++ behind := hsplit ▸ mem_starts_iff.mpr hother
    rcases List.mem_append.mp hmem with h | h
    · rw [hsplit] at hordered
      exact (List.pairwise_append.mp hordered).1.rel_getLast h
    · exact absurd (hhigh other h) (Nat.not_lt.mpr hle)

theorem LastStart.unique {start' : Nat} (h : LastStart source offset start)
    (h' : LastStart source offset start') : start = start' :=
  Nat.le_antisymm (h'.latest _ h.starts h.start_le) (h.latest _ h'.starts h'.start_le)

end

/-! ## The characters before an offset -/

section

variable {source : String} {offset start n : Nat}

theorem counts_charsBefore (h : LastStart source offset start) :
    Counts source.toList start (min offset (byteLength source.toList))
      ((ofSource source).charsBefore start offset) := by
  have hle := h.start_le
  have hlength := h.starts.le_length
  have hstop : max (min offset (byteLength source.toList)) start =
      min offset (byteLength source.toList) := by omega
  unfold charsBefore
  rw [show (ofSource source).source = source from rfl]
  dsimp only
  rw [hstop]
  refine ⟨fun front mid back hs hfront hmid => ?_, fun hnone => ?_⟩
  · have hbetween := between_middle hs
    rw [← byteLength_append, hfront, hmid] at hbetween
    rw [hbetween]
  · cases hbetween :
        between source.toList start (min offset (byteLength source.toList)) with
    | none => rfl
    | some mid =>
      obtain ⟨front, back, hs, hfront, hmid⟩ := between_eq_some hbetween
      exact absurd hmid (hnone front mid back hs hfront)

/-- The two offsets settle how many characters are counted. -/
theorem Counts.unique {cs : List Char} {stop n' : Nat} (h : Counts cs start stop n)
    (h' : Counts cs start stop n') : n = n' := by
  by_cases hboth : ∃ front mid back, cs = front ++ (mid ++ back) ∧ byteLength front = start ∧
      byteLength (front ++ mid) = stop
  · obtain ⟨front, mid, back, hcs, hfront, hmid⟩ := hboth
    rw [h.inside front mid back hcs hfront hmid, h'.inside front mid back hcs hfront hmid]
  · have hnone (front mid back : List Char) (hcs : cs = front ++ (mid ++ back))
        (hfront : byteLength front = start) : byteLength (front ++ mid) ≠ stop :=
      fun hmid => hboth ⟨front, mid, back, hcs, hfront, hmid⟩
    rw [h.outside hnone, h'.outside hnone]

/-- Some characters are counted only if they take that many bytes between the two offsets. -/
theorem Counts.exists_counted {cs : List Char} {stop : Nat} (h : Counts cs start stop n)
    (hpos : 0 < n) : ∃ front mid back, cs = front ++ (mid ++ back) ∧ byteLength front = start ∧
      byteLength (front ++ mid) = stop ∧ mid.length = n := by
  by_contra hnone
  refine Nat.ne_of_gt hpos (h.outside fun front mid back hcs hfront hmid => hnone ?_)
  exact ⟨front, mid, back, hcs, hfront, hmid, (h.inside front mid back hcs hfront hmid).symm⟩

theorem Counts.le {cs : List Char} {stop : Nat} (h : Counts cs start stop n) : n ≤ stop := by
  rcases Nat.eq_zero_or_pos n with rfl | hpos
  · exact Nat.zero_le _
  · obtain ⟨front, mid, -, -, -, hmid, hlength⟩ := h.exists_counted hpos
    have := length_le_byteLength mid
    rw [byteLength_append] at hmid
    omega

/-- The source has no line feed, and as many characters as the limit make up as many bytes at its
start. -/
def LongLine (source : String) : Prop :=
  '\n' ∉ source.toList ∧ ∃ line rest, source.toList = line ++ rest ∧ line.length = Span.limit ∧
    byteLength line = Span.limit

theorem limit_of_count (hoffset : offset ≤ Span.limit) (hstart : LastStart source offset start)
    (hcounts : Counts source.toList start (min offset (byteLength source.toList)) n) :
    n = Span.limit ↔ offset = Span.limit ∧ LongLine source := by
  constructor
  · rintro rfl
    obtain ⟨front, mid, back, hs, hfront, hmid, hlength⟩ := hcounts.exists_counted (by decide)
    have hbytes := length_le_byteLength mid
    rw [byteLength_append] at hmid
    -- the characters take all the bytes up to the largest offset, so the line starts at zero
    have hmax : offset = Span.limit ∧ start = 0 ∧ byteLength mid = Span.limit := by omega
    obtain ⟨rfl, rfl, hline⟩ := hmax
    have hnil : front = [] := by
      have := length_le_byteLength front
      exact List.length_eq_zero_iff.mp (by omega)
    subst hnil
    refine ⟨rfl, fun hmem => ?_, mid, back, hs, hlength, hline⟩
    obtain ⟨before, after, hsplit⟩ := List.append_of_mem hmem
    have hlater := hstart.latest _ (.inr ⟨before, after, hsplit, rfl⟩) (Nat.min_le_right _ _)
    have hlimit : 0 < Span.limit := by decide
    omega
  · rintro ⟨rfl, hmem, line, rest, hs, hlength, hline⟩
    have hzero : start = 0 := by
      rcases hstart.starts with h | ⟨before, after, hsplit, -⟩
      · exact h
      · exact absurd (hsplit ▸ List.mem_append_right _ List.mem_cons_self) hmem
    subst hzero
    have hstop : min Span.limit (byteLength source.toList) = Span.limit := by
      rw [hs, byteLength_append, hline]
      omega
    rw [hcounts.inside [] line rest hs rfl (by rw [hstop]; exact hline), hlength]

/-- What the column is, `n` characters from the start of the line: one more than `n`, unless that
does not fit. -/
structure ColumnAfter (source : String) (offset n : Nat) (column : UInt32) : Prop where
  exact_iff : column.toNat = min (n + 1) Span.limit ↔ n ≠ Span.limit
  pos_iff : 1 ≤ column.toNat ↔ n ≠ Span.limit
  wraps : n = Span.limit → column = 0
  limit_iff : n = Span.limit ↔ offset = Span.limit ∧ LongLine source

theorem columnAfter (hoffset : offset ≤ Span.limit) (hstart : LastStart source offset start)
    (hcounts : Counts source.toList start (min offset (byteLength source.toList)) n) :
    ColumnAfter source offset n (countWord n + 1) := by
  have hlimit := limit_of_count hoffset hstart hcounts
  have hle : n ≤ Span.limit := hcounts.le.trans ((Nat.min_le_left _ _).trans hoffset)
  rcases Nat.eq_or_lt_of_le hle with rfl | hlt
  · have hzero : countWord Span.limit + 1 = 0 := by decide
    have hpos : 0 < Span.limit := by decide
    rw [hzero]
    refine ⟨?_, ?_, fun _ => rfl, hlimit⟩
    · rw [UInt32.toNat_zero]
      omega
    · rw [UInt32.toNat_zero]
      omega
  · have hcolumn := countWord_add_one hlt
    refine ⟨?_, ?_, fun heq => absurd heq (Nat.ne_of_lt hlt), hlimit⟩
    · omega
    · omega

end

/-- The columns of a source: the characters are counted between the start of the line and the
offset, or the end of the source if that is before it. -/
structure ColumnsCounted (source : String) (offset : Nat) : Prop where
  counted : ∃ start n, LastStart source offset start ∧
    Counts source.toList start (min offset (byteLength source.toList)) n
  column : ∀ start n, LastStart source offset start →
    Counts source.toList start (min offset (byteLength source.toList)) n →
      ColumnAfter source offset n ((ofSource source).position offset).2

/-- At every offset the line has a start, and so many characters are counted from there. -/
theorem exists_columnAfter (source : String) {offset : Nat} (hoffset : offset ≤ Span.limit) :
    ∃ start n, LastStart source offset start ∧
      Counts source.toList start (min offset (byteLength source.toList)) n ∧
        ColumnAfter source offset n ((ofSource source).position offset).2 := by
  obtain ⟨start, hline, hstart⟩ := lastStart_lineAt source offset
  have hcounts := counts_charsBefore hstart
  refine ⟨start, _, hstart, hcounts, ?_⟩
  have hposition : ((ofSource source).position offset).2 =
      countWord ((ofSource source).charsBefore start offset) + 1 := by
    unfold position
    dsimp only
    rw [hline, Option.getD_some]
  rw [hposition]
  exact columnAfter hoffset hstart hcounts

theorem longLine_replicate {n : Nat} (h : n = Span.limit) :
    LongLine (String.ofList (List.replicate n 'a')) := by
  have hbytes (k : Nat) : byteLength (List.replicate k 'a') = k := by
    induction k with
    | zero => rfl
    | succ k ih =>
      have hsize : ('a').utf8Size = 1 := rfl
      rw [List.replicate_succ, byteLength_cons, ih, hsize, Nat.add_comm]
  have hchars : (String.ofList (List.replicate n 'a')).toList = List.replicate n 'a' :=
    String.toList_ofList
  unfold LongLine
  rw [hchars]
  refine ⟨fun hmem => ?_, List.replicate n 'a', [], (List.append_nil _).symm, ?_, ?_⟩
  · exact absurd (List.eq_of_mem_replicate hmem) (by decide)
  · rw [List.length_replicate, h]
  · rw [hbytes, h]

end LineTable

end FrontEnd
