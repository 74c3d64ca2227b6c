import FrontEnd.Proofs.LexerStates
import Mathlib.Data.List.Find

/-!
# Look-ups by byte offset

Whether a literal stands at an offset is asked of bytes, which character stands there of characters.
The two agree, for UTF-8 synchronises itself: no byte inside a character can start one.

* `contains_iff`: the bytes of a literal stand at an offset exactly if it is a boundary from which
  the characters start with those of the literal.
* `nextBoundary_charAt`: the length of the character at a boundary leads to the next boundary.
* `slice_eq_walk`: between two boundaries stand the characters that are stepped over from one to the
  other.
* `lookups_agree` is the statement for a source. `Lexer.Reached.reads` says that a lexer reads what
  these look-ups find at its offset.
-/

set_option autoImplicit false

namespace FrontEnd

namespace Text

/-- The offset is a boundary, and these are the characters from there on. -/
def IsRest (s : String) (offset : Nat) (rest : List Char) : Prop :=
  ∃ front, s.toList = front ++ rest ∧ byteLength front = offset

/-- The second offset is a boundary, and there is none between the first and it. -/
structure NextBoundary (s : String) (offset next : Nat) : Prop where
  after : offset < next
  boundary : IsBoundary s next
  nearest : ∀ n, offset < n → n < next → ¬IsBoundary s n

/-- The characters that are found in steps from one offset up to another, each step as long as the
character. -/
def walk (s : String) (stop offset : Nat) : List Char :=
  if offset < stop then
    charAt s offset :: walk s stop (offset + (charAt s offset).utf8Size)
  else []
termination_by stop - offset
decreasing_by
  have := Char.utf8Size_pos (charAt s offset)
  omega

/-! ## Bytes -/

section

variable {cs ds : List Char} {c : Char} {n : Nat}

theorem bytes_cons (c : Char) (cs : List Char) :
    bytes (c :: cs) = String.utf8EncodeChar c ++ bytes cs := List.flatMap_cons

/-- What starts with the bytes of some characters starts with these characters. -/
theorem prefix_of_bytes (h : bytes cs <+: bytes ds) : cs <+: ds := by
  obtain ⟨tail, htail⟩ := h
  refine List.isPrefix_of_utf8Encode_append_eq_utf8Encode tail.toByteArray ?_
  show (bytes cs).toByteArray ++ tail.toByteArray = (bytes ds).toByteArray
  rw [← List.toByteArray_append, htail]

theorem bytes_prefix (h : cs <+: ds) : bytes cs <+: bytes ds := by
  obtain ⟨tail, rfl⟩ := h
  exact ⟨bytes tail, List.flatMap_append.symm⟩

/-- Characters do not start inside a character. -/
theorem not_prefix_drop_utf8EncodeChar {tail : List UInt8} (hpos : 0 < n) (hn : n < c.utf8Size)
    (hne : cs ≠ []) : ¬bytes cs <+: (String.utf8EncodeChar c).drop n ++ tail := by
  obtain ⟨d, ds, rfl⟩ := List.exists_cons_of_ne_nil hne
  rintro ⟨after, hafter⟩
  have hlength := String.length_utf8EncodeChar c
  have hlength' := String.length_utf8EncodeChar d
  have hsize := Char.utf8Size_pos d
  have hzero : 0 < (String.utf8EncodeChar d).length := by omega
  have hinside : n < (String.utf8EncodeChar c).length := by omega
  -- the first byte of the characters is the byte inside the character
  have hbyte : (String.utf8EncodeChar d)[0]? = (String.utf8EncodeChar c)[n]? := by
    have hhead := congrArg (fun bs => bs[0]?) hafter
    rw [bytes_cons, List.append_assoc, List.getElem?_append_left hzero,
      List.getElem?_append_left (by rw [List.length_drop]; omega), List.getElem?_drop] at hhead
    exact hhead
  rw [List.getElem?_eq_getElem hzero, List.getElem?_eq_getElem hinside,
    Option.some.injEq] at hbyte
  have hfirst : (String.utf8EncodeChar d)[0].IsUTF8FirstByte :=
    UInt8.isUTF8FirstByte_getElem_utf8EncodeChar.mpr rfl
  rw [hbyte, UInt8.isUTF8FirstByte_getElem_utf8EncodeChar] at hfirst
  omega

/-- **UTF-8 synchronises itself**: where the bytes of some characters are found, these characters
stand. -/
theorem bytes_prefix_drop_iff (hne : ds ≠ []) :
    bytes ds <+: (bytes cs).drop n ↔
      ∃ front rest, cs = front ++ rest ∧ byteLength front = n ∧ ds <+: rest := by
  constructor
  · intro h
    induction cs generalizing n with
    | nil =>
      rw [show bytes [] = [] from rfl, List.drop_nil, List.prefix_nil] at h
      have hbytes : bytes ds <+: bytes [] := h ▸ List.nil_prefix
      exact absurd (List.prefix_nil.mp (prefix_of_bytes hbytes)) hne
    | cons c cs ih =>
      have hlength := String.length_utf8EncodeChar c
      rcases Nat.eq_zero_or_pos n with rfl | hpos
      · exact ⟨[], c :: cs, rfl, rfl, prefix_of_bytes h⟩
      rw [bytes_cons] at h
      by_cases hn : n < c.utf8Size
      · rw [List.drop_append_of_le_length (by omega)] at h
        exact absurd h (not_prefix_drop_utf8EncodeChar hpos hn hne)
      · obtain ⟨m, rfl⟩ := Nat.exists_eq_add_of_le (Nat.le_of_not_lt hn)
        rw [← hlength, List.drop_length_add_append] at h
        obtain ⟨front, rest, rfl, hfront, hstarts⟩ := ih h
        exact ⟨c :: front, rest, rfl, by rw [byteLength_cons, hfront], hstarts⟩
  · rintro ⟨front, rest, rfl, rfl, hstarts⟩
    rw [show bytes (front ++ rest) = bytes front ++ bytes rest from List.flatMap_append,
      ← length_bytes, List.drop_left]
    exact bytes_prefix hstarts

end

/-! ## Characters -/

section

variable {s : String} {offset : Nat} {rest : List Char} {c : Char} {cs : List Char}

theorem isRest_iff : IsRest s offset rest ↔ dropBytes s.toList offset = some rest := by
  constructor
  · rintro ⟨front, hs, rfl⟩
    rw [hs, dropBytes_append]
  · exact dropBytes_eq_some

theorem isBoundary_iff : IsBoundary s offset ↔ ∃ rest, IsRest s offset rest :=
  ⟨fun ⟨front, rest, hs, ho⟩ => ⟨rest, front, hs, ho⟩,
    fun ⟨rest, front, hs, ho⟩ => ⟨front, rest, hs, ho⟩⟩

theorem IsRest.length (h : IsRest s offset rest) :
    byteLength s.toList = offset + byteLength rest := by
  obtain ⟨front, hs, rfl⟩ := h
  rw [hs, byteLength_append]

/-- A boundary before the end is where a character starts. -/
theorem IsBoundary.exists_rest (h : IsBoundary s offset) (hlt : offset < byteLength s.toList) :
    ∃ c cs, IsRest s offset (c :: cs) := by
  obtain ⟨rest, hrest⟩ := isBoundary_iff.mp h
  have hlength := hrest.length
  cases rest with
  | nil =>
    rw [byteLength_nil] at hlength
    omega
  | cons c cs => exact ⟨c, cs, hrest⟩

/-- The characters after the first one. -/
theorem IsRest.next (h : IsRest s offset (c :: cs)) : IsRest s (offset + c.utf8Size) cs := by
  obtain ⟨front, hs, rfl⟩ := h
  refine ⟨front ++ [c], ?_, ?_⟩
  · rw [hs, List.append_assoc]
    rfl
  · rw [byteLength_append]
    rfl

theorem IsRest.lt_length (h : IsRest s offset (c :: cs)) : offset < byteLength s.toList := by
  have hpos := Char.utf8Size_pos c
  rw [h.length, byteLength_cons]
  omega

theorem contains_iff {literal : String} (hne : literal ≠ "") :
    contains s offset literal = true ↔ ∃ rest, IsRest s offset rest ∧ literal.toList <+: rest := by
  have hchars : literal.toList ≠ [] := by rwa [ne_eq, String.toList_eq_nil_iff]
  rw [contains, Bool.and_eq_true, decide_eq_true_eq, List.isPrefixOf_iff_prefix,
    bytes_prefix_drop_iff hchars]
  constructor
  · rintro ⟨-, front, rest, hs, ho, hstarts⟩
    exact ⟨rest, ⟨front, hs, ho⟩, hstarts⟩
  · rintro ⟨rest, hrest, hstarts⟩
    have hlength := hrest.length
    obtain ⟨front, hs, ho⟩ := hrest
    exact ⟨by omega, front, rest, hs, ho, hstarts⟩

theorem IsRest.charAt (h : IsRest s offset (c :: cs)) : charAt s offset = c := by
  rw [Text.charAt, isRest_iff.mp h]

theorem charAt_elsewhere (h : ¬(IsBoundary s offset ∧ offset < byteLength s.toList)) :
    charAt s offset = noChar := by
  unfold Text.charAt
  split
  · rename_i c cs hdrop
    have hrest : IsRest s offset (c :: cs) := isRest_iff.mpr hdrop
    exact absurd ⟨isBoundary_iff.mpr ⟨_, hrest⟩, hrest.lt_length⟩ h
  · rfl

/-- No boundary stands between the start of a character and its end. -/
theorem nextBoundary_charAt (hb : IsBoundary s offset) (hlt : offset < byteLength s.toList) :
    NextBoundary s offset (offset + (charAt s offset).utf8Size) := by
  obtain ⟨c, cs, hrest⟩ := hb.exists_rest hlt
  rw [hrest.charAt]
  refine ⟨Nat.lt_add_of_pos_right (Char.utf8Size_pos c), isBoundary_iff.mpr ⟨cs, hrest.next⟩, ?_⟩
  rintro n hn hnext ⟨front', rest', hs', rfl⟩
  obtain ⟨front, hs, rfl⟩ := hrest
  rcases List.append_eq_append_iff.mp (hs.symm.trans hs') with ⟨mid, rfl, hmid⟩ | ⟨mid, rfl, -⟩
  · cases mid with
    | nil =>
      rw [List.append_nil] at hn
      exact Nat.lt_irrefl _ hn
    | cons d mid =>
      obtain ⟨rfl, -⟩ := List.cons.inj hmid
      rw [byteLength_append, byteLength_cons] at hnext
      omega
  · rw [byteLength_append] at hn
    omega

/-- Steps from one boundary to another find the characters between them. -/
theorem walk_eq {mid back : List Char} (h : IsRest s offset (mid ++ back)) :
    walk s (offset + byteLength mid) offset = mid := by
  induction mid generalizing offset with
  | nil => rw [walk, if_neg (by simp)]
  | cons c mid ih =>
    have hpos := Char.utf8Size_pos c
    rw [walk, byteLength_cons, if_pos (by omega), h.charAt, ← Nat.add_assoc, ih h.next]

theorem slice_eq_walk {start stop : Nat} (hstart : IsBoundary s start) (hstop : IsBoundary s stop)
    (hle : start ≤ stop) : slice s ⟨start, stop⟩ = String.ofList (walk s stop start) := by
  obtain ⟨front, rest, hs, rfl⟩ := hstart
  obtain ⟨front', back, hs', rfl⟩ := hstop
  rcases List.append_eq_append_iff.mp (hs.symm.trans hs') with
    ⟨mid, rfl, rfl⟩ | ⟨mid, rfl, hback⟩
  · rw [byteLength_append, slice_middle hs, walk_eq ⟨front, hs, rfl⟩]
  · -- the first boundary is not before the second one, so nothing stands between them
    have hmid : mid = [] := by
      have hle' := length_le_byteLength mid
      rw [byteLength_append] at hle
      exact List.length_eq_zero_iff.mp (by omega)
    subst hmid
    have hs₀ : s.toList = front' ++ ([] ++ back) := hs'
    have hslice := slice_middle hs₀
    rw [byteLength_nil, Nat.add_zero] at hslice
    rw [List.append_nil, hslice, walk, if_neg (Nat.lt_irrefl _)]

end

end Text

open Text

/-- Look-ups at byte offsets of a source speak of its characters. -/
structure LookupsAgree (source : String) : Prop where
  contains_iff : ∀ offset literal, literal ≠ "" →
    (contains source offset literal = true ↔
      ∃ rest, IsRest source offset rest ∧ literal.toList <+: rest)
  charAt_boundary : ∀ offset c cs, IsRest source offset (c :: cs) → charAt source offset = c
  charAt_elsewhere : ∀ offset, ¬(IsBoundary source offset ∧ offset < byteLength source.toList) →
    charAt source offset = '\x00'
  next : ∀ offset, IsBoundary source offset → offset < byteLength source.toList →
    NextBoundary source offset (offset + (charAt source offset).utf8Size)
  slice_eq : ∀ start stop, IsBoundary source start → IsBoundary source stop → start ≤ stop →
    slice source ⟨start, stop⟩ = String.ofList (walk source stop start)

/-- **Look-ups by byte offset agree with the characters**, at every offset, in range or not. -/
theorem lookups_agree (source : String) : LookupsAgree source where
  contains_iff := fun _ _ => contains_iff
  charAt_boundary := fun _ _ _ => IsRest.charAt
  charAt_elsewhere := fun _ => charAt_elsewhere
  next := fun _ => nextBoundary_charAt
  slice_eq := fun _ _ => slice_eq_walk

/-- A byte inside a character of two bytes is none of its own. -/
example : contains "aé" 1 "é" = true ∧ contains "aé" 2 "é" = false ∧ charAt "aé" 2 = '\x00' := by
  decide +kernel

/-! ## What a lexer reads -/

/-- In every state a lexer reads what the look-ups find at its offset: the same next character, and
the same symbol. -/
theorem Lexer.Reached.reads {source : String} {l : Lexer} (h : Reached source l) :
    l.rest.headD '\x00' = charAt source l.offset ∧
      symbolAt? l.rest = symbols.find? (contains source l.offset) := by
  have hrest : IsRest source l.offset l.rest := h.standsIn
  constructor
  · cases hr : l.rest with
    | nil =>
      have hlength := hrest.length
      rw [hr, byteLength_nil] at hlength
      exact (charAt_elsewhere (fun hlt => by omega)).symm
    | cons c cs => exact (hr ▸ hrest).charAt.symm
  · unfold symbolAt?
    refine List.find?_congr fun symbol hsymbol => ?_
    have hne : ∀ s ∈ symbols, s ≠ "" := by decide
    rw [Bool.eq_iff_iff, List.isPrefixOf_iff_prefix, contains_iff (hne symbol hsymbol)]
    constructor
    · exact fun hstarts => ⟨l.rest, hrest, hstarts⟩
    · rintro ⟨rest, hrest', hstarts⟩
      have hsame := (isRest_iff.mp hrest').symm.trans (isRest_iff.mp hrest)
      rwa [Option.some.inj hsame] at hstarts

end FrontEnd
