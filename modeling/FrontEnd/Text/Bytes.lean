import FrontEnd.Span

/-!
# Source text by byte offset

Offsets count the bytes of the UTF-8 encoding. An offset is a boundary of a text when a character
starts or the text ends there.

* `dropBytes` is the text from a boundary on; `takeBytes` the text up to one.
* `charAt`, `slice` answer with a default where an offset is no boundary: reading never fails.
* `contains` compares bytes.
-/

namespace FrontEnd.Text

/-- The number of bytes that encode the characters. -/
def byteLength : List Char → Nat
  | [] => 0
  | c :: cs => c.utf8Size + byteLength cs

/-- The characters from byte `offset` on, if that is a boundary. -/
def dropBytes : List Char → Nat → Option (List Char)
  | cs, 0 => some cs
  | [], _ + 1 => none
  | c :: cs, n + 1 => if c.utf8Size ≤ n + 1 then dropBytes cs (n + 1 - c.utf8Size) else none

/-- The characters before byte `offset`, if that is a boundary. -/
def takeBytes : List Char → Nat → Option (List Char)
  | _, 0 => some []
  | [], _ + 1 => none
  | c :: cs, n + 1 =>
    if c.utf8Size ≤ n + 1 then
      match takeBytes cs (n + 1 - c.utf8Size) with
      | some taken => some (c :: taken)
      | none => none
    else none

/-- The characters between two boundaries, the first not after the second. -/
def between (cs : List Char) (start stop : Nat) : Option (List Char) :=
  if start ≤ stop then
    match dropBytes cs start with
    | some rest => takeBytes rest (stop - start)
    | none => none
  else none

/-- The bytes of the UTF-8 encoding. -/
def bytes (cs : List Char) : List UInt8 := cs.flatMap String.utf8EncodeChar

/-- The character that a look-up outside the text gives. -/
def noChar : Char := '\x00'

/-- The character that starts at byte `offset`, or `noChar` if none does. -/
def charAt (s : String) (offset : Nat) : Char :=
  match dropBytes s.toList offset with
  | some (c :: _) => c
  | _ => noChar

/-- The bytes of `literal` stand at byte `offset`. -/
def contains (s : String) (offset : Nat) (literal : String) : Bool :=
  decide (offset ≤ byteLength s.toList) &&
    (bytes literal.toList).isPrefixOf ((bytes s.toList).drop offset)

/-- The text a span covers, or nothing if its ends are no boundaries or are out of order. -/
def slice (s : String) (span : Span) : String :=
  match between s.toList span.start span.stop with
  | some cs => String.ofList cs
  | none => ""

@[simp] theorem byteLength_nil : byteLength [] = 0 := rfl

@[simp] theorem byteLength_cons (c : Char) (cs : List Char) :
    byteLength (c :: cs) = c.utf8Size + byteLength cs := rfl

@[simp] theorem byteLength_append (cs ds : List Char) :
    byteLength (cs ++ ds) = byteLength cs + byteLength ds := by
  induction cs with
  | nil => simp
  | cons c cs ih => simp [ih, Nat.add_assoc]

/-- Every character takes a byte, so the characters are never more than the bytes. -/
theorem length_le_byteLength (cs : List Char) : cs.length ≤ byteLength cs := by
  induction cs with
  | nil => simp
  | cons c cs ih =>
    have := Char.utf8Size_pos c
    simp only [List.length_cons, byteLength_cons]
    omega

/-- The bytes of the encoding are as many as `byteLength` says. -/
theorem length_bytes (cs : List Char) : (bytes cs).length = byteLength cs := by
  induction cs with
  | nil => rfl
  | cons c cs ih =>
    simp only [bytes, List.flatMap_cons, List.length_append, byteLength_cons]
    rw [String.length_utf8EncodeChar]
    exact congrArg (c.utf8Size + ·) ih

/-- The end of a first part is a boundary, and the second part starts there. -/
theorem dropBytes_append (cs ds : List Char) :
    dropBytes (cs ++ ds) (byteLength cs) = some ds := by
  induction cs with
  | nil => cases ds <;> rfl
  | cons c cs ih =>
    have hc := Char.utf8Size_pos c
    obtain ⟨n, hn⟩ : ∃ n, c.utf8Size + byteLength cs = n + 1 :=
      ⟨c.utf8Size + byteLength cs - 1, by omega⟩
    have hle : c.utf8Size ≤ n + 1 := by omega
    have hsub : n + 1 - c.utf8Size = byteLength cs := by omega
    simp only [List.cons_append, byteLength_cons, hn, dropBytes, if_pos hle, hsub, ih]

/-- A boundary splits the text. -/
theorem dropBytes_eq_some {cs ds : List Char} {n : Nat} (h : dropBytes cs n = some ds) :
    ∃ front, cs = front ++ ds ∧ byteLength front = n := by
  induction cs generalizing n with
  | nil =>
    cases n with
    | zero => simp only [dropBytes, Option.some.injEq] at h; exact ⟨[], by simp [← h], rfl⟩
    | succ n => simp [dropBytes] at h
  | cons c cs ih =>
    cases n with
    | zero => simp only [dropBytes, Option.some.injEq] at h; exact ⟨[], by simp [← h], rfl⟩
    | succ n =>
      simp only [dropBytes] at h
      split at h
      · next hle =>
        obtain ⟨front, rfl, hf⟩ := ih h
        exact ⟨c :: front, rfl, by simp only [byteLength_cons, hf]; omega⟩
      · simp at h

/-- The first part is what stands before its end. -/
theorem takeBytes_append (cs ds : List Char) : takeBytes (cs ++ ds) (byteLength cs) = some cs := by
  induction cs with
  | nil => cases ds <;> rfl
  | cons c cs ih =>
    have hc := Char.utf8Size_pos c
    obtain ⟨n, hn⟩ : ∃ n, c.utf8Size + byteLength cs = n + 1 :=
      ⟨c.utf8Size + byteLength cs - 1, by omega⟩
    have hle : c.utf8Size ≤ n + 1 := by omega
    have hsub : n + 1 - c.utf8Size = byteLength cs := by omega
    simp only [List.cons_append, byteLength_cons, hn, takeBytes, if_pos hle, hsub, ih]

/-- What stands before a boundary starts the text. -/
theorem takeBytes_eq_some {cs taken : List Char} {n : Nat} (h : takeBytes cs n = some taken) :
    ∃ back, cs = taken ++ back ∧ byteLength taken = n := by
  induction cs generalizing n taken with
  | nil =>
    cases n with
    | zero => cases h; exact ⟨[], rfl, rfl⟩
    | succ n => simp [takeBytes] at h
  | cons c cs ih =>
    cases n with
    | zero => cases h; exact ⟨c :: cs, rfl, rfl⟩
    | succ n =>
      simp only [takeBytes] at h
      split at h
      · next hle =>
        split at h
        · next rest hrest =>
          obtain ⟨back, rfl, hlength⟩ := ih hrest
          cases h
          exact ⟨back, rfl, by simp only [byteLength_cons, hlength]; omega⟩
        · simp at h
      · simp at h

/-- What is found between two offsets stands there, and both are boundaries. -/
theorem between_eq_some {cs mid : List Char} {start stop : Nat}
    (h : between cs start stop = some mid) :
    ∃ front back, cs = front ++ (mid ++ back) ∧ byteLength front = start ∧
      byteLength (front ++ mid) = stop := by
  unfold between at h
  split at h
  · next hle =>
    split at h
    · next rest hrest =>
      obtain ⟨front, rfl, hfront⟩ := dropBytes_eq_some hrest
      obtain ⟨back, rfl, hmid⟩ := takeBytes_eq_some h
      exact ⟨front, back, rfl, hfront, by rw [byteLength_append, hfront, hmid]; omega⟩
    · simp at h
  · simp at h

/-- What stands between two parts of a text is found from the end of the first to the start of the
last. -/
theorem between_middle {cs front mid back : List Char} (h : cs = front ++ (mid ++ back)) :
    between cs (byteLength front) (byteLength front + byteLength mid) = some mid := by
  have hlen : byteLength front + byteLength mid - byteLength front = byteLength mid := by omega
  unfold between
  rw [if_pos (Nat.le_add_right _ _), h, dropBytes_append]
  dsimp only
  rw [hlen, takeBytes_append]

/-- What stands between two parts of a text is the slice from the end of the first to the start of
the last. -/
theorem slice_middle {s : String} {front mid back : List Char}
    (h : s.toList = front ++ (mid ++ back)) :
    slice s ⟨byteLength front, byteLength front + byteLength mid⟩ = String.ofList mid := by
  rw [slice, between_middle h]

end FrontEnd.Text
