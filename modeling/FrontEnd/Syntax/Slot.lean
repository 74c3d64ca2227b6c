/-!
# Slots for resolved types

A declaration and an expression carry a place for the type that they turn out to have. A slot
records the type system that filled it, so that no other can take the index for its own.

* `TypeSlot.readAs?_eq_some_iff`: only the owner reads a slot.
-/

namespace FrontEnd

/-- A type of one type system: the stamp of the system and the type's index in it. -/
structure Resolution where
  owner : Nat
  index : Nat
  deriving DecidableEq, Repr

/-- A slot, filled or not. -/
structure TypeSlot where
  resolution? : Option Resolution
  deriving DecidableEq, Repr

namespace TypeSlot

/-- The slot that nobody has filled. -/
def empty : TypeSlot := ⟨none⟩

instance : Inhabited TypeSlot := ⟨empty⟩

/-- The slot holds a type. -/
def isFilled (s : TypeSlot) : Bool := s.resolution?.isSome

/-- The slot filled by `owner`; what it held before is lost. -/
def fill (_ : TypeSlot) (owner index : Nat) : TypeSlot := ⟨some ⟨owner, index⟩⟩

/-- The index in the slot, if `owner` filled it. -/
def readAs? (s : TypeSlot) (owner : Nat) : Option Nat :=
  match s.resolution? with
  | some e => if e.owner = owner then some e.index else none
  | none => none

theorem readAs?_eq_some_iff {s : TypeSlot} {owner index : Nat} :
    s.readAs? owner = some index ↔ s.resolution? = some ⟨owner, index⟩ := by
  obtain ⟨e⟩ := s
  cases e with
  | none => simp [readAs?]
  | some e =>
    obtain ⟨o, i⟩ := e
    by_cases h : o = owner <;> simp [readAs?, h]

theorem readAs?_fill (s : TypeSlot) (owner index : Nat) :
    (s.fill owner index).readAs? owner = some index := by
  simp [fill, readAs?]

end TypeSlot

end FrontEnd
