/-!
# Escapes inside literals

A string or character literal writes a backslash, a double quote and three controls as two
characters. `unescape` says which character follows a backslash and what it stands for.

* `unescape_eq_some_iff`: the five escapes, as one table.
* `escape` writes literal text; `escapeChar` is the rule for one character.
-/

namespace FrontEnd.Text

/-- The character that a backslash followed by `c` stands for. -/
def unescape (c : Char) : Option Char :=
  if c = '\\' then some '\\'
  else if c = 'n' then some '\n'
  else if c = 't' then some '\t'
  else if c = 'r' then some '\r'
  else if c = '"' then some '"'
  else none

/-- How one character is written inside a literal. -/
def escapeChar (c : Char) : List Char :=
  if c = '\\' then ['\\', '\\']
  else if c = '\n' then ['\\', 'n']
  else if c = '\t' then ['\\', 't']
  else if c = '\r' then ['\\', 'r']
  else if c = '"' then ['\\', '"']
  else [c]

/-- Text as it is written between the quotes of a literal. -/
def escape (s : String) : String := String.ofList (s.toList.flatMap escapeChar)

theorem unescape_eq_some_iff {c d : Char} :
    unescape c = some d ↔
      (c, d) ∈ [('\\', '\\'), ('n', '\n'), ('t', '\t'), ('r', '\r'), ('"', '"')] := by
  by_cases h₁ : c = '\\'
  · subst h₁; simp [unescape, eq_comm]
  by_cases h₂ : c = 'n'
  · subst h₂; simp [unescape, eq_comm]
  by_cases h₃ : c = 't'
  · subst h₃; simp [unescape, eq_comm]
  by_cases h₄ : c = 'r'
  · subst h₄; simp [unescape, eq_comm]
  by_cases h₅ : c = '"'
  · subst h₅; simp [unescape, eq_comm]
  · simp [unescape, h₁, h₂, h₃, h₄, h₅]

/-- A written character is either itself or a backslash and the letter that stands for it. -/
theorem escapeChar_cases (c : Char) :
    (escapeChar c = [c] ∧ c ≠ '\\' ∧ c ≠ '"') ∨
      ∃ d, escapeChar c = ['\\', d] ∧ unescape d = some c := by
  unfold escapeChar
  split
  · next h => exact .inr ⟨'\\', rfl, by simp [unescape, h]⟩
  split
  · next h => exact .inr ⟨'n', rfl, by simp [unescape, h]⟩
  split
  · next h => exact .inr ⟨'t', rfl, by simp [unescape, h]⟩
  split
  · next h => exact .inr ⟨'r', rfl, by simp [unescape, h]⟩
  split
  · next h => exact .inr ⟨'"', rfl, by simp [unescape, h]⟩
  · next h₁ _ _ _ h₂ => exact .inl ⟨rfl, h₁, h₂⟩

end FrontEnd.Text
