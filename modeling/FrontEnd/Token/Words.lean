import FrontEnd.Text.Bytes

/-!
# Symbols and keywords

The two tables of fixed lexemes.

* `symbols` is ordered longest first, so the first entry that starts the input is the longest one
  that does (`symbols_longest_first`).
* `keywords` are the reserved words; `true` and `false` are no keywords.
* `isKeyword` looks a word up among the reserved words of its size only. It finds the words of the
  table and no others (`isKeyword_iff`).
-/

namespace FrontEnd.Lexer

/-- Every symbol, longest first. -/
def symbols : List String :=
  ["...",
   "||", "|>", ">>", ">=", "==", "<|", "<=", "<<", "<-", "/=", "..", "->", "-=", "--", "+=",
   "++", "*=", "&&", "%=", "!=",
   "~", "\x7d", "|", "\x7b", "^", "]", "[", "@", ">", "=", "<", ";", ":", "/", ".", "-", ",", "+",
   "*", ")", "(", "&", "%", "!"]

/-- Every reserved word. -/
def keywords : List String :=
  ["as", "fn", "if", "in", "for", "use", "val", "var", "else", "enum", "then", "from", "type",
   "break", "const", "while", "global", "return", "struct", "export", "module", "continue",
   "ref", "ptr", "extern", "loop", "public"]

/-- The reserved words of so many bytes. -/
def keywordsOfSize : Nat → List String
  | 2 => ["as", "fn", "if", "in"]
  | 3 => ["for", "use", "val", "var", "ref", "ptr"]
  | 4 => ["else", "enum", "then", "from", "type", "loop"]
  | 5 => ["break", "const", "while"]
  | 6 => ["global", "return", "struct", "export", "module", "extern", "public"]
  | 8 => ["continue"]
  | _ => []

/-- The word is reserved. Most words are told apart by their size and their first letter alone. -/
def isKeyword (word : String) : Bool :=
  let size := Text.byteLength word.toList
  if size < 2 ∨ 8 < size ∨ word.toList.head?.any Char.isLower = false then false
  else (keywordsOfSize size).contains word

/-- No symbol is longer than one listed before it. -/
theorem symbols_longest_first :
    symbols.Pairwise (fun s t => t.toList.length ≤ s.toList.length) := by
  decide

theorem mem_keywords_of_size {word : String} (size : Nat) (h : word ∈ keywordsOfSize size) :
    word ∈ keywords := by
  unfold keywordsOfSize at h
  split at h
  all_goals
    revert word
    decide

/-- The look-up by size agrees with the table. -/
theorem isKeyword_iff {word : String} : isKeyword word = true ↔ word ∈ keywords := by
  constructor
  · intro h
    unfold isKeyword at h
    dsimp only at h
    split at h
    · cases h
    · exact mem_keywords_of_size _ (List.contains_iff_mem.mp h)
  · have hall : ∀ word ∈ keywords, isKeyword word = true := by decide
    exact hall word

end FrontEnd.Lexer
