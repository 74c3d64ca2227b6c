import FrontEnd.Text.Unprintable

/-!
# Quoted text in messages

* `quote` puts text between double quotes so that every character of the result can be seen:
  controls, unprintable and combining characters are written as escapes.
* `quoteChar` is the rule for one character; a single quote stands as it is.
-/

namespace FrontEnd.Text

/-- A code point in braces, in hexadecimal with lower-case digits. -/
def codePointEscape (c : Char) : List Char :=
  ['\\', 'u', '\x7b'] ++ Nat.toDigits 16 c.toNat ++ ['\x7d']

/-- How one character is shown inside a quoted text. -/
def quoteChar (c : Char) : List Char :=
  if c = '\x00' then ['\\', '0']
  else if c = '\t' then ['\\', 't']
  else if c = '\n' then ['\\', 'n']
  else if c = '\r' then ['\\', 'r']
  else if c = '"' then ['\\', '"']
  else if c = '\\' then ['\\', '\\']
  else if graphemeExtending c || unprintable c then codePointEscape c
  else [c]

/-- The text between double quotes, with every character that would not be seen escaped. -/
def quote (s : String) : String :=
  String.ofList ('"' :: s.toList.flatMap quoteChar ++ ['"'])

end FrontEnd.Text
