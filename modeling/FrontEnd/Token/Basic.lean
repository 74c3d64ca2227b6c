import FrontEnd.Span
import FrontEnd.Text.Quoted
import FrontEnd.Word

/-!
# Tokens

A token is what the grammar reads: a kind, the text it was written as, a 64-bit value and the span
it covers.

* `Token.display` is how a message shows a token.
-/

namespace FrontEnd

/-- The nine kinds of token. `unexpected` is a character that starts no token. -/
inductive TokenKind where
  | endOfFile
  | number
  | unexpected
  | boolean
  | char
  | string
  | identifier
  | keyword
  | symbol
  deriving DecidableEq, Repr, Inhabited

namespace TokenKind

/-- Every kind, in the order in which tables list them. -/
def all : List TokenKind :=
  [endOfFile, number, unexpected, boolean, char, string, identifier, keyword, symbol]

/-- The words for a kind in messages. -/
def words : TokenKind → String
  | endOfFile => "end of file"
  | number => "number"
  | unexpected => "unexpected character"
  | boolean => "boolean"
  | char => "character"
  | string => "string"
  | identifier => "identifier"
  | keyword => "keyword"
  | symbol => "symbol"

theorem mem_all (k : TokenKind) : k ∈ all := by
  cases k <;> decide

end TokenKind

/-- A token. The value is that of a number, the code point of a character, one for `true`, and
zero where a token has none. -/
structure Token where
  kind : TokenKind
  text : String
  value : UInt64
  span : Span
  deriving DecidableEq, Repr, Inhabited

namespace Token

/-- The text of the token that ends every source. -/
def endText : String := "<eof>"

/-- The token that ends the source at an offset. -/
def endOfFile (offset : Nat) : Token := ⟨.endOfFile, endText, 0, Span.ofRange offset offset⟩

/-- The value of the token as a signed number. -/
def signedValue (t : Token) : Int := Word.signed t.value

/-- The token has this kind and this text. -/
def is (t : Token) (kind : TokenKind) (text : String) : Bool :=
  t.kind == kind && t.text == text

/-- The token marks the end of the source. -/
def isEnd (t : Token) : Bool := t.kind == .endOfFile

/-- How a message shows the token: its kind, then its text in backquotes, or quoted for a
string. -/
def display (t : Token) : String :=
  match t.kind with
  | .string => TokenKind.words .string ++ " " ++ Text.quote t.text
  | .endOfFile => TokenKind.words .endOfFile
  | kind => kind.words ++ " `" ++ t.text ++ "`"

theorem is_iff {t : Token} {kind : TokenKind} {text : String} :
    t.is kind text = true ↔ t.kind = kind ∧ t.text = text := by
  simp [is]

theorem isEnd_iff {t : Token} : t.isEnd = true ↔ t.kind = .endOfFile := by
  simp [isEnd]

end Token

end FrontEnd
