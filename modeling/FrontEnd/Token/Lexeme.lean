import FrontEnd.Text.Bytes
import FrontEnd.Text.Escape
import FrontEnd.Token.Basic
import FrontEnd.Token.Number
import FrontEnd.Token.Words

/-!
# Lexemes

`scan` reads the one lexeme at the start of a text that starts with no blank. Each rule says what
the lexeme means, which characters it takes and which it leaves.

* `scan_taken_append_rest`: what is taken and what is left are together the whole text.
* `scan_taken_ne_nil`: a lexeme takes a character at least, also when it is malformed.
-/

namespace FrontEnd.Lexer

/-- The characters that separate tokens: space, tab, line feed, carriage return, vertical tab and
form feed. -/
def isBlank (c : Char) : Bool :=
  c == ' ' || c == '\t' || c == '\n' || c == '\r' || c == '\x0b' || c == '\x0c'

/-- An ASCII letter or an underscore starts a word. -/
def isWordStart (c : Char) : Bool := c.isAlpha || c == '_'

/-- A word goes on with ASCII letters, digits and underscores. -/
def isWordChar (c : Char) : Bool := c.isAlphanum || c == '_'

/-- What a lexeme means. -/
inductive Reading where
  | token (kind : TokenKind) (text : String) (value : UInt64)
  | malformed (problem : LexProblem)
  deriving DecidableEq, Repr

/-- A lexeme, with the characters taken for it and those left. -/
structure Lexeme where
  reading : Reading
  taken : List Char
  rest : List Char
  deriving DecidableEq, Repr

/-- A decimal or hexadecimal number. -/
def scanNumber (cs : List Char) : Lexeme :=
  let lead := numberLead cs
  let after := cs.drop lead.taken.length
  let body := after.takeWhile (isNumberChar lead.radix)
  let taken := lead.taken ++ body
  let reading :=
    match numberValue lead body with
    | .ok value => .token .number (String.ofList taken) value
    | .error problem => .malformed problem
  ⟨reading, taken, after.dropWhile (isNumberChar lead.radix)⟩

/-- The closing quote of a character literal. -/
def closeChar (c : Char) (taken rest : List Char) : Lexeme :=
  match rest with
  | q :: rest' =>
    if q = '\'' then
      ⟨.token .char c.toString (UInt64.ofNat c.toNat), taken ++ [q], rest'⟩
    else ⟨.malformed .unterminatedChar, taken, rest⟩
  | [] => ⟨.malformed .unterminatedChar, taken, []⟩

/-- A character literal, from after its opening quote. -/
def charBody : List Char → Lexeme
  | [] => ⟨.malformed .unterminatedChar, [], []⟩
  | c :: rest =>
    if c = '\'' then ⟨.malformed .emptyChar, [c], rest⟩
    else if c = '\\' then
      match rest with
      | [] => ⟨.malformed .unterminatedChar, [c], []⟩
      | e :: rest' =>
        match Text.unescape e with
        | some d => closeChar d [c, e] rest'
        | none => ⟨.malformed (.invalidEscape e), [c, e], rest'⟩
    else closeChar c [c] rest

/-- The body of a string literal: the characters it stands for up to the closing quote, or what is
wrong with it. -/
structure StringBody where
  text : List Char
  problem : Option LexProblem
  taken : List Char
  rest : List Char
  deriving DecidableEq, Repr

/-- A body with one more character in front, written as `front`. -/
def StringBody.cons (c : Char) (front : List Char) (b : StringBody) : StringBody :=
  ⟨c :: b.text, b.problem, front ++ b.taken, b.rest⟩

/-- A string literal, from after its opening quote through the next quote that is not escaped. -/
def stringBody : List Char → StringBody
  | [] => ⟨[], some .unterminatedString, [], []⟩
  | c :: rest =>
    if c = '"' then ⟨[], none, [c], rest⟩
    else if c = '\\' then
      match rest with
      | [] => ⟨[], some .unterminatedString, [c], []⟩
      | e :: rest' =>
        match Text.unescape e with
        | some d => (stringBody rest').cons d [c, e]
        | none => ⟨[], some (.invalidEscape e), [c, e], rest'⟩
    else (stringBody rest).cons c [c]

/-- A lexeme with one more character in front. -/
def Lexeme.consTaken (c : Char) (x : Lexeme) : Lexeme := { x with taken := c :: x.taken }

/-- A string literal, from after its opening quote. -/
def scanString (cs : List Char) : Lexeme :=
  let body := stringBody cs
  let reading :=
    match body.problem with
    | none => .token .string (String.ofList body.text) 0
    | some problem => .malformed problem
  ⟨reading, body.taken, body.rest⟩

/-- The mark that may end a word, and what is left after it. -/
def wordMark : List Char → List Char × List Char
  | c :: rest => if c = '?' ∨ c = '!' then ([c], rest) else ([], c :: rest)
  | [] => ([], [])

/-- The kind and value of a word. -/
def classify (word : String) : TokenKind × UInt64 :=
  if word = "true" then (.boolean, 1)
  else if word = "false" then (.boolean, 0)
  else if isKeyword word then (.keyword, 0)
  else (.identifier, 0)

/-- A run of word characters and one mark after it. -/
def scanWord (cs : List Char) : Lexeme :=
  let mark := wordMark (cs.dropWhile isWordChar)
  let taken := cs.takeWhile isWordChar ++ mark.1
  let word := String.ofList taken
  let found := classify word
  ⟨.token found.1 word found.2, taken, mark.2⟩

/-- The longest symbol that starts the text. -/
def symbolAt? (cs : List Char) : Option String :=
  symbols.find? (fun s => s.toList.isPrefixOf cs)

/-- A digit, or a minus sign directly before one, starts a number. -/
def startsNumber : List Char → Bool
  | c :: d :: _ => c.isDigit || (c == '-' && d.isDigit)
  | [c] => c.isDigit
  | [] => false

/-- The lexeme at the start of a text; there is none at its end. -/
def scan (cs : List Char) : Option Lexeme :=
  match cs with
  | [] => none
  | c :: rest =>
    if startsNumber (c :: rest) then some (scanNumber (c :: rest))
    else if c = '\'' then some ((charBody rest).consTaken c)
    else if c = '"' then some ((scanString rest).consTaken c)
    else
      match symbolAt? (c :: rest) with
      | some s =>
        some ⟨.token .symbol s 0, s.toList, (c :: rest).drop s.toList.length⟩
      | none =>
        if isWordStart c then some (scanWord (c :: rest))
        else some ⟨.token .unexpected c.toString (UInt64.ofNat c.toNat), [c], rest⟩

/-! ## A lexeme is the start of its text -/

theorem scanNumber_append (cs : List Char) :
    (scanNumber cs).taken ++ (scanNumber cs).rest = cs := by
  simp only [scanNumber, List.append_assoc, List.takeWhile_append_dropWhile]
  exact numberLead_taken_append cs

theorem closeChar_append (c : Char) (taken rest : List Char) :
    (closeChar c taken rest).taken ++ (closeChar c taken rest).rest = taken ++ rest := by
  unfold closeChar
  split
  · split <;> simp
  · rfl

theorem charBody_append (cs : List Char) : (charBody cs).taken ++ (charBody cs).rest = cs := by
  cases cs with
  | nil => rfl
  | cons c rest =>
    simp only [charBody]
    split
    · rfl
    split
    · split
      · rfl
      · split
        · rw [closeChar_append]; rfl
        · rfl
    · rw [closeChar_append]; rfl

theorem stringBody_append (cs : List Char) :
    (stringBody cs).taken ++ (stringBody cs).rest = cs := by
  fun_induction stringBody cs <;> simp_all [StringBody.cons]

theorem wordMark_append (cs : List Char) : (wordMark cs).1 ++ (wordMark cs).2 = cs := by
  unfold wordMark
  split
  · split <;> rfl
  · rfl

theorem scanWord_append (cs : List Char) : (scanWord cs).taken ++ (scanWord cs).rest = cs := by
  simp only [scanWord, List.append_assoc, wordMark_append, List.takeWhile_append_dropWhile]

theorem symbolAt?_append {cs : List Char} {s : String} (h : symbolAt? cs = some s) :
    s.toList ++ cs.drop s.toList.length = cs := by
  have hp := List.find?_some h
  rw [List.isPrefixOf_iff_prefix] at hp
  obtain ⟨rest, rfl⟩ := hp
  simp

/-- What is taken and what is left are together the whole text. -/
theorem scan_taken_append_rest {cs : List Char} {x : Lexeme} (h : scan cs = some x) :
    x.taken ++ x.rest = cs := by
  cases cs with
  | nil => simp [scan] at h
  | cons c rest =>
    simp only [scan] at h
    split at h
    · cases h; exact scanNumber_append _
    split at h
    · cases h; simp [Lexeme.consTaken, charBody_append]
    split at h
    · cases h; simp [Lexeme.consTaken, scanString, stringBody_append]
    split at h
    · next s hs => cases h; exact symbolAt?_append hs
    split at h
    · cases h; exact scanWord_append _
    · cases h; rfl

theorem scanNumber_taken_ne_nil {cs : List Char} (h : startsNumber cs = true) :
    (scanNumber cs).taken ≠ [] := by
  intro hnil
  simp only [scanNumber, List.append_eq_nil_iff] at hnil
  obtain ⟨hlead, hbody⟩ := hnil
  rw [hlead, List.length_nil, List.drop_zero] at hbody
  cases cs with
  | nil => simp [startsNumber] at h
  | cons c rest =>
    have hradix : (numberLead (c :: rest)).radix = 10 := by
      unfold numberLead at hlead ⊢
      split <;> simp_all
    have hminus : c ≠ '-' := by
      rintro rfl
      simp [numberLead] at hlead
    have hdigit : c.isDigit = true := by
      cases rest with
      | nil => simpa [startsNumber] using h
      | cons d ds => simpa [startsNumber, hminus] using h
    rw [hradix, List.takeWhile_cons] at hbody
    have hc : isNumberChar 10 c = true := by
      simp only [Char.isDigit, Bool.and_eq_true, decide_eq_true_eq] at hdigit
      have hlo : '0' ≤ c := hdigit.1
      have hhi : c ≤ '9' := hdigit.2
      have hn : c.toNat - '0'.toNat < 10 := by
        have : c.toNat ≤ '9'.toNat := hhi
        have h9 : '9'.toNat = 57 := rfl
        have h0 : '0'.toNat = 48 := rfl
        omega
      simp only [isNumberChar, digitValue?, hlo, hhi, and_self, if_true, hn, Option.isSome_some,
        Bool.true_or]
    simp [hc] at hbody

/-- A lexeme takes at least one character. -/
theorem scan_taken_ne_nil {cs : List Char} {x : Lexeme} (h : scan cs = some x) :
    x.taken ≠ [] := by
  cases cs with
  | nil => simp [scan] at h
  | cons c rest =>
    simp only [scan] at h
    split at h
    · next hn => cases h; exact scanNumber_taken_ne_nil hn
    split at h
    · cases h; simp [Lexeme.consTaken]
    split at h
    · cases h; simp [Lexeme.consTaken]
    split at h
    · next s hs =>
      cases h
      have hall : ∀ s ∈ symbols, s.toList ≠ [] := by decide
      exact hall s (List.mem_of_find?_eq_some hs)
    split at h
    · next hw =>
      cases h
      have hc : isWordChar c = true := by
        simp only [isWordStart, isWordChar, Char.isAlphanum, Bool.or_eq_true] at hw ⊢
        rcases hw with hw | hw
        · exact .inl (.inl hw)
        · exact .inr hw
      simp [scanWord, hc]
    · cases h; simp

/-- A text that is not at its end starts with a lexeme. -/
theorem scan_isSome {cs : List Char} (h : cs ≠ []) : (scan cs).isSome = true := by
  cases cs with
  | nil => exact absurd rfl h
  | cons c rest =>
    simp only [scan]
    repeat' split
    all_goals rfl

end FrontEnd.Lexer
