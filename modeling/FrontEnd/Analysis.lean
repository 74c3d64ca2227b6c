import FrontEnd.Diagnostic.Render
import FrontEnd.Grammar.Module
import FrontEnd.Printer.Source
import FrontEnd.Token.Lexer
import FrontEnd.Typing.Lower

/-!
# Analysis of a source

A source is lexed, parsed and, if so asked, its types are lowered. The first stage that finds errors
is the last that runs: the errors of an analysis are all of one stage.

* `analyze` gives a summary of what is declared, or the errors.
* `check` gives the summary, or what a user is told.
-/

namespace FrontEnd

/-- What to do in an analysis, and how much to tell. -/
structure Config where
  lowerTypes : Bool
  /-- The number of errors told; zero stands for all. -/
  maxErrors : Nat
  renderNotes : Bool
  deriving DecidableEq, Repr

/-- Types are lowered, and up to fifty errors told with their notes. -/
def Config.default : Config := ⟨true, 50, true⟩

/-- An error of any stage. -/
inductive SourceError where
  | lexing (e : LexError)
  | parsing (e : ParseError)
  | typing (e : TypeError)
  deriving DecidableEq, Repr

namespace SourceError

/-- The stage that found the error. -/
def stage : SourceError → Stage
  | lexing _ => .lexing
  | parsing _ => .parsing
  | typing _ => .typing

/-- The error in words. -/
def message : SourceError → String
  | lexing e => e.message
  | parsing e => e.message
  | typing e => e.message

/-- How the error is told. -/
def diagnostic : SourceError → Diagnostic
  | lexing e => e.diagnostic
  | parsing e => e.diagnostic
  | typing e => e.diagnostic

end SourceError

/-- A structure and its fields, their types as text. -/
structure StructOutline where
  name : String
  fields : List (String × String)
  deriving DecidableEq, Repr

/-- What a source declares: its declarations as source text, its structures, and how many types it
uses. -/
structure Summary where
  declarations : List String
  structs : List StructOutline
  typeCount : Nat
  deriving DecidableEq, Repr

/-- The fields of a structure with their types as text. -/
def outlineStruct (t : TypeSystem) (s : StructType) : StructOutline :=
  ⟨s.name, s.fields.map (fun field => (field.1, t.text field.2))⟩

/-- The structures of a lowered module. -/
def outlineStructs (t : TypeSystem) (m : Module) : List StructOutline :=
  (m.structs.filterMap (fun s => t.readSlot? s.slot)).filterMap (fun id =>
    ((t.get? id).bind TypeDesc.struct?).map (outlineStruct t))

/-- The declarations of a module, and its types if they are to be lowered. -/
def summarizeModule (config : Config) (m : Module) : Except (List TypeError) Summary :=
  let declarations := m.map (Declaration.toSource defaultIndent)
  if config.lowerTypes then
    let lowered := lowerModule StampSupply.initial.start.1 m
    if lowered.errors.isEmpty then
      .ok ⟨declarations, outlineStructs lowered.types lowered.value, lowered.types.size⟩
    else .error lowered.errors
  else .ok ⟨declarations, [], 0⟩

/-- Analyse a source. -/
def analyze (source : String) (config : Config) : Except (List SourceError) Summary :=
  match lex source with
  | .error e => .error [.lexing e]
  | .ok tokens =>
    let parsed := parseModule tokens
    if parsed.isClean then
      match summarizeModule config parsed.declarations with
      | .ok summary => .ok summary
      | .error errors => .error (errors.map .typing)
    else .error (parsed.errors.map .parsing)

/-- How an error is told under a configuration. -/
def Config.diagnostic (config : Config) (e : SourceError) : Diagnostic :=
  if config.renderNotes then e.diagnostic else e.diagnostic.withoutNotes

/-- As many errors as are to be told. -/
def Config.limit (config : Config) (errors : List SourceError) : List SourceError :=
  if config.maxErrors = 0 then errors else errors.take config.maxErrors

/-- Analyse a source and say what a user is told of its errors. -/
def check (source : String) (config : Config) : Except (List Diagnostic) Summary :=
  match analyze source config with
  | .ok summary => .ok summary
  | .error errors => .error ((config.limit errors).map config.diagnostic)

end FrontEnd
