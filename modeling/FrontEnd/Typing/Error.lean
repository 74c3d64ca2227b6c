import FrontEnd.Span

/-!
# Type errors
-/

namespace FrontEnd

/-- What is wrong with the types of a module. -/
inductive TypeError where
  | unknownType (name : String) (span : Span)
  | duplicateStruct (name : String) (span first : Span)
  | duplicateMember (structName member : String) (span first : Span)
  /-- A field was added to a type that is no structure. -/
  | notAStruct (field type : String)
  deriving DecidableEq, Repr

namespace TypeError

/-- The error in words. -/
def message : TypeError → String
  | unknownType name _ => "unknown type `" ++ name ++ "`"
  | duplicateStruct name _ _ => "struct `" ++ name ++ "` is defined more than once"
  | duplicateMember structName member _ _ =>
    "struct `" ++ structName ++ "` has more than one member named `" ++ member ++ "`"
  | notAStruct field type =>
    "cannot add field `" ++ field ++ "` to non-struct type `" ++ type ++ "`"

/-- Where the error is. -/
def span? : TypeError → Option Span
  | unknownType _ span => some span
  | duplicateStruct _ span _ => some span
  | duplicateMember _ _ span _ => some span
  | notAStruct _ _ => none

/-- Where the name was declared before. -/
def first? : TypeError → Option Span
  | duplicateStruct _ _ first => some first
  | duplicateMember _ _ _ first => some first
  | _ => none

end TypeError

end FrontEnd
