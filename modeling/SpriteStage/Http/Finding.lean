import SpriteStage.Value
/-! # Findings -/
namespace SpriteStage.Http

def longestName : Nat := 64

def sentence : IssueKind → String
  | .missing => "Field required"
  | .jsonInvalid => "JSON decode error"
  | .modelAttributesType => "Input should be a valid dictionary or object to extract fields from"
  | .modelType => "Input should be a valid dictionary or instance"
  | .stringType => "Input should be a valid string"
  | .stringTooLong => "String should have at most " ++ toString longestName ++ " characters"
  | .stringUnicode =>
    "Input should be a valid string, unable to parse raw data as a unicode string"
  | .dictType => "Input should be a valid dictionary"
  | .intType => "Input should be a valid integer"
  | .intParsing => "Input should be a valid integer, unable to parse string as an integer"
  | .intFromFloat => "Input should be a valid integer, got a number with a fractional part"
  | .intParsingSize => "Unable to parse input string as an integer, exceeded maximum size"
  | .finiteNumber => "Input should be a finite number"
  | .greaterThanEqual => "Input should be greater than or equal to 0"
  | .floatType => "Input should be a valid number"
  | .floatParsing => "Input should be a valid number, unable to parse string as a number"
  | .boolParsing => "Input should be a valid boolean, unable to interpret input"

variable {α : Type}

/-- The bound that a value went beyond, if the issue is that. -/
def bound : IssueKind → Fields α
  | .stringTooLong => [("ctx", .object [("max_length", .int longestName)])]
  | .greaterThanEqual => [("ctx", .object [("ge", .int 0)])]
  | _ => []

/-- An issue of a request and the value that has it, which a refusal repeats. -/
structure Finding (α : Type) where
  issue : Issue
  input : Value α := .null
deriving Repr

def Finding.document (f : Finding α) : Value α :=
  .object ([("type", .text f.issue.kind.label), ("loc", .list (f.issue.path.map .text)),
    ("msg", .text (sentence f.issue.kind)), ("input", f.input)] ++ bound f.issue.kind)

end SpriteStage.Http
