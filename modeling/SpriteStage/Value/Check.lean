import SpriteStage.Numeral.Lenient
import SpriteStage.Value
/-! # Checked values -/
namespace SpriteStage

/-- A text that is read character by character, so it must not hold halves of characters. -/
def encodable (s : String) : Except IssueKind String :=
  if (Text.halves? s).isSome then .error .stringUnicode else .ok s

namespace Value

variable {α : Type} [Scalar α]

/-- A value where a scalar is wanted: a number, a Boolean or a numeral. -/
def coordinate (v : Value α) : Except IssueKind α :=
  match v with
  | .text s => do
    match Numeral.lenientScalar? (← encodable s) with
    | some x => .ok x
    | none => .error .floatParsing
  | v =>
    match v.toScalar with
    | .ok x => .ok x
    | .error _ => .error .floatType

omit [Scalar α]

def string (v : Value α) : Except IssueKind String :=
  match v with
  | .text s => .ok s
  | _ => .error .stringType

def namedValues (v : Value α) : Except IssueKind (Fields α) :=
  match v with
  | .object fs => .ok fs
  | _ => .error .dictType

end Value

def checkGiven {α β : Type} (check : Value α → Except IssueKind β) :
    Option (Value α) → Except IssueKind β
  | some v => check v
  | none => .error .missing

def issuesAt {β : Type} (path : List String) : Except IssueKind β → List Issue
  | .ok _ => []
  | .error kind => [⟨kind, path⟩]

end SpriteStage
