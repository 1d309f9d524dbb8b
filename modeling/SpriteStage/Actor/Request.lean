import SpriteStage.Actor
import SpriteStage.Program.Draft
/-!
# Requests for actor fields

Fields that come from outside are free values. The points of a trail and the blocks of a program
are made while a request is read, before it is known whether it can be granted, and the first that
cannot be made ends the reading.
-/
namespace SpriteStage

variable {α : Type} [Scalar α]

def Point.check (x y : Except IssueKind α) : Except Error (Point α) :=
  match x, y with
  | .ok x, .ok y => .ok ⟨x, y⟩
  | x, y => .error (.invalid (issuesAt ["x"] x ++ issuesAt ["y"] y))

def Point.ofValue : Value α → Except Error (Point α)
  | .object fs =>
    let leg (name : String) : Except IssueKind α := checkGiven Value.coordinate (Fields.get? fs name)
    Point.check (leg "x") (leg "y")
  | _ => .error (.invalid [⟨.modelType, []⟩])

structure FieldRequest (α : Type) where
  /-- The fields that are stored as they are. -/
  plain : Patch α := {}
  heading : Option (Value α) := none
  position : Option (Value α) := none
  /-- Names that are no fields, or no fields that can change. -/
  unknown : List String := []
deriving Repr

namespace FieldRequest

def convert {β γ : Type} (f : β → Except Error γ) : Option β → Except Error (Option γ)
  | none => .ok none
  | some v => (f v).map some

def trail : Value α → Except Error (List (Point α))
  | .list items => items.mapM Point.ofValue
  | _ => .ok []

/-- Adds a named value to a request. Blocks without a name get the names from `n` on; the next free
number comes back. -/
def add (n : Nat) (r : FieldRequest α) (name : String) (v : Value α) :
    Nat × Except Error (FieldRequest α) :=
  let plain (p : Patch α) : Nat × Except Error (FieldRequest α) := (n, .ok { r with plain := p })
  match name with
  | "display_name" => plain { r.plain with name := some v }
  | "position" => (n, .ok { r with position := some v })
  | "heading" => (n, .ok { r with heading := some v })
  | "size" => plain { r.plain with size := some v }
  | "visual_tag" => plain { r.plain with look := some v }
  | "program" =>
    let (next, p) := Draft.buildAll n (Draft.sequence v)
    (next, p.map fun p => { r with plain := { r.plain with program := some p } })
  | "is_running" => plain { r.plain with isRunning := some v }
  | "current_step_index" => plain { r.plain with stepIndex := some v }
  | "message" => plain { r.plain with message := some v }
  | "trail" => (n, (trail v).map fun ps => { r with plain := { r.plain with trail := some ps } })
  | other => (n, .ok { r with unknown := r.unknown ++ [other] })

/-- Reads named values into a request, in order, up to the first that cannot be read. -/
def read (n : Nat) (r : FieldRequest α) : Fields α → Nat × Except Error (FieldRequest α)
  | [] => (n, .ok r)
  | (name, v) :: rest =>
    match r.add n name v with
    | (n, .error cause) => (n, .error cause)
    | (n, .ok r) => read n r rest

/-- Whether a request names one of some names that are no fields. -/
def mentions (r : FieldRequest α) (names : List String) : Bool :=
  r.unknown.any names.contains

/-- The patch that is asked for, or the first thing wrong with it: unknown names, then the heading,
then the position. -/
def toPatch (r : FieldRequest α) : Except Error (Patch α) :=
  if r.unknown.isEmpty then do
    let heading ← convert Value.toScalar r.heading
    let position ← convert Point.ofValue r.position
    return { r.plain with heading, position }
  else
    .error (.unknownFields (r.unknown.mergeSort fun a b => !Text.before b a))

end FieldRequest

end SpriteStage
