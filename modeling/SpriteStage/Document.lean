import SpriteStage.Actor
/-!
# Documents

Blocks and actors are shown as documents. A document is nested only so deep, and the names of its
fields need an encoding; where it is written out as bytes, all its texts do.
-/
namespace SpriteStage

/-- Why a document cannot be written. -/
inductive DocumentFlaw where
  | tooDeep
  /-- A text in it has no encoding. -/
  | notEncodable (halves : Text.HalfRun)
deriving DecidableEq, Repr

namespace DocumentFlaw

def error : DocumentFlaw → Error
  | .tooDeep => .tooDeep
  | .notEncodable halves => .notEncodable halves

def responseError : DocumentFlaw → Error
  | .tooDeep => .responseTooDeep
  | .notEncodable halves => .responseNotEncodable halves

def ofText? (s : String) : Option DocumentFlaw :=
  (Text.halves? s).map .notEncodable

end DocumentFlaw

/-- What a document is written as: a record, which keeps its texts, or bytes. -/
inductive Form where
  | record
  | bytes
deriving DecidableEq, Repr

def Form.textFlaw? : Form → String → Option DocumentFlaw
  | .record, _ => none
  | .bytes, s => DocumentFlaw.ofText? s

variable {α : Type}

mutual

/-- The flaw of a value inside of which `room` more levels may be nested. -/
def Value.flaw? (form : Form) (room : Nat) : Value α → Option DocumentFlaw
  | .text s => form.textFlaw? s
  | .list items => if room = 0 then some .tooDeep else Value.flawOfAll? form (room - 1) items
  | .object fields =>
    if room = 0 then some .tooDeep else Value.flawOfFields? form (room - 1) fields
  | _ => none

def Value.flawOfAll? (form : Form) (room : Nat) : List (Value α) → Option DocumentFlaw
  | [] => none
  | v :: vs => Value.flaw? form room v <|> Value.flawOfAll? form room vs

/-- The first flaw among fields, each name before its value. -/
def Value.flawOfFields? (form : Form) (room : Nat) :
    List (String × Value α) → Option DocumentFlaw
  | [] => none
  | (name, v) :: rest =>
    DocumentFlaw.ofText? name <|> Value.flaw? form room v
      <|> Value.flawOfFields? form room rest

end

mutual

def Block.flaw? (form : Form) (room : Nat) : Block α → Option DocumentFlaw
  | ⟨id, typeId, inputs, children⟩ =>
    if room = 0 then some .tooDeep
    else
      form.textFlaw? id <|> form.textFlaw? typeId
        <|> Value.flawOfFields? form (room - 1) inputs <|> Program.flaw? form (room - 1) children

def Program.flaw? (form : Form) (room : Nat) : List (Block α) → Option DocumentFlaw
  | [] => none
  | b :: rest => Block.flaw? form room b <|> Program.flaw? form room rest

end

/-- How many levels a block that is a document of its own may have. -/
def blockRoom : Nat := 255

/-- How many levels may be nested inside the record of an actor, or inside a response. -/
def recordRoom : Nat := 254

def Block.document (b : Block α) : Except Error (Block α) :=
  match b.flaw? .record blockRoom with
  | some flaw => .error flaw.error
  | none => .ok b

namespace Actor

def flaw? (form : Form) (a : Actor α) : Option DocumentFlaw :=
  Value.flawOfAll? form recordRoom [a.name, a.size, a.look]
    <|> Program.flaw? form recordRoom a.program
    <|> Value.flawOfAll? form recordRoom [a.isRunning, a.stepIndex, a.message]

/-- The record as a document shows it, with a scalar for a size, if it can be written. -/
def document [Scalar α] (a : Actor α) : Except Error (Actor α) :=
  match a.flaw? .record with
  | some flaw => .error flaw.error
  | none => do return { a with size := .real (← a.size.toScalar) }

end Actor

end SpriteStage
