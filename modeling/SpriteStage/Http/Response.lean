import SpriteStage.Http.Check
import SpriteStage.Json.Writer
import SpriteStage.Stage.Editing
/-!
# Responses

A response has a status and a body of a known shape. The status of a failure follows from its
cause: what does not exist is not found, an actor that runs is in conflict, and everything else is
a request that cannot be processed.
-/
namespace SpriteStage.Http

inductive Answer (α : Type) where
  | detail (text : String)
  /-- Nothing, because there was no room to handle the request. -/
  | broken (cause : Error)
  | issues (found : List (Finding α))
  | health
  | info (name version : String)
  | catalog (types : List (BlockType α))
  | actors (list : List (Actor α)) (selected : Option Int)
  | actor (a : Actor α)
  | block (b : Block α)
  | play (started : List Int) (isPlaying : Bool)
  | status (isPlaying : Bool) (running : List Int)
deriving Repr

structure Response (α : Type) where
  status : Nat
  answer : Option (Answer α)
deriving Repr

namespace Response

variable {α : Type}

def ok (a : Answer α) : Response α := ⟨200, some a⟩

def statusOf : Error → Nat
  | .actorNotFound _ | .blockNotFound _ | .unknownBlockType _ => 404
  | .actorBusy _ => 409
  | _ => 422

def failure (cause : Error) : Response α :=
  match cause with
  | .noRoom _ => ⟨500, some (.broken cause)⟩
  | cause => ⟨statusOf cause, some (.detail cause.message)⟩

def refused (found : List (Finding α)) : Response α := ⟨422, some (.issues found)⟩

def ofResult {β : Type} (status : Nat) (tell : β → Option (Answer α)) :
    Except Error β → Response α
  | .ok b => ⟨status, tell b⟩
  | .error cause => failure cause

def unread : Json.Flaw → Response α
  | .malformed => refused [⟨⟨.jsonInvalid, ["body"]⟩, .null⟩]
  | .unreadable => ⟨400, some (.detail "There was an error parsing the body")⟩

end Response

variable {α : Type} [Scalar α]

def finitePoint (p : Point α) : Bool :=
  Scalar.isFinite p.x && Scalar.isFinite p.y

def finiteActor (a : Actor α) : Bool :=
  finitePoint a.position && Scalar.isFinite a.heading && a.size.isFinite
    && a.trail.all finitePoint

namespace Answer

omit [Scalar α] in
def flaw? : Answer α → Option DocumentFlaw
  | .actor a => a.flaw? .bytes
  | .actors list _ => list.findSome? (Actor.flaw? .bytes)
  | .block b => b.flaw? .bytes recordRoom
  | _ => none

/-- Whether the actors in an answer are described by numbers throughout. -/
def isFinite : Answer α → Bool
  | .actor a => finiteActor a
  | .actors list _ => list.all finiteActor
  | _ => true

omit [Scalar α] in
/-- What an answer says was wrong, if something was. -/
def complaint? : Answer α → Option (Value α)
  | .detail text => some (.object [("detail", .text text)])
  | .issues found => some (.object [("detail", .list (found.map Finding.document))])
  | _ => none

/-- How many levels a complaint may have. -/
def complaintRoom : Nat := 963

/-- Why a complaint cannot be written, if it cannot. -/
def obstacle? (complaint : Value α) : Option Error :=
  if complaintRoom < complaint.depth then some (.noRoom .refusing)
  else if !complaint.isFinite then some .notFinite
  else (Text.halfRun? (Text.codes (Json.write [] complaint))).map .notEncodable

/-- An answer that can be written, or why it cannot: it may be nested too deep, hold a text without an
encoding, repeat a number that no document holds, or lack a number of an actor. -/
def check (a : Answer α) : Except Error (Answer α) :=
  match a with
  | .broken cause => .error cause
  | a =>
    match a.complaint?.bind obstacle?, a.flaw? with
    | some cause, _ => .error cause
    | none, some flaw => .error flaw.responseError
    | none, none => if a.isFinite then .ok a else .error .wrongType

end Answer

/-- A response that can be written, or why it cannot. -/
def Response.send (r : Response α) : Except Error (Response α) :=
  match r.answer with
  | none => .ok r
  | some a => a.check.map fun a => { r with answer := some a }

end SpriteStage.Http
