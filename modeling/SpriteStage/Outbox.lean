import SpriteStage.Json.Writer
import SpriteStage.Notice
import SpriteStage.Timestamp
/-!
# The outbox

Events are copied to an append-only stream, whose entries are flat texts: a text field travels as
it is and any other value as JSON. Copying an event never fails the stage; a stream that cannot be
reached is a notice in the log.
-/
namespace SpriteStage

/-- A change of an actor as a document, with the moment it happened. -/
structure ActorChanged (α : Type) where
  actor : Int
  changed : Value α
  moment : Timestamp
deriving Repr

def ActorChanged.payload {α : Type} (e : ActorChanged α) : Fields α :=
  [("type", .text "actor_changed"), ("actor_id", .int e.actor), ("changed", e.changed),
    ("ts", .text e.moment.text)]

structure Entry where
  stream : String
  fields : List (String × String)
  maxLength : Option Int
  /-- Whether it may be cut a little later. -/
  approximate : Bool
deriving DecidableEq, Repr

/-- A stream server, as far as the stage sees it. -/
structure Outbox where
  reachable : Bool
  /-- The entries written so far, the newest last. -/
  entries : List Entry
deriving Repr

namespace Outbox

def standardStream : String := "blockstage:stage:events"

def standardLength : Int := 10000

variable {α : Type} [Scalar α]

def flat (v : Value α) : String :=
  match v with
  | .text s => s
  | v => String.ofList (Json.write [' '] v)

def flatten (fs : Fields α) : List (String × String) :=
  fs.map fun (name, v) => (name, flat v)

def publish (o : Outbox) (stream : String) (fs : Fields α) (maxLength : Option Int) :
    Outbox × Except Error String :=
  if o.reachable then
    let entry : Entry := ⟨stream, flatten fs, maxLength, maxLength.isSome⟩
    ({ o with entries := o.entries ++ [entry] }, .ok (toString (o.entries.length + 1) ++ "-0"))
  else (o, .error (.disconnected "down"))

def copy (o : Outbox) (stream : String) (maxLength : Option Int) (e : ActorChanged α) :
    Outbox × List (Notice α) :=
  match o.publish stream e.payload maxLength with
  | (o, .ok _) => (o, [])
  | (o, .error _) => (o, [.publishFailed e.actor stream])

end Outbox

end SpriteStage
