import SpriteStage.Value
import SpriteStage.Lifecycle
/-! # Notices -/
namespace SpriteStage

inductive Level where
  | debug
  | info
  | warning
  | error
deriving DecidableEq, Repr

def Level.name : Level → String
  | .debug => "DEBUG"
  | .info => "INFO"
  | .warning => "WARNING"
  | .error => "ERROR"

inductive Notice (α : Type) where
  | notNumeric (input : String) (value fallback : Value α)
  | actorAdded (actor : Int) (name : Value α)
  | actorDeleted (actor : Int)
  | subscriberFailed (actor : Int)
  | running (actor : Int)
  | skipped (actor : Int) (block typeId : String)
  | programFailed (actor : Int)
  | settled (actor : Int) (outcome : Phase)
  | swapped (first second : Int)
  | started (actors : List Int)
  | stopped (actors : List Int)
  | slowClient (name : String)
  | publishFailed (actor : Int) (stream : String)
  | publishing
deriving Repr

namespace Notice

variable {α : Type} [Scalar α]

def level : Notice α → Level
  | .notNumeric .. => .debug
  | .skipped .. | .slowClient .. => .warning
  | .subscriberFailed .. | .programFailed .. | .publishFailed .. => .error
  | _ => .info

/-- The part of the stage that a notice comes from. -/
def source : Notice α → String
  | .notNumeric .. => "blockstage.catalog"
  | .actorAdded .. | .actorDeleted .. | .subscriberFailed .. => "blockstage.actor_store"
  | .running .. | .skipped .. | .programFailed .. | .settled .. => "blockstage.engine"
  | .swapped .. => "blockstage.collisions"
  | .started .. | .stopped .. => "blockstage.coordinator"
  | .slowClient .. => "blockstage.websocket_hub"
  | .publishFailed .. => "blockstage.streams"
  | .publishing => "blockstage.main"

def actorList (actors : List Int) : String :=
  "[" ++ String.intercalate ", " (actors.map toString) ++ "]"

def message : Notice α → String
  | .notNumeric input value fallback =>
    "input " ++ Text.quoted input ++ ": " ++ value.quoted ++ " is not numeric, using default "
      ++ fallback.quoted
  | .actorAdded a name => "added actor " ++ toString a ++ " (" ++ name.shown ++ ")"
  | .actorDeleted a => "deleted actor " ++ toString a
  | .subscriberFailed a => "actor change subscriber failed for actor " ++ toString a
  | .running a => "actor " ++ toString a ++ ": running"
  | .skipped a block typeId =>
    "actor " ++ toString a ++ ": skipping block " ++ block ++ " of unknown type "
      ++ Text.quoted typeId
  | .programFailed a => "actor " ++ toString a ++ ": program failed, stopping"
  | .settled a outcome => "actor " ++ toString a ++ ": " ++ outcome.name
  | .swapped a b =>
    "collision: actors " ++ toString a ++ " and " ++ toString b ++ " swapped programs"
  | .started actors => "play: started actors " ++ actorList actors
  | .stopped actors => "stop: actors " ++ actorList actors ++ " idle"
  | .slowClient name => "dropping stage event for slow websocket client " ++ name
  | .publishFailed a stream =>
    "failed to publish actor " ++ toString a ++ " change to " ++ stream
  | .publishing => "mirroring stage events to redis"

def line (n : Notice α) : String :=
  n.level.name ++ " " ++ n.source ++ " " ++ n.message

end Notice

end SpriteStage
