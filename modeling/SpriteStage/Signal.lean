import SpriteStage.Document
import SpriteStage.Notice
/-! # Signals -/
namespace SpriteStage

inductive Change (α : Type) where
  | added (actor : Actor α)
  | deleted
  /-- The named fields were overwritten. With a new trail point the trail itself is not told again. -/
  | wrote (patch : Patch α) (trailPoint : Option (Point α))
deriving Repr

/-- A change of one actor, as subscribers see it. -/
structure Event (α : Type) where
  actor : Int
  change : Change α
deriving Repr

section Telling

variable {α : Type}

mutual

/-- How many steps telling a value descends: two for each list, and one to what is no list. -/
def Value.tellDepth : Value α → Nat
  | .list items => Value.tellDepthOfAll items + 2
  | _ => 1

def Value.tellDepthOfAll : List (Value α) → Nat
  | [] => 0
  | v :: vs => max (Value.tellDepth v) (Value.tellDepthOfAll vs)

end

def Patch.tellDepth (p : Patch α) : Nat :=
  Value.tellDepthOfAll
    ([p.name, p.size, p.look, p.isRunning, p.stepIndex, p.message].filterMap id)

/-- Why an event cannot be told with room for some steps down, if it cannot: a list in it may go
further down, or the document of a block may have a flaw. -/
def Event.obstacle? (room : Nat) (e : Event α) : Option Error :=
  match e.change with
  | .wrote patch _ =>
    if room < patch.tellDepth then some (.noRoom .telling)
    else (patch.program.bind (Program.flaw? .record blockRoom)).map DocumentFlaw.error
  | _ => none

end Telling

inductive Signal (α : Type) where
  | event (e : Event α)
  | notice (n : Notice α)
  /-- A block was reached; with the values it runs with, unless it was skipped. -/
  | dispatched (actor : Int) (block : Block α) (inputs : Option (Fields α))
  /-- A collision pass was run by the engine of an actor. -/
  | pass (actor : Int)
deriving Repr

namespace Signal

variable {α : Type}

def event? : Signal α → Option (Event α)
  | .event e => some e
  | _ => none

def notice? : Signal α → Option (Notice α)
  | .notice n => some n
  | _ => none

def events (out : List (Signal α)) : List (Event α) :=
  out.filterMap event?

def notices (out : List (Signal α)) : List (Notice α) :=
  out.filterMap notice?

end Signal

end SpriteStage
