import SpriteStage.Stage.Schedule
/-!
# Engines driven by hand

An engine can be made, begun, scheduled, cancelled and settled outside of play. It shares the
queue and the clock with the engines in play, and stopping the play does not reach it.
-/
namespace SpriteStage.Stage

variable {α : Type} [Scalar α]

def newEngine (s : Stage α) (actor : Int) : Reply α EngineId :=
  let id := EngineId.manual s.nextSerial
  let e : Engine := { actor }
  let s := { s with engines := s.engines ++ [(id, e)], nextSerial := s.nextSerial + 1 }
  s.reply id

def phase (s : Stage α) (id : EngineId) : Phase :=
  ((s.engine? id).map (·.phase)).getD .idle

def beginEngine (s : Stage α) (id : EngineId) : Reply α (Except Error Unit) :=
  match s.engine? id with
  | none => s.reply (.ok ())
  | some e =>
    let (e, begun) := e.begin s.world
    let s := s.setEngine id e
    match begun with
    | .error cause => s.refuse cause
    | .ok (world, out) => ⟨{ s with world }, out, .ok ()⟩

def runEngine (s : Stage α) (id : EngineId) : Stage α :=
  match s.engine? id with
  | none => s
  | some e =>
    let run := e.runs + 1
    let s := s.setEngine id { e with runs := run, outcome := none }
    { s with ready := s.ready ++ [⟨id, run, .fresh⟩] }

/-- Asks an engine to stop. Its run ends when it is resumed next. -/
def cancelEngine (s : Stage α) (id : EngineId) : Stage α :=
  match s.engine? id with
  | none => s
  | some e => s.setEngine id { e with cancelRequested := true }

def settleEngine (s : Stage α) (id : EngineId) (outcome : String) : Reply α (Except Error Unit) :=
  match Phase.ofName? outcome with
  | none => s.refuse (.notPhase outcome)
  | some phase =>
    let (s, out) := s.settle id phase
    ⟨s, out, .ok ()⟩

end SpriteStage.Stage
