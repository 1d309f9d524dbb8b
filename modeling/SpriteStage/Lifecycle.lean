/-! # The life of a run -/
namespace SpriteStage

inductive Phase where
  | idle
  | running
  | completed
  | cancelled
deriving DecidableEq, Repr

inductive Trigger where
  | begin
  | finish
  | abort
  | settle
deriving DecidableEq, Repr

namespace Phase

def name : Phase → String
  | .idle => "idle"
  | .running => "running"
  | .completed => "completed"
  | .cancelled => "cancelled"

def ofName? (s : String) : Option Phase :=
  [idle, running, completed, cancelled].find? (·.name == s)

/-- The phase after a trigger, or none if the trigger is not allowed. -/
def fire? : Phase → Trigger → Option Phase
  | .idle, .begin => some .running
  | .running, .finish => some .completed
  | .running, .abort => some .cancelled
  | .completed, .settle => some .idle
  | .cancelled, .settle => some .idle
  | _, _ => none

end Phase

/-- The trigger's name as it opens a sentence. -/
def Trigger.title : Trigger → String
  | .begin => "Begin"
  | .finish => "Finish"
  | .abort => "Abort"
  | .settle => "Settle"

end SpriteStage
