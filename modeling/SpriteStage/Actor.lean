import SpriteStage.Program
import SpriteStage.Settings
/-!
# Actors

An actor has a place, a heading, a size and a look, a program, and what a run of the program
leaves behind: the step it is at, a message in a bubble and the trail of its motion. The name, the
look, the size and what a run leaves behind are kept as free values, because a patch may come from
outside with anything in them.
-/
namespace SpriteStage

/-- A figure on the stage. -/
structure Actor (α : Type) where
  id : Int
  name : Value α
  position : Point α
  /-- In degrees. -/
  heading : α
  size : Value α
  /-- The tag that a renderer turns into a colour. -/
  look : Value α
  program : Program α := []
  /-- True while a run is under way, false while the actor is idle. -/
  isRunning : Value α := .bool false
  /-- The index of the top-level block that runs; null while the actor is idle. -/
  stepIndex : Value α := .null
  /-- The text in the actor's bubble; null if there is none. -/
  message : Value α := .null
  /-- Where the actor has been, the newest point last. -/
  trail : List (Point α) := []
deriving Repr

namespace Actor

variable {α : Type} [Scalar α]

def runs (a : Actor α) : Bool :=
  a.isRunning.isGiven

def extent (a : Actor α) : Except Error (Number α) :=
  match a.size.number? with
  | some n => .ok n
  | none => .error .wrongType

end Actor

/-- New values for some fields of an actor. -/
structure Patch (α : Type) where
  name : Option (Value α) := none
  position : Option (Point α) := none
  heading : Option α := none
  size : Option (Value α) := none
  look : Option (Value α) := none
  program : Option (Program α) := none
  isRunning : Option (Value α) := none
  stepIndex : Option (Value α) := none
  message : Option (Value α) := none
  trail : Option (List (Point α)) := none
deriving Repr

namespace Patch

variable {α : Type}

def apply (p : Patch α) (a : Actor α) : Actor α where
  id := a.id
  name := p.name.getD a.name
  position := p.position.getD a.position
  heading := p.heading.getD a.heading
  size := p.size.getD a.size
  look := p.look.getD a.look
  program := p.program.getD a.program
  isRunning := p.isRunning.getD a.isRunning
  stepIndex := p.stepIndex.getD a.stepIndex
  message := p.message.getD a.message
  trail := p.trail.getD a.trail

/-- Both patches at once; where both name a field the second counts. -/
def override (p q : Patch α) : Patch α where
  name := q.name <|> p.name
  position := q.position <|> p.position
  heading := q.heading <|> p.heading
  size := q.size <|> p.size
  look := q.look <|> p.look
  program := q.program <|> p.program
  isRunning := q.isRunning <|> p.isRunning
  stepIndex := q.stepIndex <|> p.stepIndex
  message := q.message <|> p.message
  trail := q.trail <|> p.trail

/-- The patch as it is stored: the position confined to the stage and the heading within one turn. -/
def normalise [Scalar α] (s : Settings α) (p : Patch α) : Patch α :=
  { p with position := p.position.map s.confine, heading := p.heading.map Scalar.wrap }

end Patch

end SpriteStage
