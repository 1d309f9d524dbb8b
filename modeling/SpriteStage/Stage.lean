import SpriteStage.Engine
import SpriteStage.Store.Casting
/-!
# The stage

A stage holds the shared world, the selection, the engines and their tasks. A task is a suspended
run; it waits in a queue for its turn or sleeps until a time.
-/
namespace SpriteStage

/-- The name of an engine: that of an actor in play, or one driven by hand. -/
inductive EngineId where
  | player (actor : Int)
  | manual (serial : Nat)
deriving DecidableEq, Repr

structure Task (α : Type) where
  engine : EngineId
  /-- Which of the engine's runs this is. -/
  run : Nat
  place : Place α
deriving Repr

/-- A task that sleeps until a time. -/
structure Sleeper (α : Type) where
  wake : α
  task : Task α
deriving Repr

structure Stage (α : Type) where
  world : World α
  selected : Option Int
  draws : Draws α
  /-- The number in the name of the next block. -/
  nextBlock : Nat
  now : α
  /-- The engines, in the order in which they were started. -/
  engines : List (EngineId × Engine)
  /-- The tasks that wait for a turn, the next one first. -/
  ready : List (Task α)
  /-- The tasks that sleep, in the order in which they went to sleep. -/
  sleepers : List (Sleeper α)
  /-- The number of the next engine driven by hand. -/
  nextSerial : Nat
deriving Repr

structure Reply (α β : Type) where
  stage : Stage α
  out : List (Signal α)
  result : β

namespace Stage

variable {α : Type} [Scalar α]

/-- An empty stage at time zero. -/
def new (settings : Settings α) (draws : Draws α) : Stage α where
  world := { settings, catalog := Catalog.builtIn, store := Store.empty, touching := [] }
  selected := none
  draws := draws
  nextBlock := 1
  now := Scalar.zero
  engines := []
  ready := []
  sleepers := []
  nextSerial := 0

def settings (s : Stage α) : Settings α := s.world.settings

def store (s : Stage α) : Store α := s.world.store

def withStore (s : Stage α) (store : Store α) : Stage α :=
  { s with world := { s.world with store } }

/-- The stage with room for other steps down in its operations. -/
def withRoom (s : Stage α) (room : Nat) : Stage α :=
  { s with world := { s.world with room } }

def reply {β : Type} (s : Stage α) (result : β) : Reply α β := ⟨s, [], result⟩

def refuse {β : Type} (s : Stage α) (cause : Error) : Reply α (Except Error β) :=
  ⟨s, [], .error cause⟩

def engine? (s : Stage α) (id : EngineId) : Option Engine :=
  s.engines.lookup id

def setEngine (s : Stage α) (id : EngineId) (e : Engine) : Stage α :=
  { s with engines := s.engines.map fun (i, old) => (i, if i = id then e else old) }

/-- Whether an engine is one of play whose run has ended. -/
def isOver : EngineId × Engine → Bool
  | (.player _, e) => e.outcome.isSome
  | (.manual _, _) => false

/-- Takes the engines of play off the stage whose runs have ended. This happens when turns are given
or time moves, so a run that ended in the last round of turns is still on the list of players. -/
def retire (s : Stage α) : Stage α :=
  { s with engines := s.engines.filter (!isOver ·) }

/-- The actors with an engine of play, in the order in which they were started. -/
def players (s : Stage α) : List Int :=
  s.engines.filterMap fun
    | (.player actor, _) => some actor
    | _ => none

def isPlaying (s : Stage α) : Bool := s.store.anyRunning

def settle (s : Stage α) (id : EngineId) (outcome : Phase) : Stage α × List (Signal α) :=
  match s.engine? id with
  | none => (s, [])
  | some e =>
    let (e, world, out) := e.settle s.world outcome
    ({ s.setEngine id e with world }, out)

end Stage

end SpriteStage
