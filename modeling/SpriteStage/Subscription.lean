import SpriteStage.Signal
/-!
# Subscriptions

Listeners get every event, in the order in which they subscribed.
-/
namespace SpriteStage

/-- A listener, known by its name and a number that tells it from others of that name. -/
structure Listener where
  name : String
  number : Nat
  /-- Whether it fails on every event. -/
  fails : Bool
deriving DecidableEq, Repr

/-- The subscriptions to a stage and what was delivered so far. -/
structure Feed (α : Type) where
  listeners : List Listener
  /-- Which listener got which event, the newest last. -/
  delivered : List (Listener × Event α)
deriving Repr

namespace Feed

variable {α : Type}

def empty : Feed α := ⟨[], []⟩

/-- Subscribes a listener, behind all others. -/
def subscribe (f : Feed α) (l : Listener) : Feed α :=
  { f with listeners := f.listeners ++ [l] }

/-- Takes away the earliest subscription of a listener, if it has one. -/
def unsubscribe (f : Feed α) (l : Listener) : Feed α :=
  { f with listeners := f.listeners.erase l }

/-- Delivers an event; one notice for each listener that fails. -/
def deliver (f : Feed α) (e : Event α) : Feed α × List (Notice α) :=
  ({ f with delivered := f.delivered ++ f.listeners.map fun l => (l, e) },
    (f.listeners.filter (·.fails)).map fun _ => .subscriberFailed e.actor)

/-- Delivers the events among signals. The notices of failures follow the events they belong to. -/
def relay : Feed α → List (Signal α) → Feed α × List (Signal α)
  | f, [] => (f, [])
  | f, .event e :: rest =>
    let (f, failures) := f.deliver e
    let (f, more) := relay f rest
    (f, .event e :: (failures.map .notice ++ more))
  | f, signal :: rest =>
    let (f, more) := relay f rest
    (f, signal :: more)

def seenBy (f : Feed α) (l : Listener) : List Int :=
  (f.delivered.filter (·.1 == l)).map (·.2.actor)

end Feed

end SpriteStage
