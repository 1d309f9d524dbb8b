import SpriteStage.Engine.Checkpoint
/-!
# Engines

An engine takes one actor through runs of its program.
-/
namespace SpriteStage

/-- The interpreter of one actor's program. -/
structure Engine where
  actor : Int
  phase : Phase := .idle
  cancelRequested : Bool := false
  runs : Nat := 0
  /-- How the run scheduled last has ended, if it has. -/
  outcome : Option Phase := none
deriving Repr

namespace Engine

variable {α : Type} [Scalar α]

/-- Enters the running phase and marks the actor. The phase changes before the actor is looked up, so
it stays changed if the actor is not on the stage. -/
def begin (e : Engine) (w : World α) : Engine × Except Error (World α × List (Signal α)) :=
  match e.phase.fire? .begin with
  | none => (e, .error (.notAllowed .begin e.phase))
  | some phase =>
    let e := { e with phase, cancelRequested := false }
    match w.write e.actor { isRunning := some (.bool true), stepIndex := some (.int 0) } with
    | .error cause => (e, .error cause)
    | .ok (w, out) => (e, .ok (w, out ++ [.notice (.running e.actor)]))

/-- What the end of a run writes: the actor is idle, and an unfinished run also leaves no message. -/
def terminal (outcome : Phase) : Patch α where
  isRunning := some (.bool false)
  stepIndex := some .null
  message := if outcome = .cancelled then some .null else none

/-- Leaves the running phase for an outcome and returns to idle. Nothing happens to an engine that
does not run. -/
def settle (e : Engine) (w : World α) (outcome : Phase) : Engine × World α × List (Signal α) :=
  match e.phase.fire? (if outcome = .completed then .finish else .abort) with
  | none => (e, w, [])
  | some ended =>
    let e := { e with phase := (ended.fire? .settle).getD ended }
    match w.write e.actor (terminal outcome) with
    | .error _ => (e, w, [.notice (.settled e.actor outcome)])
    | .ok (w, out) => (e, w, out ++ [.notice (.settled e.actor outcome)])

/-- Resumes a run where it is suspended; at its checkpoints the run sees the request to cancel. -/
def resume (e : Engine) (w : World α) (now : α) (place : Place α) : Activity α :=
  place.resumeGuarded e.cancelRequested now e.actor w

end Engine

end SpriteStage
