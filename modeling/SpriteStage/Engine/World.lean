import SpriteStage.Collision
import SpriteStage.Catalog
/-!
# The world of an engine

What the engines share: the settings, the catalog, the actor store and the memory of the collision
passes. What operations and runs do is nested in steps, and there is room for so many of them. An
operation fails if it has to go further down, and so does the program of a run.
-/
namespace SpriteStage

/-- What the engines of a stage act on. -/
structure World (α : Type) where
  settings : Settings α
  catalog : Catalog α
  store : Store α
  /-- The pairs that overlapped at the last collision pass. -/
  touching : List Pair
  /-- How many steps an operation may go down. -/
  room : Nat := 986
  /-- How many steps a run may go down below a top-level block. -/
  runRoom : Nat := 986
deriving Repr

namespace World

variable {α : Type} [Scalar α]

def write (w : World α) (actor : Int) (p : Patch α) : Except Error (World α × List (Signal α)) := do
  let (store, event) ← w.store.write w.settings actor p
  return ({ w with store }, [.event event])

/-- Moves an actor and records the point in its trail. -/
def glide (w : World α) (actor : Int) (p : Point α) : Except Error (World α × List (Signal α)) := do
  let (store, event) ← w.store.extendTrail w.settings actor p { position := some p }
  return ({ w with store }, [.event event])

omit [Scalar α] in
/-- How many steps a run may go down below a block inside of some loops, each of which takes four. -/
def roomBelow (w : World α) (loops : Nat) : Nat :=
  w.runRoom - 4 * loops

omit [Scalar α] in
/-- How many steps a collision pass may go down that follows a top-level block or, inside of some loops,
an iteration of the innermost. -/
def passRoom (w : World α) (loops : Nat) : Nat :=
  if loops = 0 then w.runRoom + 1 else w.runRoom + 2 - 4 * loops

/-- A collision pass with a given notion of overlap and room for some steps down: the world after it,
the signals and the pairs that were swapped. -/
def collideWith (hit : Actor α → Actor α → Except Error Bool) (w : World α) (room : Nat) :
    World α × List (Signal α) × Except Error (List Pair) :=
  let pass := Collision.passWith hit room w.settings w.store w.touching
  ({ w with store := pass.store, touching := pass.touching }, pass.signals, pass.result)

def collide (w : World α) (room : Nat) :
    World α × List (Signal α) × Except Error (List Pair) :=
  w.collideWith Actor.collides room

end World

end SpriteStage
