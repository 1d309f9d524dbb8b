import SpriteStage.Stage.Editing
/-! # The process stage -/
namespace SpriteStage

/-- The stage of a process, with a number that tells it from earlier ones. -/
structure Registry (α : Type) where
  current : Option (Nat × Stage α)
  made : Nat
deriving Repr

namespace Registry

variable {α : Type} [Scalar α]

def empty : Registry α := ⟨none, 0⟩

/-- The stage of the process, made and seeded if there is none. -/
def init (r : Registry α) (settings : Settings α) (draws : Draws α) :
    Registry α × Nat × Stage α :=
  match r.current with
  | some (n, s) => (r, n, s)
  | none =>
    let s := (Stage.new settings draws).init.stage
    (⟨some (r.made, s), r.made + 1⟩, r.made, s)

def get (r : Registry α) : Except Error (Nat × Stage α) :=
  match r.current with
  | some found => .ok found
  | none => .error .notInitialised

def reset (r : Registry α) : Registry α :=
  { r with current := none }

end Registry

end SpriteStage
