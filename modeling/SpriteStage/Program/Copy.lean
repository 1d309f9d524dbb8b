import SpriteStage.Program
/-!
# Copies of programs

An edit works on a copy, so that a program that runs is never changed under its run, and a
collision hands copies over. Copying descends into the blocks and the values in them, with some
steps for each level, and it fails if there is no room for so many steps.
-/
namespace SpriteStage

variable {α : Type}

namespace Value

mutual

/-- How many steps copying a value descends: two for each list, each object and what is innermost, and
one to see that a list or an object is empty. -/
def copyDepth : Value α → Nat
  | .list items => max 1 (copyDepthOfAll items) + 2
  | .object fields => max 1 (copyDepthOfFields fields) + 2
  | _ => 2

def copyDepthOfAll : List (Value α) → Nat
  | [] => 0
  | v :: vs => max (copyDepth v) (copyDepthOfAll vs)

def copyDepthOfFields : List (String × Value α) → Nat
  | [] => 0
  | (_, v) :: rest => max (copyDepth v) (copyDepthOfFields rest)

end

end Value

mutual

def Block.copyDepth : Block α → Nat
  | ⟨_, _, inputs, children⟩ =>
    max (max 1 (Value.copyDepthOfFields inputs) + 2) (Program.copyDepth children + 3) + 3

def Program.copyDepth : List (Block α) → Nat
  | [] => 0
  | b :: rest => max (Block.copyDepth b) (Program.copyDepth rest)

end

/-- A copy of a program, if there is room for the steps down to the innermost value. -/
def Program.copy (room : Nat) (p : Program α) : Except Error (Program α) :=
  if room < Program.copyDepth p then .error (.noRoom .copying) else .ok p

end SpriteStage
