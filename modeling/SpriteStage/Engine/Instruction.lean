import SpriteStage.Program
import SpriteStage.Settings
/-!
# Instructions

What a block asks its actor to do, read off the block's type and its resolved inputs.
-/
namespace SpriteStage

/-- What a block asks its actor to do. -/
inductive Instruction (α : Type) where
  | move (steps : Number α)
  | turn (degrees : Number α)
  | goto (x y : Number α)
  | wait (seconds : Number α)
  | say (message : String) (seconds : Number α)
  | resize (change : Number α)
  /-- Take the look with an index of the palette, counted around. -/
  | recolour (index : Int)
  | loop (times : Nat)
deriving Repr

namespace Instruction

variable {α : Type} [Scalar α]

/-- What precedes the message of a thought. -/
def thinkMark : String := "💭 "

def known : List String :=
  ["move", "turn", "goto", "wait", "say", "think", "change_size", "set_color", "repeat"]

def number? (inputs : Fields α) (name : String) : Option (Number α) :=
  (inputs.get? name).bind Value.number?

def text? (inputs : Fields α) (name : String) : Option String :=
  (inputs.get? name).bind Value.text?

def ofInputs? (typeId : String) (inputs : Fields α) : Option (Instruction α) :=
  match typeId with
  | "move" => (number? inputs "steps").map .move
  | "turn" => (number? inputs "degrees").map .turn
  | "goto" => do return .goto (← number? inputs "x") (← number? inputs "y")
  | "wait" => (number? inputs "seconds").map .wait
  | "say" => do return .say (← text? inputs "message") (← number? inputs "duration")
  | "think" => do
    return .say (thinkMark ++ (← text? inputs "message")) (← number? inputs "duration")
  | "change_size" => (number? inputs "change").map .resize
  | "set_color" => (number? inputs "color").map fun n => .recolour n.truncate
  | "repeat" => (number? inputs "times").map fun n => .loop n.truncate.toNat
  | _ => none

def palette : List String :=
  ["bg-red-500", "bg-blue-500", "bg-green-500", "bg-yellow-500", "bg-purple-500", "bg-pink-500"]

/-- The look with an index, counted around the palette in both directions. -/
def lookAt (index : Int) : String :=
  (palette[(index % palette.length).toNat]?).getD ""

end Instruction

end SpriteStage
