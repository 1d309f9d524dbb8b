import SpriteStage.Catalog.BlockType
/-! # The catalog -/
namespace SpriteStage

structure Catalog (α : Type) where
  types : List (BlockType α)
deriving Repr

namespace Catalog

variable {α : Type} [Scalar α]

def find? (c : Catalog α) (id : String) : Option (BlockType α) :=
  c.types.find? (·.id == id)

def lookup (c : Catalog α) (id : String) : Except Error (BlockType α) :=
  match c.find? id with
  | some t => .ok t
  | none => .error (.unknownBlockType id)

/-- The type registered under an id that is given as a free value. Lists and objects cannot be ids. -/
def findValue? (c : Catalog α) : Value α → Except Error (Option (BlockType α))
  | .text id => .ok (c.find? id)
  | .list _ | .object _ => .error .wrongType
  | _ => .ok none

def lookupValue (c : Catalog α) (id : Value α) : Except Error (BlockType α) := do
  match ← c.findValue? id with
  | some t => .ok t
  | none => .error (.unknownBlockType id.shown)

def register (c : Catalog α) (t : BlockType α) : Except Error (Catalog α) :=
  match c.find? t.id with
  | some _ => .error (.alreadyRegistered t.id)
  | none => .ok ⟨c.types ++ [t]⟩

def ofCategory (c : Catalog α) (category : Category) : List (BlockType α) :=
  c.types.filter (·.category == category)

def number (name : String) (fallback : Int) : InputSpec α :=
  { name := name, kind := .number, fallback := .int fallback }

/-- A number input that is never negative. -/
def natural (name : String) (fallback : Int) : InputSpec α :=
  { name := name, kind := .number, fallback := .int fallback, min := .int 0 }

def message (fallback : String) : InputSpec α :=
  { name := "message", kind := .text, fallback := .text fallback }

/-- The types that every stage starts with. -/
def builtIn : Catalog α := ⟨[
  { id := "move", category := .motion, label := "Move", inputs := [number "steps" 10],
    unit := "steps" },
  { id := "turn", category := .motion, label := "Turn", inputs := [number "degrees" 15],
    unit := "degrees" },
  { id := "goto", category := .motion, label := "Go to", inputs := [number "x" 0, number "y" 0] },
  { id := "wait", category := .motion, label := "Wait", inputs := [natural "seconds" 1],
    unit := "seconds" },
  { id := "repeat", category := .motion, label := "Repeat", inputs := [number "times" 10],
    isContainer := true, unit := "times" },
  { id := "say", category := .looks, label := "Say",
    inputs := [message "Hello!", natural "duration" 2], unit := "sec" },
  { id := "think", category := .looks, label := "Think",
    inputs := [message "Hmm...", natural "duration" 2], unit := "sec" },
  { id := "change_size", category := .looks, label := "Change size by",
    inputs := [number "change" 10] },
  { id := "set_color", category := .looks, label := "Set color", inputs := [natural "color" 0] }]⟩

end Catalog

end SpriteStage
