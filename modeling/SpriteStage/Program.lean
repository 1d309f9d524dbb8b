import SpriteStage.Value
/-!
# Programs

A program is a sequence of blocks, and a block may hold a sequence of its own. Every edit of a
tree is one operation, `splice`, which puts other blocks in the place of the first block with an
id.
-/
namespace SpriteStage

/-- A block with its raw input values and the blocks inside it. -/
structure Block (α : Type) where
  id : String
  typeId : String
  inputs : Fields α
  children : List (Block α)
deriving Inhabited, Repr

abbrev Program (α : Type) := List (Block α)

/-- A block as a walk meets it: its place in the sequence that owns it and that sequence's length. -/
structure Visit (α : Type) where
  index : Nat
  block : Block α
  length : Nat

variable {α : Type}

mutual

def Block.walk (index length : Nat) : Block α → List (Visit α)
  | ⟨id, typeId, inputs, children⟩ =>
    ⟨index, ⟨id, typeId, inputs, children⟩, length⟩ :: Program.walkFrom 0 children.length children

def Program.walkFrom (index length : Nat) : List (Block α) → List (Visit α)
  | [] => []
  | b :: rest => Block.walk index length b ++ Program.walkFrom (index + 1) length rest

end

mutual

def Block.preorder : Block α → List (Block α)
  | ⟨id, typeId, inputs, children⟩ => ⟨id, typeId, inputs, children⟩ :: Program.preorder children

def Program.preorder : List (Block α) → List (Block α)
  | [] => []
  | b :: rest => Block.preorder b ++ Program.preorder rest

end

mutual

def Block.size : Block α → Nat
  | ⟨_, _, _, children⟩ => Program.size children + 1

def Program.size : List (Block α) → Nat
  | [] => 0
  | b :: rest => Block.size b + Program.size rest

end

mutual

def Block.splice (id : String) (f : Block α → List (Block α)) : Block α → Option (Block α)
  | ⟨i, typeId, inputs, children⟩ =>
    (Program.splice id f children).map fun cs => ⟨i, typeId, inputs, cs⟩

/-- Puts `f b` in the place of the first block `b` with the given id, at any depth; none if there is
no such block. -/
def Program.splice (id : String) (f : Block α → List (Block α)) :
    List (Block α) → Option (List (Block α))
  | [] => none
  | b :: rest =>
    if b.id = id then some (f b ++ rest)
    else
      match Block.splice id f b with
      | some b' => some (b' :: rest)
      | none => (Program.splice id f rest).map (b :: ·)

end

namespace Program

def walk (p : Program α) : List (Visit α) :=
  walkFrom 0 p.length p

def find? (p : Program α) (id : String) : Option (Block α) :=
  (preorder p).find? (·.id == id)

def ids (p : Program α) : List String :=
  (preorder p).map (·.id)

end Program

/-- The name of the `n`-th block made on a stage. -/
def blockName (n : Nat) : String :=
  "b" ++ toString n

mutual

/-- A copy of a block whose ids are the names from `n` on, in pre-order, and the next free number. -/
def Block.renamed (n : Nat) : Block α → Block α × Nat
  | ⟨_, typeId, inputs, children⟩ =>
    let (cs, next) := Program.renamed (n + 1) children
    (⟨blockName n, typeId, inputs, cs⟩, next)

def Program.renamed (n : Nat) : List (Block α) → List (Block α) × Nat
  | [] => ([], n)
  | b :: rest =>
    let (b', m) := Block.renamed n b
    let (rest', next) := Program.renamed m rest
    (b' :: rest', next)

end

end SpriteStage
