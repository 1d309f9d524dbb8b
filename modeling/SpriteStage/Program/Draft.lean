import SpriteStage.Program
import SpriteStage.Value.Check
/-!
# Drafts

A program that comes from outside is a list of drafts: blocks that may still lack a name and whose
parts are not checked yet. The children of a draft are built before its own parts are checked, and
the first draft with an issue ends the building.
-/
namespace SpriteStage

variable {α : Type}

structure Draft (α : Type) where
  /-- None if the block has to be given a name. -/
  id : Option (Value α) := none
  typeId : Option (Value α) := none
  inputs : Value α := .object []
  children : List (Draft α) := []
deriving Inhabited, Repr

def Block.check (id typeId : Except IssueKind String) (inputs : Except IssueKind (Fields α))
    (children : List (Block α)) : Except Error (Block α) :=
  match id, typeId, inputs with
  | .ok id, .ok typeId, .ok inputs => .ok ⟨id, typeId, inputs, children⟩
  | id, typeId, inputs =>
    .error (.invalid
      (issuesAt ["id"] id ++ issuesAt ["type_id"] typeId ++ issuesAt ["inputs"] inputs))

mutual

/-- The block of a draft. Where a name is missing the names from `n` on are used, in pre-order; the
next free number comes first. -/
def Draft.build (n : Nat) : Draft α → Nat × Except Error (Block α)
  | ⟨id, typeId, inputs, children⟩ =>
    let (name, m) : Value α × Nat := match id with
      | some name => (name, n)
      | none => (.text (blockName n), n + 1)
    match Draft.buildAll m children with
    | (next, .error cause) => (next, .error cause)
    | (next, .ok cs) =>
      (next, Block.check name.string (checkGiven Value.string typeId) inputs.namedValues cs)

def Draft.buildAll (n : Nat) : List (Draft α) → Nat × Except Error (List (Block α))
  | [] => (n, .ok [])
  | d :: rest =>
    match Draft.build n d with
    | (m, .error cause) => (m, .error cause)
    | (m, .ok b) =>
      let (next, bs) := Draft.buildAll m rest
      (next, bs.map (b :: ·))

end

mutual

def Draft.ofValue : Value α → Draft α
  | .object fields => Draft.ofFields fields
  | _ => {}

def Draft.ofFields : List (String × Value α) → Draft α
  | [] => {}
  | (name, v) :: rest =>
    let d := Draft.ofFields rest
    match name with
    | "id" => { d with id := some v }
    | "type_id" => { d with typeId := some v }
    | "inputs" => { d with inputs := v }
    | "children" => { d with children := Draft.sequence v }
    | _ => d

def Draft.sequence : Value α → List (Draft α)
  | .list items => Draft.ofAll items
  | _ => []

def Draft.ofAll : List (Value α) → List (Draft α)
  | [] => []
  | v :: vs => Draft.ofValue v :: Draft.ofAll vs

end

end SpriteStage
