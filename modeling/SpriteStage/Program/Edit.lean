import SpriteStage.Program
import SpriteStage.Catalog
/-! # Editing programs -/
namespace SpriteStage

variable {α : Type} [Scalar α]

/-- Writes raw values over the defaults of a type; a name the type does not declare is refused. -/
def BlockType.fill (t : BlockType α) : Fields α → Fields α → Except Error (Fields α)
  | [], done => .ok done
  | (name, value) :: rest, done =>
    match t.input? name with
    | none => .error (.undeclaredInput t.id name)
    | some _ => t.fill rest (done.put name value)

def Catalog.newBlock (c : Catalog α) (id typeId : String) (inputs : Fields α) :
    Except Error (Block α) := do
  let t ← c.lookup typeId
  return ⟨id, typeId, ← t.fill inputs t.defaults, []⟩

namespace Program

def locate (p : Program α) (id : String) : Except Error (Block α) :=
  match p.find? id with
  | some b => .ok b
  | none => .error (.blockNotFound id)

def edit (p : Program α) (id : String) (f : Block α → List (Block α)) :
    Except Error (Program α) :=
  match splice id f p with
  | some q => .ok q
  | none => .error (.blockNotFound id)

/-- Adds a block at the end, or as the last child of a container. -/
def append (c : Catalog α) (p : Program α) (b : Block α) :
    Option String → Except Error (Program α)
  | none => .ok (p ++ [b])
  | some parent => do
    let holder ← p.locate parent
    let t ← c.lookup holder.typeId
    if t.isContainer then
      p.edit parent fun h => [{ h with children := h.children ++ [b] }]
    else
      .error (.notContainer parent holder.typeId)

def remove (p : Program α) (id : String) : Except Error (Program α × Block α) := do
  let b ← p.locate id
  return (← p.edit id fun _ => [], b)

def reorder (p : Program α) (source target : Int) : Except Error (Program α) :=
  let n := p.length
  if 0 ≤ source ∧ source < n ∧ 0 ≤ target ∧ target < n then
    match p[source.toNat]? with
    | some b => .ok ((p.eraseIdx source.toNat).insertIdx target.toNat b)
    | none => .error (.indexOutOfRange n)
  else .error (.indexOutOfRange n)

/-- Copies a block with all it holds, right after itself. The copy's ids are the names from `n` on;
the next free number comes last. -/
def duplicate (p : Program α) (id : String) (n : Nat) :
    Except Error (Program α × Block α × Nat) := do
  let b ← p.locate id
  let (clone, next) := b.renamed n
  return (← p.edit id fun b => [b, clone], clone, next)

def setInput (c : Catalog α) (p : Program α) (id name : String) (value : Value α) :
    Except Error (Program α × Block α) := do
  let b ← p.locate id
  let t ← c.lookup b.typeId
  match t.input? name with
  | none => .error (.undeclaredInput b.typeId name)
  | some _ =>
    let q ← p.edit id fun b => [{ b with inputs := b.inputs.put name value }]
    return (q, { b with inputs := b.inputs.put name value })

end Program

end SpriteStage
