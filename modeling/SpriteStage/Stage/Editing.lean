import SpriteStage.Stage.Control
import SpriteStage.Program.Edit
/-!
# Editing the stage

The operations of an editor: actors come and go, one of them is selected, and idle actors have
their programs changed. A refused operation leaves the stage as it was, apart from the ids that
making a block or an actor has used up.
-/
namespace SpriteStage.Stage

variable {α : Type} [Scalar α]

/-- Adds an actor, without selecting it. -/
def cast (s : Stage α) (c : Casting α) : Reply α (Except Error (Actor α)) :=
  let (store, draws, result) := s.store.cast s.settings s.draws c
  let s := { s.withStore store with draws }
  match result with
  | .error cause => s.refuse cause
  | .ok a => ⟨s, Store.castSignals a, .ok a⟩

/-- Adds an actor; it is selected if nothing is. -/
def addActor (s : Stage α) (c : Casting α) : Reply α (Except Error (Actor α)) :=
  let r := s.cast c
  match r.result with
  | .error _ => r
  | .ok a => { r with stage := { r.stage with selected := r.stage.selected <|> some a.id } }

/-- Gives an empty stage its first actor, without selecting it. -/
def seed (s : Stage α) : Reply α (Option (Actor α)) :=
  if s.store.actors.isEmpty then
    let r := s.cast Store.firstCasting
    ⟨r.stage, r.out, r.result.toOption⟩
  else s.reply none

/-- Gives an empty stage its first actor and selects it. -/
def init (s : Stage α) : Reply α Unit :=
  let r := s.seed
  match r.result with
  | none => ⟨r.stage, r.out, ()⟩
  | some a => ⟨{ r.stage with selected := some a.id }, r.out, ()⟩

/-- Empties the store; ids start anew. -/
def clearStore (s : Stage α) : Stage α :=
  s.withStore Store.empty

/-- Forgets which actors overlapped at the last collision pass. -/
def clearTouching (s : Stage α) : Stage α :=
  { s with world := { s.world with touching := [] } }

def reset (s : Stage α) : Reply α Unit :=
  let r := s.stopAll
  ⟨{ r.stage.clearStore.clearTouching with selected := none }, r.out, ()⟩

def editable (s : Stage α) (actor : Int) : Except Error (Actor α) := do
  let a ← s.store.get actor
  if a.runs then .error (.actorBusy actor) else .ok a

/-- Removes an idle actor; if it was selected, the first of the others is. -/
def deleteActor (s : Stage α) (actor : Int) : Reply α (Except Error Unit) :=
  match s.editable actor with
  | .error cause => s.refuse cause
  | .ok _ =>
    let store := s.store.erase actor
    let selected := if s.selected = some actor then store.ids.head? else s.selected
    ⟨{ s.withStore store with selected },
      [.notice (.actorDeleted actor), .event ⟨actor, .deleted⟩], .ok ()⟩

def selectActor (s : Stage α) (actor : Int) : Reply α (Except Error (Actor α)) :=
  match s.store.get actor with
  | .error cause => s.refuse cause
  | .ok a => ({ s with selected := some actor } : Stage α).reply (.ok a)

def tell {β : Type} (s : Stage α) (written : Except Error (Store α × Event α))
    (result : Store α → Except Error β) : Reply α (Except Error β) :=
  let done := s.store.publish s.world.room written
  ⟨s.withStore done.store, done.out, done.result.bind fun _ => result done.store⟩

def commit {β : Type} (s : Stage α) (actor : Int) (p : Program α) (result : β) :
    Reply α (Except Error β) :=
  s.tell (s.store.write s.settings actor { program := some p }) fun _ => .ok result

/-- How many steps down a program is copied to be edited. -/
def editSteps : Nat := 6

/-- A copy of an idle actor's program, to be edited. -/
def programOf (s : Stage α) (actor : Int) : Except Error (Program α) := do
  Program.copy (s.world.room - editSteps) (← s.editable actor).program

def editProgram {β : Type} (s : Stage α) (actor : Int)
    (f : Program α → Except Error (Program α × β)) : Reply α (Except Error β) :=
  match (s.programOf actor).bind f with
  | .error cause => s.refuse cause
  | .ok (p, result) => s.commit actor p result

/-- Makes a block and adds it to a program, at the end or inside a container. -/
def submit (s : Stage α) (actor : Int) (typeId : String) (inputs : Fields α)
    (parent : Option String) : Reply α (Except Error (Block α)) :=
  match s.world.catalog.newBlock (blockName s.nextBlock) typeId inputs with
  | .error cause => s.refuse cause
  | .ok b =>
    let s := { s with nextBlock := s.nextBlock + 1 }
    s.editProgram actor fun p => (p.append s.world.catalog b parent).map (·, b)

def editInput (s : Stage α) (actor : Int) (block name : String) (value : Value α) :
    Reply α (Except Error (Block α)) :=
  s.editProgram actor fun p => p.setInput s.world.catalog block name value

def reorder (s : Stage α) (actor : Int) (source target : Int) : Reply α (Except Error Unit) :=
  s.editProgram actor fun p => (p.reorder source target).map (·, ())

def removeBlock (s : Stage α) (actor : Int) (block : String) : Reply α (Except Error (Block α)) :=
  s.editProgram actor fun p => p.remove block

def duplicate (s : Stage α) (actor : Int) (block : String) : Reply α (Except Error (Block α)) :=
  match (s.programOf actor).bind (·.duplicate block s.nextBlock) with
  | .error cause => s.refuse cause
  | .ok (p, clone, next) => { s with nextBlock := next }.commit actor p clone

def clearProgram (s : Stage α) (actor : Int) : Reply α (Except Error Unit) :=
  s.editProgram actor fun _ => .ok ([], ())

/-- Reads a request for fields; the blocks in it use up names even if it is refused later. A request
must not name what the operation is already told by other means. -/
def readRequest (s : Stage α) (told : List String) (fs : Fields α) :
    Stage α × Except Error (FieldRequest α) :=
  let (next, read) := FieldRequest.read s.nextBlock {} fs
  ({ s with nextBlock := next },
    read.bind fun r => if r.mentions told then .error .wrongType else .ok r)

/-- Writes fields of an actor as given, past the editor's checks. -/
def update (s : Stage α) (actor : Int) (fs : Fields α) : Reply α (Except Error (Actor α)) :=
  match s.readRequest ["self", "actor_id"] fs with
  | (s, .error cause) => s.refuse cause
  | (s, .ok r) => s.tell (s.store.update s.settings actor r) (·.get actor)

/-- Appends a point to an actor's trail and writes fields as given. -/
def updateTrail (s : Stage α) (actor : Int) (point : Value α) (fs : Fields α) :
    Reply α (Except Error (Actor α)) :=
  match Point.ofValue point with
  | .error cause => s.refuse cause
  | .ok p =>
    match s.readRequest ["self", "actor_id", "point"] fs with
    | (s, .error cause) => s.refuse cause
    | (s, .ok r) => s.tell (s.store.updateTrail s.settings actor p r) (·.get actor)

def collide (s : Stage α) : Reply α (Except Error (List Pair)) :=
  let (world, out, swapped) := s.world.collide s.world.room
  ⟨{ s with world }, out, swapped⟩

def registerType (s : Stage α) (t : BlockType α) : Reply α (Except Error Unit) :=
  match s.world.catalog.register t with
  | .error cause => s.refuse cause
  | .ok catalog => ({ s with world := { s.world with catalog } } : Stage α).reply (.ok ())

end SpriteStage.Stage
