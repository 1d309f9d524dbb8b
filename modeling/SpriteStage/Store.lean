import SpriteStage.Actor.Request
import SpriteStage.Program.Copy
import SpriteStage.Signal
/-!
# The actor store

The records of all actors, in ascending order of their ids. A write replaces a whole record and is
told in one event. One that cannot be told is kept all the same, but nobody hears of it and it
counts as failed.
-/
namespace SpriteStage

structure Store (α : Type) where
  actors : List (Actor α)
  /-- The id of the next actor. -/
  nextId : Int
deriving Repr

namespace Store

variable {α : Type}

def empty : Store α := ⟨[], 1⟩

def get? (st : Store α) (id : Int) : Option (Actor α) :=
  st.actors.find? (·.id == id)

def get (st : Store α) (id : Int) : Except Error (Actor α) :=
  match st.get? id with
  | some a => .ok a
  | none => .error (.actorNotFound id)

def contains (st : Store α) (id : Int) : Bool :=
  (st.get? id).isSome

/-- The ids of all actors, ascending. -/
def ids (st : Store α) : List Int :=
  st.actors.map (·.id)

def replace (st : Store α) (a : Actor α) : Store α :=
  { st with actors := st.actors.map fun b => if b.id = a.id then a else b }

def erase (st : Store α) (id : Int) : Store α :=
  { st with actors := st.actors.filter (·.id != id) }

variable [Scalar α]

def anyRunning (st : Store α) : Bool :=
  st.actors.any (·.runs)

def running (st : Store α) : List Int :=
  (st.actors.filter (·.runs)).map (·.id)

/-- Overwrites fields of an actor. The event names exactly the fields of the patch, as stored. -/
def write (s : Settings α) (st : Store α) (id : Int) (p : Patch α) :
    Except Error (Store α × Event α) := do
  let a ← st.get id
  let q := p.normalise s
  return (st.replace (q.apply a), ⟨id, .wrote q none⟩)

/-- The last `n` items of a list. -/
def newest {β : Type} (n : Nat) (l : List β) : List β :=
  l.drop (l.length - n)

/-- Appends a point to an actor's trail, of which the newest points are kept, and overwrites other
fields in the same write. The event tells the point in place of the trail. -/
def extendTrail (s : Settings α) (st : Store α) (id : Int) (point : Point α) (p : Patch α) :
    Except Error (Store α × Event α) := do
  let a ← st.get id
  let trail := newest (s.maxTrail - 1).toNat a.trail ++ [point]
  let q := p.normalise s
  return (st.replace ({ q with trail := some trail }.apply a),
    ⟨id, .wrote { q with trail := none } (some point)⟩)

/-- How writes to a store went: the store after them, what was told, and whether they all went
through. -/
structure Written (α : Type) where
  store : Store α
  out : List (Signal α)
  result : Except Error Unit

/-- How many steps down a write is told. -/
def tellSteps : Nat := 3

def publish (room : Nat) (st : Store α) : Except Error (Store α × Event α) → Written α
  | .error cause => ⟨st, [], .error cause⟩
  | .ok (store, event) =>
    match event.obstacle? (room - tellSteps) with
    | some cause => ⟨store, [], .error cause⟩
    | none => ⟨store, [.event event], .ok ()⟩

/-- Goes on after writes that went through. -/
def Written.andThen (done : Written α) (f : Store α → Written α) : Written α :=
  match done.result with
  | .error _ => done
  | .ok () =>
    let more := f done.store
    { more with out := done.out ++ more.out }

/-- How many steps down a program is copied to be handed over. -/
def handSteps : Nat := 5

/-- Writes a copy of a program over that of an actor, with room for some steps down. -/
def hand (room : Nat) (s : Settings α) (st : Store α) (id : Int) (p : Program α) : Written α :=
  match Program.copy (room - handSteps) p with
  | .error cause => ⟨st, [], .error cause⟩
  | .ok copy => st.publish room (st.write s id { program := some copy })

def update (s : Settings α) (st : Store α) (id : Int) (r : FieldRequest α) :
    Except Error (Store α × Event α) := do
  let _ ← st.get id
  st.write s id (← r.toPatch)

def updateTrail (s : Settings α) (st : Store α) (id : Int) (point : Point α)
    (r : FieldRequest α) : Except Error (Store α × Event α) := do
  let _ ← st.get id
  st.extendTrail s id point (← r.toPatch)

end Store

end SpriteStage
