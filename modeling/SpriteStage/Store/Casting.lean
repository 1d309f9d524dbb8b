import SpriteStage.Store
/-!
# Casting new actors

What a new actor is not given it gets by chance: its coordinates and its look are drawn from a
stream of numbers in `[0, 1)`. The id is used up even if the actor is refused.
-/
namespace SpriteStage

/-- A stream of numbers in `[0, 1)` that repeats a list forever. -/
structure Draws (α : Type) where
  cycle : List α
  used : Nat
deriving Repr

/-- What is known about a new actor; null where chance or a default decides. -/
structure Casting (α : Type) where
  name : Value α := .null
  x : Value α := .null
  y : Value α := .null
  look : Value α := .null
  /-- None for the usual size. -/
  size : Option (Value α) := none
deriving Repr

/-- What named values say about a new actor. Other names are refused. -/
def Casting.ofFields {α : Type} (fs : Fields α) : Except Error (Casting α) :=
  if fs.names.all ["display_name", "x", "y", "visual_tag", "size"].contains then
    let given (name : String) : Value α := (fs.get? name).getD .null
    .ok { name := given "display_name", x := given "x", y := given "y", look := given "visual_tag"
          size := fs.get? "size" }
  else .error .wrongType

def defaultLook : String := "bg-blue-500"

/-- The looks that chance picks from. -/
def newLooks : List String :=
  ["bg-red-500", "bg-green-500", "bg-yellow-500", "bg-purple-500", "bg-pink-500"]

variable {α : Type} [Scalar α]

namespace Draws

def ofList (cycle : List α) : Draws α := ⟨cycle, 0⟩

def next (d : Draws α) : α × Draws α :=
  ((d.cycle[d.used % d.cycle.length]?).getD Scalar.zero, { d with used := d.used + 1 })

/-- The item that the next number picks from a list. -/
def choose (d : Draws α) (items : List String) : String × Draws α :=
  let (r, rest) := d.next
  let index := (Scalar.floor (r * Scalar.whole items.length)).toNat
  ((items[index]?).getD "", rest)

/-- A coordinate: as given, or drawn from a stretch of the stage. -/
def coordinate (d : Draws α) (given : Value α) (spread offset : Nat) : Value α × Draws α :=
  match given with
  | .null =>
    let (r, rest) := d.next
    (.real (r * Scalar.whole spread + Scalar.whole offset), rest)
  | v => (v, d)

end Draws

/-- The record of a new actor, or the issues of what it was given. -/
def Actor.check (id : Int) (position : Point α) (name size look : Value α) :
    Except Error (Actor α) :=
  match name.string, size.coordinate, look.string with
  | .ok name, .ok size, .ok look =>
    .ok { id, name := .text name, position, heading := Scalar.zero, size := .real size
          look := .text look }
  | name, size, look =>
    .error (.invalid
      (issuesAt ["display_name"] name ++ issuesAt ["size"] size ++ issuesAt ["visual_tag"] look))

namespace Store

/-- Adds an actor. The coordinates are drawn before the look, and only what was not given. -/
def cast (s : Settings α) (st : Store α) (d : Draws α) (c : Casting α) :
    Store α × Draws α × Except Error (Actor α) :=
  let id := st.nextId
  let st := { st with nextId := id + 1 }
  let (x, d) := d.coordinate c.x 300 50
  let (y, d) := d.coordinate c.y 200 50
  match Point.check x.coordinate y.coordinate with
  | .error e => (st, d, .error e)
  | .ok p =>
    let name := if c.name.isGiven then c.name else .text ("Sprite" ++ toString id)
    let size := c.size.getD (.real (Scalar.whole 50))
    let (look, d) : Value α × Draws α :=
      if c.look.isGiven then (c.look, d)
      else
        let (look, d) := d.choose newLooks
        (.text look, d)
    match Actor.check id (s.confine p) name size look with
    | .error e => (st, d, .error e)
    | .ok a => ({ st with actors := st.actors ++ [a] }, d, .ok a)

def castSignals (a : Actor α) : List (Signal α) :=
  [.notice (.actorAdded a.id a.name), .event ⟨a.id, .added a⟩]

def firstCasting : Casting α :=
  { x := .real (Scalar.whole 100), y := .real (Scalar.whole 100), look := .text defaultLook }

end Store

end SpriteStage
