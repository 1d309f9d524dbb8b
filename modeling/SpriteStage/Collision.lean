import SpriteStage.Store
/-!
# Collisions

Two actors that begin to overlap swap their programs, once, until they have separated and touched
again. It ends early if a size is no number, or if a program cannot be handed over; what it has
done until then stays.
-/
namespace SpriteStage

/-- Two actors, the smaller id first. -/
abbrev Pair := Int × Int

variable {α : Type} [Scalar α]

/-- Two actors overlap if their distance is below the mean of their sizes. -/
def Actor.collides (a b : Actor α) : Except Error Bool := do
  let distance := Scalar.hypot (a.position.x - b.position.x) (a.position.y - b.position.y)
  return Scalar.lt distance (← (← (← a.extent).add (← b.extent)).half)

namespace Collision

def hits (hit : Actor α → Except Error Bool) : List (Actor α) → Except Error (List (Actor α))
  | [] => .ok []
  | b :: rest => do
    let here ← hit b
    let found ← hits hit rest
    return if here then b :: found else found

/-- The pairs of a list of actors for which `hit` holds, in the order of the list. -/
def overlapping (hit : Actor α → Actor α → Except Error Bool) :
    List (Actor α) → Except Error (List Pair)
  | [] => .ok []
  | a :: rest => do
    let found ← hits (hit a) rest
    let pairs ← overlapping hit rest
    return found.map (fun b => (a.id, b.id)) ++ pairs

/-- The pairs that share no actor with an earlier pair of the result or with `used`. -/
def matching : List Pair → (used : List Int) → List Pair
  | [], _ => []
  | (a, b) :: rest, used =>
    if used.contains a || used.contains b then matching rest used
    else (a, b) :: matching rest (a :: b :: used)

/-- Hands the program of each actor of a pair to the other, with room for some steps down. -/
def swap (room : Nat) (s : Settings α) (st : Store α) (pair : Pair) : Store.Written α :=
  match st.get pair.1, st.get pair.2 with
  | .ok a, .ok b =>
    (st.hand room s pair.1 b.program).andThen fun st =>
      (st.hand room s pair.2 a.program).andThen fun st =>
        ⟨st, [.notice (.swapped pair.1 pair.2)], .ok ()⟩
  | .error cause, _ | _, .error cause => ⟨st, [], .error cause⟩

def swapAll (room : Nat) (s : Settings α) (st : Store α) : List Pair → Store.Written α
  | [] => ⟨st, [], .ok ()⟩
  | pair :: rest => (swap room s st pair).andThen fun st => swapAll room s st rest

structure Pass (α : Type) where
  store : Store α
  /-- The pairs that overlap now, which the next pass does not swap. -/
  touching : List Pair
  signals : List (Signal α)
  result : Except Error (List Pair)

/-- One pass with a given notion of overlap: swaps the newly overlapping pairs. -/
def passWith (hit : Actor α → Actor α → Except Error Bool) (room : Nat) (s : Settings α)
    (st : Store α) (touching : List Pair) : Pass α :=
  match overlapping hit st.actors with
  | .error cause => { store := st, touching, signals := [], result := .error cause }
  | .ok now =>
    let fresh := matching (now.filter (!touching.contains ·)) []
    let done := swapAll room s st fresh
    { store := done.store, touching := now, signals := done.out
      result := done.result.map fun _ => fresh }

end Collision

end SpriteStage
