import SpriteStage.Settings
/-!
# Tweens

A change that is spread over time. A tween looks at the clock once per frame and shows the eased
share of its duration that has passed; the last frame shows exactly one.
-/
namespace SpriteStage

variable {α : Type} [Scalar α]

/-- How the share of time that has passed becomes the share of the change that is shown. -/
inductive Easing where
  | linear
  | easeOutCubic
deriving DecidableEq, Repr

/-- The eased share: as it is, or fast at first and slow toward the end. A share far outside of zero
and one may have none. -/
def Easing.apply : Easing → α → Except Error α
  | .linear, p => .ok p
  | .easeOutCubic, p =>
    match Scalar.cube? (Scalar.one - p) with
    | some c => .ok (Scalar.one - c)
    | none => .error .powerTooLarge

/-- The value a share `t` of the way from `start` to `stop`. -/
def lerp (start stop t : α) : α :=
  start + (stop - start) * t

/-- When a tween started and how long it takes. -/
structure Span (α : Type) where
  start : α
  duration : α
deriving Repr

/-- The share of a span that has passed, at most one. -/
def Span.progress (s : Span α) (now : α) : α :=
  Scalar.least ((now - s.start) / s.duration) Scalar.one

/-- The time at which a sleep of some seconds ends; a negative sleep ends at once. -/
def wakeTime (now seconds : α) : α :=
  now + Scalar.greatest Scalar.zero seconds

structure Film (α : Type) where
  frames : List α
  sleeps : Nat
  now : α
deriving Repr

def Film.show (film : Film α) (ease : α → Except Error α) (progress : α) : Except Error (Film α) := do
  return { film with frames := film.frames ++ [← ease progress] }

/-- Plays a tween frame by frame from the state `film`. `stop n` asks to show no frame after the
`n`-th. None if the tween needs more than `fuel` frames. -/
def Film.roll (span : Span α) (interval : α) (ease : α → Except Error α) (stop : Nat → Bool) :
    (fuel : Nat) → Film α → Except Error (Option (Film α))
  | 0, _ => .ok none
  | fuel + 1, film =>
    let slept := { film with sleeps := film.sleeps + 1, now := wakeTime film.now interval }
    if stop film.frames.length then .ok (some slept)
    else
      let progress := span.progress slept.now
      match slept.show ease progress with
      | .error cause => .error cause
      | .ok shown =>
        if Scalar.lt progress Scalar.one then roll span interval ease stop fuel shown
        else .ok (some shown)

/-- Plays a tween of a given duration. One without duration is a single last frame. -/
def Film.play (duration interval start : α) (ease : α → Except Error α) (stop : Nat → Bool) (fuel : Nat) :
    Except Error (Option (Film α)) :=
  let blank : Film α := { frames := [], sleeps := 0, now := start }
  if Scalar.le duration Scalar.zero then
    if stop 0 then .ok (some blank) else (blank.show ease Scalar.one).map some
  else Film.roll ⟨start, duration⟩ interval ease stop fuel blank

def animate (duration interval start : α) (easing : Easing) (stop : Nat → Bool) (fuel : Nat) :
    Except Error (Option (Film α)) :=
  Film.play duration interval start easing.apply stop fuel

end SpriteStage
