import SpriteStage.Engine.World
import SpriteStage.Engine.Instruction
import SpriteStage.Tween
/-!
# Runs

A run of a program is suspended between two moments of activity: asleep on the clock in the middle
of a block, or waiting for its next turn after a top-level step or a loop iteration. `resume`
carries a run from one suspension to the next. Loops always pass the turn after an iteration, so a
resumption goes through each block of one top-level tree at most once, and the recursion follows
the tree.
-/
namespace SpriteStage

/-- A change of an actor that is spread over time. -/
inductive Motion (α : Type) where
  | glide (start stop : Point α)
  | turn (start degrees : α)
  | resize (start stop : α)
deriving Repr

/-- Where inside a block a run sleeps. -/
inductive Pause (α : Type) where
  /-- Nothing is left to do after the sleep. -/
  | rest
  /-- The message is cleared after the sleep. -/
  | bubble
  /-- A frame follows the sleep. -/
  | frame (motion : Motion α) (span : Span α)
deriving Repr

/-- A loop that a run is inside of. -/
structure Loop (α : Type) where
  body : Program α
  /-- The iterations to come after the current one. -/
  left : Nat
  /-- The blocks after the loop in the sequence that holds it. -/
  after : Program α
deriving Repr

/-- Where a run is suspended. -/
inductive Place (α : Type) where
  /-- Before its first step. -/
  | fresh
  /-- Asleep inside a block, with the rest of its sequence, the loops around it and the index of the
  top-level block. -/
  | asleep (pause : Pause α) (rest : Program α) (loops : List (Loop α)) (index : Nat)
  /-- Waiting for a turn after an iteration of the innermost loop, or after the top-level block if
  there is no loop. -/
  | turn (loops : List (Loop α)) (index : Nat)
deriving Repr

/-- How a resumption ends. -/
inductive Halt (α : Type) where
  | sleep (seconds : α) (place : Place α)
  | pass (place : Place α)
  | done (outcome : Phase)
deriving Repr

/-- What a block did when it was reached or resumed. -/
inductive Leaf (α : Type) where
  | finished (world : World α) (out : List (Signal α))
  | sleeping (world : World α) (out : List (Signal α)) (seconds : α) (pause : Pause α)
  | failed (world : World α) (out : List (Signal α))

/-- A resumption so far. -/
structure Activity (α : Type) where
  world : World α
  out : List (Signal α)
  halt : Halt α

variable {α : Type} [Scalar α]

/-- Seconds for each step, degree, unit of distance and unit of size, before the speed applies. -/
def secondsPerStep : α := Scalar.decimal 5 2

@[inherit_doc secondsPerStep]
def secondsPerDegree : α := Scalar.decimal 1 2

@[inherit_doc secondsPerStep]
def secondsPerUnit : α := Scalar.decimal 5 3

@[inherit_doc secondsPerStep]
def secondsPerSize : α := Scalar.decimal 1 2

/-- How many steps down values that need no notice are read. -/
def readSteps : Nat := 3

/-- How many steps down a notice about a value goes. -/
def fallbackSteps : Nat := 10

/-- How many steps down the notice about a skipped block goes. -/
def skipSteps : Nat := 8

def sleepSteps : Nat := 6

def motionSteps : Nat := 8

def frameSteps : Nat := 12

def messageSteps : Nat := 10

def lookSteps : Nat := 9

def descend (room steps : Nat) : Except Error Unit :=
  if steps ≤ room then .ok () else .error (.noRoom .running)

namespace Motion

/-- Motion over the stage slows down toward its end; other changes are even. -/
def easing : Motion α → Easing
  | .glide .. => .easeOutCubic
  | _ => .linear

def draw (m : Motion α) (w : World α) (actor : Int) (t : α) :
    Except Error (World α × List (Signal α)) :=
  match m with
  | .glide start stop => w.glide actor ⟨lerp start.x stop.x t, lerp start.y stop.y t⟩
  | .turn start degrees => w.write actor { heading := some (start + degrees * t) }
  | .resize start stop => w.write actor { size := some (.real (lerp start stop t)) }

def frame (m : Motion α) (w : World α) (room : Nat) (actor : Int) (progress : α) :
    Except Error (World α × List (Signal α)) := do
  descend room frameSteps
  m.draw w actor (← m.easing.apply progress)

end Motion

namespace Leaf

/-- The end of a block whose last act is a write. -/
def ofWrite (w : World α) : Except Error (World α × List (Signal α)) → Leaf α
  | .ok (w, out) => .finished w out
  | .error _ => .failed w []

/-- Starts a motion that takes some seconds. One that takes none is shown at once. -/
def ofMotion (w : World α) (room : Nat) (now : α) (actor : Int) (m : Motion α) (seconds : α) :
    Leaf α :=
  if Scalar.le seconds Scalar.zero then ofWrite w (m.frame w room actor Scalar.one)
  else if room < motionSteps then .failed w []
  else .sleeping w [] w.settings.frameInterval (.frame m ⟨now, seconds⟩)

def glide (w : World α) (room : Nat) (now : α) (a : Actor α) (target : Point α) (seconds : α) :
    Leaf α :=
  ofMotion w room now a.id (.glide a.position (w.settings.confine target)) seconds

def rest (w : World α) (room : Nat) (seconds : Number α) : Except Error (Leaf α) := do
  descend room sleepSteps
  return .sleeping w [] (w.settings.scaled (← seconds.toScalar)) .rest

/-- Starts an instruction that is no loop, with room for some steps down. -/
def start (w : World α) (room : Nat) (now : α) (a : Actor α) :
    Instruction α → Except Error (Leaf α)
  | .move steps => do
    let steps ← steps.toScalar
    let (c, s) := Scalar.direction a.heading
    let target : Point α := ⟨a.position.x + c * steps, a.position.y + s * steps⟩
    return glide w room now a target (w.settings.scaled (Scalar.abs steps * secondsPerStep))
  | .turn degrees => do
    let degrees ← degrees.toScalar
    return ofMotion w room now a.id (.turn a.heading degrees)
      (w.settings.scaled (Scalar.abs degrees * secondsPerDegree))
  | .goto x y => do
    let x ← x.toScalar
    let y ← y.toScalar
    let target := w.settings.confine ⟨x, y⟩
    let distance := Scalar.hypot (target.x - a.position.x) (target.y - a.position.y)
    return glide w room now a target (w.settings.scaled (distance * secondsPerUnit))
  | .wait seconds => rest w room seconds
  | .say message seconds => do
    let seconds ← seconds.toScalar
    descend room messageSteps
    let (w, out) ← w.write a.id { message := some (.text message) }
    return .sleeping w out (w.settings.scaled seconds) .bubble
  | .resize change => do
    let change ← change.toScalar
    let size ← (← a.extent).toScalar
    let target := Scalar.clamp (Scalar.whole 20) (Scalar.whole 100) (size + change)
    return ofMotion w room now a.id (.resize size target)
      (w.settings.scaled (Scalar.abs (target - size) * secondsPerSize))
  | .recolour index => do
    descend room lookSteps
    return ofWrite w (w.write a.id { look := some (.text (Instruction.lookAt index)) })
  | .loop _ => return .finished w []

/-- `start` for the actor that runs. It fails if the actor has left the stage, except that a sleep
does not look at its actor. -/
def begin (w : World α) (room : Nat) (now : α) (actor : Int) (i : Instruction α) : Leaf α :=
  let started := match i with
    | .wait seconds => rest w room seconds
    | i => (w.store.get actor).bind (start w room now · i)
  match started with
  | .ok leaf => leaf
  | .error _ => .failed w []

def wake (w : World α) (room : Nat) (now : α) (actor : Int) : Pause α → Leaf α
  | .rest => .finished w []
  | .bubble =>
    ofWrite w ((descend room messageSteps).bind fun _ => w.write actor { message := some .null })
  | .frame m span =>
    let progress := span.progress now
    match m.frame w room actor progress with
    | .error _ => .failed w []
    | .ok (w, out) =>
      if Scalar.lt progress Scalar.one then
        .sleeping w out w.settings.frameInterval (.frame m span)
      else .finished w out

def after (out : List (Signal α)) : Leaf α → Leaf α
  | .finished w more => .finished w (out ++ more)
  | .sleeping w more seconds pause => .sleeping w (out ++ more) seconds pause
  | .failed w more => .failed w (out ++ more)

end Leaf

namespace Activity

def after (out : List (Signal α)) (a : Activity α) : Activity α :=
  { a with out := out ++ a.out }

def fail (w : World α) (actor : Int) : Activity α :=
  ⟨w, [.notice (.programFailed actor)], .done .cancelled⟩

end Activity

/-- What is fixed during a resumption: the time, the actor and the index of its top-level block. -/
structure Moment (α : Type) where
  now : α
  actor : Int
  index : Nat

namespace Moment

/-- The values that a block runs with, or none if its type is unknown or has no instruction. -/
def inputs? (w : World α) (typeId : String) (raw : Fields α) :
    Option (List (Notice α) × Except Error (Fields α)) :=
  if Instruction.known.contains typeId then (w.catalog.find? typeId).map (·.resolve raw) else none

mutual

/-- Reaches a block. Either the activity ends inside it, or the block is through and the world and
signals after it are returned. `rest` is what follows the block in its sequence. -/
def dispatch (m : Moment α) (rest : Program α) (loops : List (Loop α)) (w : World α) :
    Block α → Activity α ⊕ World α × List (Signal α)
  | ⟨id, typeId, raw, children⟩ =>
    let block : Block α := ⟨id, typeId, raw, children⟩
    let room := w.roomBelow loops.length
    match inputs? w typeId raw with
    | none =>
      if room < skipSteps then .inl (Activity.fail w m.actor)
      else .inr (w, [.dispatched m.actor block none, .notice (.skipped m.actor id typeId)])
    | some (notices, resolved) =>
      let noted := notices.map Signal.notice
      if room < (if notices.isEmpty then readSteps else fallbackSteps) then
        .inl (Activity.fail w m.actor)
      else
        match resolved with
        | .error _ => .inl ((Activity.fail w m.actor).after noted)
        | .ok inputs =>
          let out := noted ++ [.dispatched m.actor block (some inputs)]
          match Instruction.ofInputs? typeId inputs with
          | none => .inl ((Activity.fail w m.actor).after out)
          | some (.loop times) =>
            match children, times with
            | [], _ | _, 0 => .inr (w, out)
            | body, left + 1 =>
              .inl ((sequence m (⟨body, left, rest⟩ :: loops) w children).after out)
          | some i =>
            match Leaf.begin w room m.now m.actor i with
            | .finished w more => .inr (w, out ++ more)
            | .sleeping w more seconds pause =>
              .inl ⟨w, out ++ more, .sleep seconds (.asleep pause rest loops m.index)⟩
            | .failed w more => .inl ((Activity.fail w m.actor).after (out ++ more))

/-- Runs what is left of a sequence, then waits for a turn. -/
def sequence (m : Moment α) (loops : List (Loop α)) (w : World α) : List (Block α) → Activity α
  | [] => ⟨w, [], .pass (.turn loops m.index)⟩
  | b :: rest =>
    match dispatch m rest loops w b with
    | .inl activity => activity
    | .inr (w, out) => (sequence m loops w rest).after out

end

/-- Starts the top-level block with the moment's index of the program that the actor holds now; the
run is complete if there is none. -/
def step (m : Moment α) (w : World α) : Activity α :=
  match w.store.get? m.actor with
  | none => .fail w m.actor
  | some a =>
    match a.program[m.index]? with
    | none => ⟨w, [], .done .completed⟩
    | some block =>
      match w.write m.actor { stepIndex := some (.int m.index) } with
      | .error _ => .fail w m.actor
      | .ok (w, out) => (sequence m [] w [block]).after out

/-- Goes on after a collision pass: with the next iteration, with what follows the loop, or with the
next top-level block. -/
def next (m : Moment α) (w : World α) : List (Loop α) → Activity α
  | [] => step { m with index := m.index + 1 } w
  | l :: loops =>
    match l.left with
    | 0 => sequence m loops w l.after
    | left + 1 => sequence m ({ l with left } :: loops) w l.body

end Moment

/-- Carries a run from where it is suspended to the next suspension or to its end. -/
def Place.resume (now : α) (actor : Int) (w : World α) : Place α → Activity α
  | .fresh => Moment.step ⟨now, actor, 0⟩ w
  | .asleep pause rest loops index =>
    match Leaf.wake w (w.roomBelow loops.length) now actor pause with
    | .finished w out => (Moment.sequence ⟨now, actor, index⟩ loops w rest).after out
    | .sleeping w out seconds pause =>
      ⟨w, out, .sleep seconds (.asleep pause rest loops index)⟩
    | .failed w out => (Activity.fail w actor).after out
  | .turn loops index =>
    let (w, out, result) := w.collide (w.passRoom loops.length)
    let activity := match result with
      | .error _ => Activity.fail w actor
      | .ok _ => Moment.next ⟨now, actor, index⟩ w loops
    activity.after (.pass actor :: out)

end SpriteStage
