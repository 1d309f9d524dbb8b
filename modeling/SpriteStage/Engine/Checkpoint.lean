import SpriteStage.Engine.Run
/-!
# Checkpoints

A run can be asked to stop while it is suspended. It looks whether it was asked at its
checkpoints: after each sleep, before each frame and after the last one, when its turn comes and
before the collision pass that follows, before it looks for the next top-level block, and before
each block in the body of a loop. It ends at the first checkpoint at which it was asked, without a
further act.
-/
namespace SpriteStage

variable {α : Type} [Scalar α]

/-- The motion that an instruction sets out to make, if it makes one, with the seconds it takes at the usual
speed. `confine` brings a point onto the stage. -/
def Motion.plan? (confine : Point α → Point α) (a : Actor α) :
    Instruction α → Option (Except Error (Motion α × α))
  | .move steps => some do
    let steps ← steps.toScalar
    let (c, s) := Scalar.direction a.heading
    let target : Point α := ⟨a.position.x + c * steps, a.position.y + s * steps⟩
    return (.glide a.position (confine target), Scalar.abs steps * secondsPerStep)
  | .turn degrees => some do
    let degrees ← degrees.toScalar
    return (.turn a.heading degrees, Scalar.abs degrees * secondsPerDegree)
  | .goto x y => some do
    let x ← x.toScalar
    let y ← y.toScalar
    let target := confine ⟨x, y⟩
    let distance := Scalar.hypot (target.x - a.position.x) (target.y - a.position.y)
    return (.glide a.position (confine target), distance * secondsPerUnit)
  | .resize change => some do
    let change ← change.toScalar
    let size ← (← a.extent).toScalar
    let target := Scalar.clamp (Scalar.whole 20) (Scalar.whole 100) (size + change)
    return (.resize size target, Scalar.abs (target - size) * secondsPerSize)
  | _ => none

def Activity.stop (w : World α) : Activity α := ⟨w, [], .done .cancelled⟩

namespace Leaf

/-- What follows a checkpoint inside of a block; none if the run ends there. -/
def checkpoint (asked : Bool) (leaf : Leaf α) : Option (Leaf α) :=
  if asked then none else some leaf

/-- `ofMotion` with its checkpoints: a motion that takes no time is shown only if nobody asked to stop, and
the run looks again after it. -/
def ofMotionGuarded (asked : Bool) (w : World α) (room : Nat) (now : α) (actor : Int) (m : Motion α)
    (seconds : α) : Option (Leaf α) :=
  if Scalar.le seconds Scalar.zero then
    let shown := if asked then .finished w [] else ofWrite w (m.frame w room actor Scalar.one)
    match shown with
    | .failed w out => some (.failed w out)
    | leaf => checkpoint asked leaf
  else if room < motionSteps then some (.failed w [])
  else some (.sleeping w [] w.settings.frameInterval (.frame m ⟨now, seconds⟩))

def startGuarded (asked : Bool) (w : World α) (room : Nat) (now : α) (a : Actor α) (i : Instruction α) :
    Except Error (Option (Leaf α)) :=
  match Motion.plan? w.settings.confine a i with
  | some plan => do
    let (m, seconds) ← plan
    return ofMotionGuarded asked w room now a.id m (w.settings.scaled seconds)
  | none => do return some (← start w room now a i)

def beginGuarded (asked : Bool) (w : World α) (room : Nat) (now : α) (actor : Int) (i : Instruction α) :
    Option (Leaf α) :=
  let started := match i with
    | .wait seconds => (rest w room seconds).map some
    | i => (w.store.get actor).bind (startGuarded asked w room now · i)
  match started with
  | .ok leaf => leaf
  | .error _ => some (.failed w [])

/-- `wake` with its checkpoints: the run looks whether to stop as soon as it wakes, and once more after the
last frame of a motion. -/
def wakeGuarded (asked : Bool) (w : World α) (room : Nat) (now : α) (actor : Int) :
    Pause α → Option (Leaf α)
  | .rest => checkpoint asked (.finished w [])
  | .bubble =>
    checkpoint asked
      (ofWrite w ((descend room messageSteps).bind fun _ => w.write actor { message := some .null }))
  | .frame m span =>
    if asked then none
    else
      let progress := span.progress now
      match m.frame w room actor progress with
      | .error _ => some (.failed w [])
      | .ok (w, out) =>
        if Scalar.lt progress Scalar.one then
          some (.sleeping w out w.settings.frameInterval (.frame m span))
        else checkpoint asked (.finished w out)

end Leaf

namespace Moment

mutual

def dispatchGuarded (asked : Bool) (m : Moment α) (rest : Program α) (loops : List (Loop α))
    (w : World α) : Block α → Activity α ⊕ World α × List (Signal α)
  | ⟨id, typeId, raw, children⟩ =>
    let block : Block α := ⟨id, typeId, raw, children⟩
    let room := w.roomBelow loops.length
    match inputs? w typeId raw with
    | none =>
      if room < skipSteps then .inl (Activity.fail w m.actor)
      else .inr (w, [.dispatched m.actor block none, .notice (.skipped m.actor id typeId)])
    | some (notices, resolved) =>
      let noted := notices.map Signal.notice
      if room < (if notices.isEmpty then readSteps else fallbackSteps) then
        .inl (Activity.fail w m.actor)
      else
        match resolved with
        | .error _ => .inl ((Activity.fail w m.actor).after noted)
        | .ok inputs =>
          let out := noted ++ [.dispatched m.actor block (some inputs)]
          match Instruction.ofInputs? typeId inputs with
          | none => .inl ((Activity.fail w m.actor).after out)
          | some (.loop times) =>
            match children, times with
            | [], _ | _, 0 => .inr (w, out)
            | body, left + 1 =>
              .inl ((sequenceGuarded asked m (⟨body, left, rest⟩ :: loops) w children).after out)
          | some i =>
            match Leaf.beginGuarded asked w room m.now m.actor i with
            | none => .inl ((Activity.stop w).after out)
            | some (.finished w more) => .inr (w, out ++ more)
            | some (.sleeping w more seconds pause) =>
              .inl ⟨w, out ++ more, .sleep seconds (.asleep pause rest loops m.index)⟩
            | some (.failed w more) => .inl ((Activity.fail w m.actor).after (out ++ more))

/-- `sequence` with a checkpoint before each block. -/
def sequenceGuarded (asked : Bool) (m : Moment α) (loops : List (Loop α)) (w : World α) :
    List (Block α) → Activity α
  | [] => ⟨w, [], .pass (.turn loops m.index)⟩
  | b :: rest =>
    if asked then .stop w
    else
      match dispatchGuarded asked m rest loops w b with
      | .inl activity => activity
      | .inr (w, out) => (sequenceGuarded asked m loops w rest).after out

end

/-- `step` with its checkpoint, which comes before the program is read; there is none between the index that
is written and the block. -/
def stepGuarded (asked : Bool) (m : Moment α) (w : World α) : Activity α :=
  if asked then .stop w
  else
    match w.store.get? m.actor with
    | none => .fail w m.actor
    | some a =>
      match a.program[m.index]? with
      | none => ⟨w, [], .done .completed⟩
      | some block =>
        match w.write m.actor { stepIndex := some (.int m.index) } with
        | .error _ => .fail w m.actor
        | .ok (w, out) =>
          match dispatchGuarded asked m [] [] w block with
          | .inl activity => activity.after out
          | .inr (w, more) => ⟨w, out ++ more, .pass (.turn [] m.index)⟩

def nextGuarded (asked : Bool) (m : Moment α) (w : World α) : List (Loop α) → Activity α
  | [] => stepGuarded asked { m with index := m.index + 1 } w
  | l :: loops =>
    match l.left with
    | 0 => sequenceGuarded asked m loops w l.after
    | left + 1 => sequenceGuarded asked m ({ l with left } :: loops) w l.body

end Moment

def Place.resumeGuarded (asked : Bool) (now : α) (actor : Int) (w : World α) : Place α → Activity α
  | .fresh => Moment.stepGuarded asked ⟨now, actor, 0⟩ w
  | .asleep pause rest loops index =>
    match Leaf.wakeGuarded asked w (w.roomBelow loops.length) now actor pause with
    | none => .stop w
    | some (.finished w out) =>
      (Moment.sequenceGuarded asked ⟨now, actor, index⟩ loops w rest).after out
    | some (.sleeping w out seconds pause) =>
      ⟨w, out, .sleep seconds (.asleep pause rest loops index)⟩
    | some (.failed w out) => (Activity.fail w actor).after out
  | .turn loops index =>
    if asked then .stop w
    else
      let (w, out, result) := w.collide (w.passRoom loops.length)
      let activity := match result with
        | .error _ => Activity.fail w actor
        | .ok _ => Moment.nextGuarded asked ⟨now, actor, index⟩ w loops
      activity.after (.pass actor :: out)

end SpriteStage
