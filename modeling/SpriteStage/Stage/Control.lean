import SpriteStage.Stage.Schedule
/-!
# Playing and stopping

An actor can be put into play if it is idle and has a program. Stopping cancels runs wherever they
are suspended: those that wait for a turn end first, in the order of the queue, then those that
sleep, then those that have not taken a first step, the last two in the order in which they were
started.
-/
namespace SpriteStage.Stage

variable {α : Type} [Scalar α]

/-- Takes the engine of an actor off the stage if its run has ended. -/
def retirePlayer (s : Stage α) (actor : Int) : Stage α :=
  { s with engines := s.engines.filter fun entry => !(isOver entry && entry.1 == .player actor) }

/-- Puts an actor into play; false if it has no program or is in play or running already. -/
def playActor (s : Stage α) (actor : Int) : Reply α (Except Error Bool) :=
  match s.store.get actor with
  | .error cause => s.refuse cause
  | .ok a =>
    let s := s.retirePlayer actor
    let id := EngineId.player actor
    if a.program.isEmpty || a.runs || (s.engine? id).isSome then s.reply (.ok false)
    else
      let (e, begun) := ({ actor, runs := 1 } : Engine).begin s.world
      match begun with
      | .error cause => s.refuse cause
      | .ok (world, out) =>
        let task : Task α := ⟨id, 1, .fresh⟩
        ⟨{ s with world, engines := s.engines ++ [(id, e)], ready := s.ready ++ [task] }, out,
          .ok true⟩

/-- `playActor` on each actor of a list; the result holds those that were put into play. -/
def playEach : List Int → Stage α → Reply α (List Int)
  | [], s => s.reply []
  | actor :: rest, s =>
    let r := s.playActor actor
    let more := playEach rest r.stage
    let started := match r.result with
      | .ok true => [actor]
      | _ => []
    ⟨more.stage, r.out ++ more.out, started ++ more.result⟩

def playAll (s : Stage α) : Reply α (List Int) :=
  let r := playEach s.store.ids s
  if r.result.isEmpty then r
  else { r with out := r.out ++ [.notice (.started r.result)] }

/-- The engines of a list in the order in which cancelling ends their runs. -/
def stopOrder (s : Stage α) (ids : List EngineId) : List EngineId :=
  let started (t : Task α) : Bool :=
    match t.place with
    | .fresh => false
    | _ => true
  let waiting := (s.ready.filter started).map (·.engine)
  let asleep := s.sleepers.map (·.task.engine)
  waiting.filter ids.contains
    ++ ids.filter (fun id => asleep.contains id && !waiting.contains id)
    ++ ids.filter (fun id => !asleep.contains id && !waiting.contains id)

def cancelEach : List EngineId → Stage α → Stage α × List (Signal α)
  | [], s => (s, [])
  | id :: rest, s =>
    let (s, out) := s.settle id .cancelled
    let (s, more) := cancelEach rest s
    (s, out ++ more)

def discard (s : Stage α) (ids : List EngineId) : Stage α :=
  { s with
    engines := s.engines.filter (!ids.contains ·.1)
    ready := s.ready.filter (!ids.contains ·.engine)
    sleepers := s.sleepers.filter (!ids.contains ·.task.engine) }

/-- Stops those of the given actors that are in play. -/
def stop (s : Stage α) (actors : List Int) : Reply α Unit :=
  let actors := actors.filter s.players.contains
  if actors.isEmpty then s.reply ()
  else
    let ids := actors.map EngineId.player
    let (t, out) := cancelEach (s.stopOrder ids) s
    ⟨(t.discard ids).retire, out ++ [.notice (.stopped actors)], ()⟩

def stopAll (s : Stage α) : Reply α Unit :=
  s.stop s.players

def stopActor (s : Stage α) (actor : Int) : Reply α (Except Error Unit) :=
  match s.store.get actor with
  | .error cause => s.refuse cause
  | .ok _ =>
    let r := s.stop [actor]
    ⟨r.stage, r.out, .ok ()⟩

end SpriteStage.Stage
