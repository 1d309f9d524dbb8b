import SpriteStage.Stage
/-!
# Time and turns

Tasks take turns in the order in which they asked for one, and sleepers wake in the order of their
times; those that wake at the same time, in the order in which they went to sleep. The number of
ticks is bounded by an argument, because a program may ask for more of them than anyone can wait
for.
-/
namespace SpriteStage.Stage

variable {α : Type} [Scalar α]

/-- Ends a task: its engine is settled and, if this was the run scheduled last, told the outcome. -/
def finish (s : Stage α) (t : Task α) (outcome : Phase) : Stage α × List (Signal α) :=
  let (s, out) := s.settle t.engine outcome
  match s.engine? t.engine with
  | none => (s, out)
  | some e =>
    if e.runs = t.run then (s.setEngine t.engine { e with outcome := some outcome }, out)
    else (s, out)

def resume (s : Stage α) (t : Task α) : Stage α × List (Signal α) :=
  match s.engine? t.engine with
  | none => (s, [])
  | some e =>
    let activity := e.resume s.world s.now t.place
    let s := { s with world := activity.world }
    match activity.halt with
    | .sleep seconds place =>
      let sleeper : Sleeper α := ⟨wakeTime s.now seconds, { t with place }⟩
      ({ s with sleepers := s.sleepers ++ [sleeper] }, activity.out)
    | .pass place => ({ s with ready := s.ready ++ [{ t with place }] }, activity.out)
    | .done outcome =>
      let (s, out) := s.finish t outcome
      (s, activity.out ++ out)

def nextWake (s : Stage α) : Option α :=
  match s.sleepers with
  | [] => none
  | first :: rest => some (rest.foldl (fun w sleeper => Scalar.least w sleeper.wake) first.wake)

/-- Moves time to a waking and makes all tasks ready that wake then. Time never moves back. -/
def wakeAt (s : Stage α) (time : α) : Stage α :=
  { s with
    now := Scalar.greatest s.now time
    ready := s.ready ++ (s.sleepers.filter fun sleeper => Scalar.eq sleeper.wake time).map (·.task)
    sleepers := s.sleepers.filter fun sleeper => !Scalar.eq sleeper.wake time }

/-- How far time may move. -/
inductive Horizon (α : Type) where
  /-- Not at all. -/
  | present
  /-- Up to a time. -/
  | upTo (time : α)
  /-- As far as there are sleepers. -/
  | unbounded
deriving Repr

def Horizon.admits : Horizon α → α → Bool
  | .present, _ => false
  | .upTo limit, time => Scalar.le time limit
  | .unbounded, _ => true

/-- The next thing that happens: the first ready task takes a turn, or else the next sleepers wake.
None if nothing can happen within the horizon. -/
def tick? (h : Horizon α) (s : Stage α) : Option (Stage α × List (Signal α)) :=
  let s := s.retire
  match s.ready with
  | t :: rest => some ({ s with ready := rest }.resume t)
  | [] =>
    match s.nextWake with
    | none => none
    | some time => if h.admits time then some (s.wakeAt time, []) else none

/-- Lets things happen until `stop` holds or nothing can happen, at most `fuel` times. The signals go
behind those in `out`. -/
def runUntil (stop : Stage α → Bool) (h : Horizon α) :
    (fuel : Nat) → Stage α → Array (Signal α) → Stage α × Array (Signal α)
  | 0, s, out => (s, out)
  | fuel + 1, s, out =>
    if stop s then (s, out)
    else
      match s.tick? h with
      | none => (s, out)
      | some (s, more) => runUntil stop h fuel s (out ++ more.toArray)

/-- `runUntil` without a condition and from no signals; no engine whose run has ended is left. -/
def runWithin (h : Horizon α) (fuel : Nat) (s : Stage α) : Stage α × List (Signal α) :=
  let (s, out) := runUntil (fun _ => false) h fuel s #[]
  (s.retire, out.toList)

/-- Lets the ready tasks take turns until none is ready. -/
def drain (fuel : Nat) (s : Stage α) : Reply α Unit :=
  let (s, out) := s.runWithin .present fuel
  ⟨s, out, ()⟩

/-- Moves time on by some seconds. It stays at the last waking if more has yet to happen before. -/
def advance (fuel : Nat) (s : Stage α) (seconds : α) : Reply α α :=
  let target := s.now + seconds
  let (s, out) := s.runWithin (.upTo target) fuel
  let s := if (s.tick? (.upTo target)).isNone then { s with now := target } else s
  ⟨s, out, s.now⟩

/-- Runs until no task is left. -/
def run (fuel : Nat) (s : Stage α) : Reply α α :=
  let (s, out) := s.runWithin .unbounded fuel
  ⟨s, out, s.now⟩

def awaitIdle (fuel : Nat) (s : Stage α) : Reply α Unit :=
  let (s, out) := runUntil (fun s => s.retire.players.isEmpty) .unbounded fuel s #[]
  ⟨s.retire, out.toList, ()⟩

/-- Gives one turn to each task of a list, all of them at the front of the queue. -/
def turnEach : List (Task α) → Stage α → Stage α × List (Signal α)
  | [], s => (s, [])
  | t :: rest, s =>
    let (s, out) := { s with ready := s.ready.drop 1 }.resume t
    let (s, more) := turnEach rest s
    (s, out ++ more)

/-- Gives `n` rounds of turns: in each, one turn to every task that is ready when it starts. -/
def turns : Nat → Stage α → Reply α Unit
  | 0, s => s.reply ()
  | n + 1, s =>
    let (s, out) := turnEach s.ready s.retire
    let r := turns n s
    { r with out := out ++ r.out }

end SpriteStage.Stage
