import SpriteStage.Proofs.Course
import SpriteStage.Stage.Manual
import SpriteStage.Subscription
/-!
# Requests to a house

A house is a stage with the listeners to its events. What those who run it can ask for is more
than the acts of a course: turns and time in larger pieces, a look at the stage, writes past the
checks of the editor, a collision pass, and engines driven by hand.
-/
namespace SpriteStage

namespace Stage

variable {α : Type}

def Act.Answer : Act α → Type
  | .addActor _ | .selectActor _ => Except Error (Actor α)
  | .submit .. | .editInput .. | .removeBlock .. | .duplicate .. => Except Error (Block α)
  | .deleteActor _ | .reorder .. | .clearProgram _ | .stopActor _ => Except Error Unit
  | .playAll => List Int
  | .playActor _ => Except Error Bool
  | .init | .reset | .stopAll | .beat _ => Unit

inductive Request (α : Type) where
  | act (a : Act α)
  | turns (n : Nat)
  | drain (fuel : Nat)
  | advance (fuel : Nat) (seconds : α)
  | run (fuel : Nat)
  | awaitIdle (fuel : Nat)
  | look
  | find (actor : Int)
  | update (actor : Int) (fields : Fields α)
  | updateTrail (actor : Int) (point : Value α) (fields : Fields α)
  | collide
  | seed
  | clearStore
  | clearTouching
  | registerType (type : BlockType α)
  | newEngine (actor : Int)
  | beginEngine (id : EngineId)
  | runEngine (id : EngineId)
  | cancelEngine (id : EngineId)
  | settleEngine (id : EngineId) (outcome : String)

structure Sight (α : Type) where
  actors : List (Actor α)
  selected : Option Int
  isPlaying : Bool
  running : List Int
  players : List Int
  now : α

def Request.Answer : Request α → Type
  | .act a => a.Answer
  | .turns _ | .drain _ | .awaitIdle _ => Unit
  | .advance .. | .run _ => α
  | .look => Sight α
  | .find _ | .update .. | .updateTrail .. => Except Error (Actor α)
  | .collide => Except Error (List Pair)
  | .seed => Option (Actor α)
  | .registerType _ | .settleEngine .. => Except Error Unit
  | .newEngine _ => EngineId
  | .beginEngine _ => Except Error Phase
  | .clearStore | .clearTouching => Unit
  | .runEngine _ | .cancelEngine _ => Phase

variable [Scalar α]

def answer (s : Stage α) : (a : Act α) → Reply α a.Answer
  | .init => s.init
  | .reset => s.reset
  | .addActor casting => s.addActor casting
  | .deleteActor actor => s.deleteActor actor
  | .selectActor actor => s.selectActor actor
  | .submit actor typeId inputs parent => s.submit actor typeId inputs parent
  | .editInput actor block name value => s.editInput actor block name value
  | .reorder actor source target => s.reorder actor source target
  | .removeBlock actor block => s.removeBlock actor block
  | .duplicate actor block => s.duplicate actor block
  | .clearProgram actor => s.clearProgram actor
  | .playAll => s.playAll
  | .playActor actor => s.playActor actor
  | .stopAll => s.stopAll
  | .stopActor actor => s.stopActor actor
  | .beat b => ⟨(s.beat b).1, (s.beat b).2, ()⟩

theorem answer_effect (s : Stage α) (a : Act α) : (s.answer a).effect = s.perform a := by
  cases a <;> rfl

def sight (s : Stage α) : Sight α where
  actors := s.store.actors
  selected := s.selected
  isPlaying := s.isPlaying
  running := s.store.running
  players := s.players
  now := s.now

def ask (s : Stage α) : (r : Request α) → Reply α r.Answer
  | .act a => s.answer a
  | .turns n => Stage.turns n s
  | .drain fuel => s.drain fuel
  | .advance fuel seconds => s.advance fuel seconds
  | .run fuel => s.run fuel
  | .awaitIdle fuel => s.awaitIdle fuel
  | .look => s.reply s.sight
  | .find actor => s.reply (s.store.get actor)
  | .update actor fields => s.update actor fields
  | .updateTrail actor point fields => s.updateTrail actor point fields
  | .collide => s.collide
  | .seed => s.seed
  | .clearStore => s.clearStore.reply ()
  | .clearTouching => s.clearTouching.reply ()
  | .registerType type => s.registerType type
  | .newEngine actor => s.newEngine actor
  | .beginEngine id =>
    let r := s.beginEngine id
    ⟨r.stage, r.out, r.result.map fun _ => r.stage.phase id⟩
  | .runEngine id => (s.runEngine id).reply ((s.runEngine id).phase id)
  | .cancelEngine id => (s.cancelEngine id).reply ((s.cancelEngine id).phase id)
  | .settleEngine id outcome => s.settleEngine id outcome

end Stage

/-- A stage with the listeners to its events. -/
structure House (α : Type) where
  stage : Stage α
  feed : Feed α

namespace House

variable {α : Type}

/-- What can happen at a house: a request, or a listener comes or goes. -/
inductive Call (α : Type) where
  | request (r : Stage.Request α)
  | subscribe (l : Listener)
  | unsubscribe (l : Listener)

/-- The answer to a request and what was told with it. -/
structure Receipt (α : Type) where
  request : Stage.Request α
  answer : request.Answer
  out : List (Signal α)

variable [Scalar α]

/-- Answers a request; the events go to the listeners. -/
def ask (h : House α) (r : Stage.Request α) : House α × Receipt α :=
  let reply := h.stage.ask r
  let (feed, out) := h.feed.relay reply.out
  (⟨reply.stage, feed⟩, ⟨r, reply.result, out⟩)

def serve : List (Call α) → House α → House α × List (Receipt α)
  | [], h => (h, [])
  | .request r :: rest, h =>
    let (h, receipt) := h.ask r
    let (h, more) := serve rest h
    (h, receipt :: more)
  | .subscribe l :: rest, h => serve rest { h with feed := h.feed.subscribe l }
  | .unsubscribe l :: rest, h => serve rest { h with feed := h.feed.unsubscribe l }

end House

/-- Listeners hear exactly the events that were told. -/
theorem Feed.events_relay {α : Type} (f : Feed α) (out : List (Signal α)) :
    Signal.events (f.relay out).2 = Signal.events out := by
  induction out generalizing f with
  | nil => rfl
  | cons x out ih =>
    cases x with
    | event e =>
      have hquiet : Signal.events ((f.deliver e).2.map Signal.notice) = ([] : List (Event α)) := by
        simp [Signal.events, Signal.event?]
      have hrest := ih (f.deliver e).1
      simp only [Feed.relay, Signal.events, List.filterMap_cons, List.filterMap_append, Signal.event?] at *
      rw [hquiet, hrest]
      rfl
    | notice n => exact ih f
    | dispatched actor block inputs => exact ih f
    | pass actor => exact ih f

end SpriteStage
