import SpriteStage.Proofs.Lifecycle
import SpriteStage.Proofs.Requests
/-!
# Renewal

Ids start anew when a stage is reset, so whatever was left behind would act on another actor of
the same id. Nothing is left behind: a stage that is reset, after whatever has happened on it, is
a new stage.
-/
namespace SpriteStage.Stage

variable {α : Type} [Scalar α]

/-- A new stage with the settings, the clock and what is left of the draws of this one. The catalog, the names
of blocks, the numbers of engines driven by hand and the room for steps are those of the process. -/
def renewed (s : Stage α) : Stage α :=
  let fresh := new s.settings s.draws
  { fresh with
    world := { fresh.world with
      catalog := s.world.catalog, room := s.world.room, runRoom := s.world.runRoom }
    nextBlock := s.nextBlock
    now := s.now
    nextSerial := s.nextSerial }

private theorem renewed_isEmpty (s : Stage α) : s.renewed.IsEmpty :=
  ⟨rfl, rfl, rfl, rfl, rfl, rfl⟩

/-- Stopping everybody takes away the engines and the tasks, and resetting does the rest. -/
theorem Orderly.reset_eq {s : Stage α} (h : s.Orderly) : s.reset.stage = s.renewed := by
  have hstage := (stopAll_spec h).1
  simp only [Stage.reset, hstage]
  rfl

/-- After whatever has happened on a stage, a reset leaves no actor, no selection, no memory of overlaps, no
engine and no task, and the next id is one. It makes the stage new, so whatever is asked for later is answered
and told as on a new stage, with whatever listeners there are. -/
theorem reset_renews {s : Stage α} (h : Reachable s) :
    s.reset.stage.store.actors = [] ∧ s.reset.stage.selected = none ∧
      s.reset.stage.world.touching = [] ∧ s.reset.stage.engines = [] ∧ s.reset.stage.live = [] ∧
      s.reset.stage.store.nextId = 1 ∧ s.reset.stage = s.renewed ∧
      ∀ (feed : Feed α) (calls : List (House.Call α)),
        House.serve calls ⟨s.reset.stage, feed⟩ = House.serve calls ⟨s.renewed, feed⟩ := by
  have hstage := h.orderly.reset_eq
  have hempty := s.renewed_isEmpty
  refine ⟨?_, ?_, ?_, ?_, ?_, ?_, hstage, ?_⟩
  · rw [hstage, hempty.store]
    rfl
  · rw [hstage, hempty.selected]
  · rw [hstage, hempty.touching]
  · rw [hstage, hempty.engines]
  · rw [hstage, live, hempty.ready, hempty.sleepers]
    rfl
  · rw [hstage, hempty.store]
    rfl
  · intro feed calls
    rw [hstage]

/-- Two actors overlap; one of them sleeps, and the other has been put into play again after its run. -/
def crowded : Stage Float :=
  ((new Settings.standard ⟨[], 0⟩).enact
    [.init, .addActor { x := .int 110, y := .int 100 }, .selectActor 2,
      .submit 1 "set_color" [] none, .submit 1 "wait" [("seconds", .int 2)] none,
      .submit 2 "wait" [("seconds", .int 1)] none, .playAll, .beat .turn, .beat .turn, .beat .turn,
      .playActor 1]).1

/-- A listener comes, and the first actor after the reset is told to say something. -/
def revival : List (House.Call Float) :=
  [.subscribe ⟨"renderer", 0, false⟩, .request (.act (.addActor { x := .int 5, y := .int 5 })),
    .request (.act (.submit 1 "say" [("message", .text "new")] none)), .request (.act .playAll),
    .request (.advance 20 (Scalar.whole 60)), .request .collide]

theorem crowded_renewed :
    crowded.world.touching = [(1, 2)] ∧ crowded.selected = some 2 ∧ crowded.ready.length = 1 ∧
      crowded.sleepers.length = 1 ∧ crowded.reset.stage.live = [] ∧
      (House.serve revival ⟨crowded.reset.stage, Feed.empty⟩).1.feed.delivered.map
        (fun entry => entry.2.actor) = [1, 1, 1, 1, 1, 1, 1] ∧
      (House.serve revival ⟨crowded.reset.stage, Feed.empty⟩).1.stage.store.ids = [1] := by
  have hreachable : Reachable crowded := (Reachable.empty (new_isEmpty _ _)).enact _
  obtain ⟨-, -, -, -, hlive, -, -, hserve⟩ := reset_renews hreachable
  rw [hserve Feed.empty revival]
  refine ⟨by decide +kernel, by decide +kernel, by decide +kernel, by decide +kernel, hlive, ?_, ?_⟩
  · decide +kernel
  · decide +kernel

end SpriteStage.Stage
