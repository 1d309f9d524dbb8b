import SpriteStage.Proofs.Edits
import SpriteStage.Proofs.Updates
/-! # What acts hand down -/
namespace SpriteStage

variable {α : Type}

/-- A world that comes from another by what acts do. -/
structure World.Inherits (w w' : World α) : Prop where
  settings : w'.settings = w.settings
  catalog : w'.catalog = w.catalog
  runRoom : w'.runRoom = w.runRoom
  sized : w.store.Sized → w'.store.Sized

open World (Inherits)

private theorem World.Inherits.refl (w : World α) : Inherits w w := ⟨rfl, rfl, rfl, id⟩

private theorem Store.Sized.add {st : Store α} (h : st.Sized) {a : Actor α} (ha : st.Newcomer a) (next : Int) :
    Sized ⟨st.actors ++ [a], next⟩ := by
  intro id b hb
  simp only [get?, List.find?_append] at hb
  rcases Option.or_eq_some_iff.mp hb with hold | ⟨-, hfound⟩
  · exact h id b hold
  · rw [List.mem_singleton.mp (List.mem_of_find?_eq_some hfound)]
    exact ha.size

private theorem Store.Sized.erase {st : Store α} (h : st.Sized) (actor : Int) : (st.erase actor).Sized := by
  intro id b hb
  rw [get?_erase] at hb
  split at hb
  · cases hb
  · exact h id b hb

namespace Stage

private theorem inherits_of_world {s s' : Stage α} {st : Store α} (hworld : s'.world = (s.withStore st).world)
    (hsized : s.store.Sized → st.Sized) : Inherits s.world s'.world := by
  rw [hworld]
  exact ⟨rfl, rfl, rfl, hsized⟩

private theorem Edited.inherits {s s' : Stage α} {out : List (Signal α)} (h : Edited s s' out) :
    Inherits s.world s'.world := by
  cases h with
  | nothing world _ _ =>
    rw [world]
    exact .refl _
  | skipped world _ _ => exact inherits_of_world world id
  | added a newcomer world _ _ => exact inherits_of_world world fun h => h.add newcomer _
  | deleted actor world _ _ => exact inherits_of_world world fun h => h.erase actor
  | revised actor a p found world _ _ => exact inherits_of_world world fun h => h.give found p

variable [Scalar α]

private theorem Plays.inherits {through : Prop} {s s' : Stage α} {out : List (Signal α)}
    (h : Plays through s out s') :
    Inherits s.world s'.world :=
  ⟨h.frame.settings, h.frame.catalog, h.frame.runRoom, h.store.sized⟩

/-- No act changes the settings, the catalog or the room for runs or gives an actor a size that is no number. -/
theorem perform_inherits (s : Stage α) (a : Act α) : Inherits s.world (s.perform a).1.world := by
  rcases Act.cases a with hedit | hfree | rfl
  · exact (perform_edited s hedit).inherits
  · exact (perform_plays s hfree).inherits
  · have hframe := (stop_updated s s.players).frame
    exact ⟨hframe.settings, hframe.catalog, hframe.runRoom, fun _ _ _ h => nomatch h⟩

theorem Reachable.sized {s : Stage α} (h : Reachable s) : s.store.Sized := by
  induction h with
  | empty h =>
    intro id a ha
    rw [h.store] at ha
    cases ha
  | act h a ih => exact (perform_inherits _ a).sized ih

/-! ## Calm beats -/

/-- Whether the collision pass of a beat, if there is one, finds no pair to swap. -/
def calmBeat (s : Stage α) : Beat α → Bool
  | .turn =>
    match s.ready with
    | ⟨_, _, .turn _ _⟩ :: _ => s.world.colliding.isEmpty
    | _ => true
  | _ => true

/-- Whether no collision pass finds a pair to swap during some beats. -/
def calm : Stage α → List (Beat α) → Bool
  | _, [] => true
  | s, b :: beats => s.calmBeat b && (s.beat b).1.calm beats

/-- Such a pass goes through, because on a reachable stage it can be told who overlaps. -/
theorem passesBy_of_calm {s : Stage α} (h : Reachable s) (hcalm : s.calmBeat .turn = true) {t : Task α}
    {rest : List (Task α)} (hready : s.ready = t :: rest) : t.place.PassesBy s.world := by
  obtain ⟨id, run, place⟩ := t
  cases place with
  | turn loops index =>
    simp only [calmBeat, hready, List.isEmpty_iff] at hcalm
    exact World.collide_of_apart h.orderly.ascending h.sized hcalm _
  | _ => trivial

private theorem resume_programs {s : Stage α} {t : Task α} (h : Roster s.world s.engines (t :: s.live))
    (hcalm : t.place.PassesBy s.world) (id : Int) :
    ((s.resume t).1.store.get? id).map (·.program) = (s.store.get? id).map (·.program) := by
  obtain ⟨⟨actor, hown⟩, -⟩ := h.tasks t (by simp)
  have hprograms := Place.resume_programs s.now actor s.world hcalm id
  rcases resume_cases h hown rfl with
    ⟨seconds, place, -, hs⟩ | ⟨place, -, hs⟩ | ⟨outcome, w, said, -, hwrite, hs⟩
  · rw [hs]
    exact hprograms
  · rw [hs]
    exact hprograms
  · rw [hs]
    exact ((Personal.ofWrite rfl hwrite).programs id).trans hprograms

/-- As long as nobody collides, no program changes. -/
theorem beat_programs {s : Stage α} (h : Reachable s) {b : Beat α} (hcalm : s.calmBeat b = true)
    (id : Int) :
    ((s.beat b).1.store.get? id).map (·.program) = (s.store.get? id).map (·.program) := by
  cases b with
  | retire => rfl
  | turn =>
    simp only [beat]
    cases hready : s.ready with
    | nil => rfl
    | cons t rest =>
      have hplace := passesBy_of_calm h hcalm hready
      exact resume_programs (s := { s with ready := rest }) (h.orderly.atTurn hready) hplace id
  | wake =>
    simp only [beat]
    split <;> rfl
  | clock time =>
    simp only [beat]
    split <;> rfl

end Stage

end SpriteStage
