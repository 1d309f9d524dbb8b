import SpriteStage.Stage.Editing
/-!
# The course of events

Everything that can happen on a stage, in the smallest steps. Giving turns, draining, advancing
and running are nothing but beats, so what holds after every beat holds after each of them.
-/
namespace SpriteStage

def Reply.effect {α β : Type} (r : Reply α β) : Stage α × List (Signal α) :=
  (r.stage, r.out)

namespace Stage

variable {α : Type} [Scalar α]

/-- What goes on on a stage between two operations. -/
inductive Beat (α : Type) where
  | retire
  | turn
  | wake
  | clock (time : α)

/-- Lets a beat happen; nothing happens where it cannot. Sleepers wake only when no task is ready, and
the clock moves only past times at which nothing happens. -/
def beat (s : Stage α) : Beat α → Stage α × List (Signal α)
  | .retire => (s.retire, [])
  | .turn =>
    match s.ready with
    | [] => (s, [])
    | t :: rest => { s with ready := rest }.resume t
  | .wake =>
    match s.ready, s.nextWake with
    | [], some time => (s.wakeAt time, [])
    | _, _ => (s, [])
  | .clock time => (if (s.tick? (.upTo time)).isNone then { s with now := time } else s, [])

/-- Lets beats happen one after the other. Each signal comes with the time at which it was given. -/
def follow (s : Stage α) : List (Beat α) → Stage α × List (α × Signal α)
  | [] => (s, [])
  | b :: rest =>
    let (t, out) := s.beat b
    let (u, more) := follow t rest
    (u, out.map (s.now, ·) ++ more)

private theorem follow_append (bs cs : List (Beat α)) (s : Stage α) :
    s.follow (bs ++ cs) =
      (((s.follow bs).1.follow cs).1, (s.follow bs).2 ++ ((s.follow bs).1.follow cs).2) := by
  induction bs generalizing s with
  | nil => rfl
  | cons b bs ih => simp [follow, ih]

/-- Some beats lead from a stage to another and give the signals. -/
def Elapses (s : Stage α) (out : List (Signal α)) (s' : Stage α) : Prop :=
  ∃ beats, (s.follow beats).1 = s' ∧ (s.follow beats).2.map (·.2) = out

namespace Elapses

private theorem refl (s : Stage α) : Elapses s [] s := ⟨[], rfl, rfl⟩

private theorem trans {s s₁ s₂ : Stage α} {out more : List (Signal α)} (h : Elapses s out s₁)
    (h' : Elapses s₁ more s₂) : Elapses s (out ++ more) s₂ := by
  obtain ⟨bs, rfl, rfl⟩ := h
  obtain ⟨cs, rfl, rfl⟩ := h'
  exact ⟨bs ++ cs, by rw [follow_append], by rw [follow_append, List.map_append]⟩

private theorem ofBeat (s : Stage α) (b : Beat α) : Elapses s (s.beat b).2 (s.beat b).1 :=
  ⟨[b], rfl, by simp [follow, Function.comp_def]⟩

end Elapses

private theorem tick?_elapses {h : Horizon α} {s s' : Stage α} {out : List (Signal α)}
    (ht : s.tick? h = some (s', out)) : Elapses s out s' := by
  suffices hrest : Elapses s.retire out s' from (Elapses.ofBeat s .retire).trans hrest
  unfold tick? at ht
  dsimp only at ht
  split at ht
  · rename_i t rest hready
    have hturn := Elapses.ofBeat s.retire .turn
    simp only [beat, hready] at hturn
    rw [Option.some.inj ht] at hturn
    exact hturn
  · rename_i hready
    split at ht
    · cases ht
    · rename_i time hnext
      split at ht
      · have hwake := Elapses.ofBeat s.retire .wake
        simp only [beat, hready, hnext] at hwake
        rw [← (Prod.mk.inj (Option.some.inj ht)).1, ← (Prod.mk.inj (Option.some.inj ht)).2]
        exact hwake
      · cases ht

private theorem runUntil_elapses (stop : Stage α → Bool) (h : Horizon α) (fuel : Nat) (s : Stage α)
    (out : Array (Signal α)) :
    ∃ more, (runUntil stop h fuel s out).2.toList = out.toList ++ more ∧
      Elapses s more (runUntil stop h fuel s out).1 := by
  induction fuel generalizing s out with
  | zero => exact ⟨[], by simp [runUntil], .refl s⟩
  | succ fuel ih =>
    unfold runUntil
    split
    · exact ⟨[], by simp, .refl s⟩
    · split
      · exact ⟨[], by simp, .refl s⟩
      · rename_i s' said ht
        obtain ⟨more, hout, hrest⟩ := ih s' (out ++ said.toArray)
        exact ⟨said ++ more, by simp [hout], (tick?_elapses ht).trans hrest⟩

private theorem runWithin_elapses (h : Horizon α) (fuel : Nat) (s : Stage α) :
    Elapses s (s.runWithin h fuel).2 (s.runWithin h fuel).1 := by
  obtain ⟨more, hout, hrun⟩ := runUntil_elapses (fun _ => false) h fuel s #[]
  have hretire := Elapses.ofBeat (runUntil (fun _ => false) h fuel s #[]).1 .retire
  have hwhole := hrun.trans hretire
  simp only [beat, List.append_nil] at hwhole
  simp only [List.nil_append] at hout
  rw [← hout] at hwhole
  exact hwhole

theorem drain_elapses (fuel : Nat) (s : Stage α) :
    Elapses s (s.drain fuel).out (s.drain fuel).stage :=
  runWithin_elapses .present fuel s

theorem run_elapses (fuel : Nat) (s : Stage α) :
    Elapses s (s.run fuel).out (s.run fuel).stage :=
  runWithin_elapses .unbounded fuel s

theorem advance_elapses (fuel : Nat) (s : Stage α) (seconds : α) :
    Elapses s (s.advance fuel seconds).out (s.advance fuel seconds).stage := by
  have hrun := runWithin_elapses (.upTo (s.now + seconds)) fuel s
  have hclock := Elapses.ofBeat (s.runWithin (.upTo (s.now + seconds)) fuel).1
    (.clock (s.now + seconds))
  have hwhole := hrun.trans hclock
  simp only [beat, List.append_nil] at hwhole
  exact hwhole

theorem awaitIdle_elapses (fuel : Nat) (s : Stage α) :
    Elapses s (s.awaitIdle fuel).out (s.awaitIdle fuel).stage := by
  obtain ⟨more, hout, hrun⟩ :=
    runUntil_elapses (fun s => s.retire.players.isEmpty) .unbounded fuel s #[]
  have hretire := Elapses.ofBeat
    (runUntil (fun s => s.retire.players.isEmpty) .unbounded fuel s #[]).1 .retire
  have hwhole := hrun.trans hretire
  simp only [beat, List.append_nil] at hwhole
  simp only [List.nil_append] at hout
  rw [← hout] at hwhole
  exact hwhole

private theorem ready_finish (s : Stage α) (t : Task α) (outcome : Phase) :
    (s.finish t outcome).1.ready = s.ready := by
  have hsettle : (s.settle t.engine outcome).1.ready = s.ready := by
    unfold settle
    split <;> rfl
  unfold finish
  dsimp only
  split
  · exact hsettle
  · split
    · exact hsettle
    · exact hsettle

/-- A turn only adds tasks behind those that wait. -/
theorem ready_resume (s : Stage α) (t : Task α) :
    ∃ more, (s.resume t).1.ready = s.ready ++ more := by
  unfold resume
  split
  · exact ⟨[], by simp⟩
  · dsimp only
    split
    · exact ⟨[], by simp⟩
    · exact ⟨_, rfl⟩
    · exact ⟨[], by simp [ready_finish]⟩

private theorem turnEach_elapses (ts : List (Task α)) (s : Stage α) (h : ts <+: s.ready) :
    Elapses s (turnEach ts s).2 (turnEach ts s).1 := by
  induction ts generalizing s with
  | nil => exact .refl s
  | cons t ts ih =>
    obtain ⟨behind, hready⟩ := h
    have hturn := Elapses.ofBeat s .turn
    have hdrop : s.ready.drop 1 = ts ++ behind := by simp [← hready]
    have hbeat : s.beat .turn = { s with ready := ts ++ behind }.resume t := by
      simp [beat, ← hready]
    obtain ⟨more, hmore⟩ := ready_resume { s with ready := ts ++ behind } t
    rw [hbeat] at hturn
    simp only [turnEach, hdrop]
    apply hturn.trans
    apply ih
    rw [hmore]
    exact ⟨behind ++ more, by simp⟩

theorem turns_elapses (n : Nat) (s : Stage α) : Elapses s (turns n s).out (turns n s).stage := by
  induction n generalizing s with
  | zero => exact .refl s
  | succ n ih =>
    have hretire := Elapses.ofBeat s .retire
    have hround := turnEach_elapses s.ready s.retire (List.prefix_refl _)
    exact (hretire.trans hround).trans (ih _)

/-- Everything that can be done to a stage, or happen on it. -/
inductive Act (α : Type) where
  | init
  | reset
  | addActor (casting : Casting α)
  | deleteActor (actor : Int)
  | selectActor (actor : Int)
  | submit (actor : Int) (typeId : String) (inputs : Fields α) (parent : Option String)
  | editInput (actor : Int) (block name : String) (value : Value α)
  | reorder (actor source target : Int)
  | removeBlock (actor : Int) (block : String)
  | duplicate (actor : Int) (block : String)
  | clearProgram (actor : Int)
  | playAll
  | playActor (actor : Int)
  | stopAll
  | stopActor (actor : Int)
  | beat (b : Beat α)

def perform (s : Stage α) : Act α → Stage α × List (Signal α)
  | .init => s.init.effect
  | .reset => s.reset.effect
  | .addActor casting => (s.addActor casting).effect
  | .deleteActor actor => (s.deleteActor actor).effect
  | .selectActor actor => (s.selectActor actor).effect
  | .submit actor typeId inputs parent => (s.submit actor typeId inputs parent).effect
  | .editInput actor block name value => (s.editInput actor block name value).effect
  | .reorder actor source target => (s.reorder actor source target).effect
  | .removeBlock actor block => (s.removeBlock actor block).effect
  | .duplicate actor block => (s.duplicate actor block).effect
  | .clearProgram actor => (s.clearProgram actor).effect
  | .playAll => s.playAll.effect
  | .playActor actor => (s.playActor actor).effect
  | .stopAll => s.stopAll.effect
  | .stopActor actor => (s.stopActor actor).effect
  | .beat b => s.beat b

def enact (s : Stage α) : List (Act α) → Stage α × List (Signal α)
  | [] => (s, [])
  | a :: rest =>
    let (t, out) := s.perform a
    let (u, more) := t.enact rest
    (u, out ++ more)

/-- A stage without actors, on which nothing goes on. Its settings, its catalog and its clock may be
any. -/
structure IsEmpty (s : Stage α) : Prop where
  store : s.store = Store.empty
  touching : s.world.touching = []
  selected : s.selected = none
  engines : s.engines = []
  ready : s.ready = []
  sleepers : s.sleepers = []

theorem new_isEmpty (settings : Settings α) (draws : Draws α) : (new settings draws).IsEmpty :=
  ⟨rfl, rfl, rfl, rfl, rfl, rfl⟩

/-- The stages that acts lead to from an empty one. -/
inductive Reachable : Stage α → Prop where
  | empty {s : Stage α} (h : s.IsEmpty) : Reachable s
  | act {s : Stage α} (h : Reachable s) (a : Act α) : Reachable (s.perform a).1

namespace Reachable

theorem enact {s : Stage α} (h : Reachable s) (acts : List (Act α)) : Reachable (s.enact acts).1 := by
  induction acts generalizing s with
  | nil => exact h
  | cons a acts ih => exact ih (h.act a)

theorem follow {s : Stage α} (h : Reachable s) (beats : List (Beat α)) :
    Reachable (s.follow beats).1 := by
  induction beats generalizing s with
  | nil => exact h
  | cons b beats ih => exact ih (h.act (.beat b))

end Reachable

end Stage

end SpriteStage
