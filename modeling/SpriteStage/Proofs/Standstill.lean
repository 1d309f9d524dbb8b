import SpriteStage.Proofs.Lifecycle
/-!
# Standstill

After everybody is stopped nothing goes on: there is no engine and no task. Editing adds none, and
without any, turns and time have no effect but on the clock.
-/
namespace SpriteStage.Stage

variable {α : Type} [Scalar α]

/-- Stages with the same engines and tasks at the same time. -/
structure SameTasks (s s' : Stage α) : Prop where
  now : s'.now = s.now
  engines : s'.engines = s.engines
  ready : s'.ready = s.ready
  sleepers : s'.sleepers = s.sleepers

omit [Scalar α] in
theorem SameTasks.refl (s : Stage α) : SameTasks s s := ⟨rfl, rfl, rfl, rfl⟩

/-- Whether an act changes actors or their programs and nothing else. -/
def Act.isEdit : Act α → Bool
  | .playAll | .playActor _ | .stopAll | .stopActor _ | .reset | .beat _ => false
  | _ => true

def Act.isPlay : Act α → Bool
  | .playAll | .playActor _ => true
  | _ => false

private theorem cast_sameTasks (s : Stage α) (c : Casting α) : SameTasks s (s.cast c).stage := by
  unfold cast
  dsimp only
  split
  · exact ⟨rfl, rfl, rfl, rfl⟩
  · exact ⟨rfl, rfl, rfl, rfl⟩

private theorem editProgram_sameTasks {β : Type} (s : Stage α) (actor : Int)
    (f : Program α → Except Error (Program α × β)) : SameTasks s (s.editProgram actor f).stage := by
  unfold editProgram
  split
  · exact .refl s
  · exact ⟨rfl, rfl, rfl, rfl⟩

private theorem init_sameTasks (s : Stage α) : SameTasks s s.init.stage := by
  have hseed : SameTasks s s.seed.stage := by
    unfold seed
    split
    · exact cast_sameTasks s _
    · exact .refl s
  unfold init
  dsimp only
  split
  · exact hseed
  · exact ⟨hseed.now, hseed.engines, hseed.ready, hseed.sleepers⟩

private theorem addActor_sameTasks (s : Stage α) (c : Casting α) : SameTasks s (s.addActor c).stage := by
  have hcast := cast_sameTasks s c
  unfold addActor
  dsimp only
  split
  · exact hcast
  · exact ⟨hcast.now, hcast.engines, hcast.ready, hcast.sleepers⟩

theorem perform_sameTasks (s : Stage α) {a : Act α} (h : a.isEdit) : SameTasks s (s.perform a).1 := by
  cases a with
  | init => exact init_sameTasks s
  | addActor casting => exact addActor_sameTasks s casting
  | deleteActor actor =>
    simp only [perform, Reply.effect, deleteActor]
    split
    · exact .refl s
    · exact ⟨rfl, rfl, rfl, rfl⟩
  | selectActor actor =>
    simp only [perform, Reply.effect, selectActor]
    split
    · exact .refl s
    · exact ⟨rfl, rfl, rfl, rfl⟩
  | submit actor typeId inputs parent =>
    simp only [perform, Reply.effect, submit]
    split
    · exact .refl s
    · obtain ⟨hnow, hengines, hready, hsleepers⟩ :=
        editProgram_sameTasks { s with nextBlock := s.nextBlock + 1 } actor _
      exact ⟨hnow, hengines, hready, hsleepers⟩
  | editInput actor block name value => exact editProgram_sameTasks s actor _
  | reorder actor source target => exact editProgram_sameTasks s actor _
  | removeBlock actor block => exact editProgram_sameTasks s actor _
  | duplicate actor block =>
    simp only [perform, Reply.effect, duplicate]
    split
    · exact .refl s
    · exact ⟨rfl, rfl, rfl, rfl⟩
  | clearProgram actor => exact editProgram_sameTasks s actor _
  | reset | playAll | playActor _ | stopAll | stopActor _ | beat _ => simp [Act.isEdit] at h

structure Still (s : Stage α) : Prop where
  engines : s.engines = []
  ready : s.ready = []
  sleepers : s.sleepers = []

/-- A stage on which nothing is told, whatever turns are given and however far time moves. -/
structure Silent (s : Stage α) : Prop where
  beats : ∀ beats, (s.follow beats).2 = []
  turns : ∀ n, (turns n s).out = []
  drain : ∀ fuel, (s.drain fuel).out = []
  advance : ∀ fuel seconds, (s.advance fuel seconds).out = []
  run : ∀ fuel, (s.run fuel).out = []

namespace Still

variable {s : Stage α}

omit [Scalar α] in
theorem congr {s' : Stage α} (h : s.Still) (hs : SameTasks s s') : s'.Still :=
  ⟨hs.engines.trans h.engines, hs.ready.trans h.ready, hs.sleepers.trans h.sleepers⟩

private theorem beat (h : s.Still) (b : Beat α) : (s.beat b).1.Still ∧ (s.beat b).2 = [] := by
  cases b with
  | retire =>
    refine ⟨⟨?_, h.ready, h.sleepers⟩, rfl⟩
    simp [Stage.beat, retire, h.engines]
  | turn =>
    simp only [Stage.beat, h.ready, and_true]
    exact h
  | wake =>
    simp only [Stage.beat, h.ready, nextWake, h.sleepers, and_true]
    exact h
  | clock time =>
    simp only [Stage.beat, and_true]
    split
    · exact ⟨h.engines, h.ready, h.sleepers⟩
    · exact h

private theorem follow (h : s.Still) (beats : List (Beat α)) :
    (s.follow beats).1.Still ∧ (s.follow beats).2 = [] := by
  induction beats generalizing s with
  | nil => exact ⟨h, rfl⟩
  | cons b beats ih =>
    obtain ⟨hnext, hsilent⟩ := h.beat b
    obtain ⟨hlast, hrest⟩ := ih hnext
    exact ⟨hlast, by simp [Stage.follow, hsilent, hrest]⟩

private theorem elapses (h : s.Still) {out : List (Signal α)} {s' : Stage α} (he : Elapses s out s') :
    out = [] := by
  obtain ⟨beats, -, rfl⟩ := he
  rw [(h.follow beats).2]
  rfl

private theorem silent (h : s.Still) : s.Silent where
  beats beats := (h.follow beats).2
  turns n := h.elapses (turns_elapses n s)
  drain fuel := h.elapses (drain_elapses fuel s)
  advance fuel seconds := h.elapses (advance_elapses fuel s seconds)
  run fuel := h.elapses (run_elapses fuel s)

private theorem stop (h : s.Still) (actors : List Int) : s.stop actors = s.reply () := by
  apply stop_of_none
  simp [players, h.engines]

private theorem perform (h : s.Still) {a : Act α} (ha : a.isPlay = false) : (s.perform a).1.Still := by
  cases a with
  | playAll => simp [Act.isPlay] at ha
  | playActor _ => simp [Act.isPlay] at ha
  | stopAll =>
    simp only [Stage.perform, Reply.effect, stopAll, h.stop]
    exact h
  | stopActor actor =>
    simp only [Stage.perform, Reply.effect, stopActor]
    split
    · exact h
    · simp only [h.stop]
      exact h
  | reset =>
    simp only [Stage.perform, Reply.effect, reset, stopAll, h.stop]
    exact ⟨h.engines, h.ready, h.sleepers⟩
  | beat b => exact (h.beat b).1
  | init | addActor _ | deleteActor _ | selectActor _ | submit _ _ _ _ | editInput _ _ _ _
    | reorder _ _ _ | removeBlock _ _ | duplicate _ _ | clearProgram _ =>
    exact h.congr (perform_sameTasks s rfl)

private theorem enact (h : s.Still) {acts : List (Act α)} (hacts : ∀ a ∈ acts, a.isPlay = false) :
    (s.enact acts).1.Still := by
  induction acts generalizing s with
  | nil => exact h
  | cons a acts ih =>
    exact ih (h.perform (hacts a (by simp))) fun b hb => hacts b (by simp [hb])

end Still

private theorem runs?_iff {s : Stage α} (h : s.store.Ascending) {actor : Int} :
    s.runs? actor = true ↔ actor ∈ s.store.running := by
  simp only [runs?, Store.running, List.mem_map, List.mem_filter]
  constructor
  · intro hruns
    cases ha : s.store.get? actor with
    | none => simp [ha] at hruns
    | some a =>
      rw [ha] at hruns
      exact ⟨a, ⟨Store.mem_of_get? ha, hruns⟩, Store.get?_id ha⟩
  · rintro ⟨a, ⟨ha, hruns⟩, rfl⟩
    rw [Store.get?_of_mem h ha]
    exact hruns

private theorem Orderly.running_nodup {s : Stage α} (h : s.Orderly) : s.store.running.Nodup := by
  have hids : s.store.ids.Nodup := h.ascending.sorted.imp fun hlt heq => by omega
  exact (List.filter_sublist.map _).nodup hids

/-- Those who run are the players whose records say so. -/
theorem Orderly.running_perm {s : Stage α} (h : s.Orderly) :
    (s.players.filter s.runs?).Perm s.store.running := by
  rw [List.perm_ext_iff_of_nodup (h.players_nodup.filter _) h.running_nodup]
  intro actor
  rw [List.mem_filter, runs?_iff h.ascending, and_iff_right_iff_imp]
  intro hmem
  cases h.standing actor with
  | idle status _ _ =>
    rw [← runs?_iff h.ascending, runs?_of_idle status] at hmem
    cases hmem
  | busy status _ _ _ _ => exact h.mem_players status

/-- Stopping everybody empties the lists of engines and tasks and makes every actor idle, leaves all else
as it was, and tells this in one event for each actor that ran. From then on nothing is told by turns and
by time as long as nobody is put into play, and stopping again does nothing. -/
theorem stopAll_freezes {s : Stage α} (h : Reachable s) :
    s.stopAll.stage =
        { s with world := s.world.stilled, engines := [], ready := [], sleepers := [] } ∧
      (Signal.events s.stopAll.out).Perm (s.store.running.map Engine.farewell) ∧
      s.store.running.Nodup ∧
      ∀ acts : List (Act α), (∀ a ∈ acts, a.isPlay = false) →
        (s.stopAll.stage.enact acts).1.Silent ∧
          (s.stopAll.stage.enact acts).1.stopAll = (s.stopAll.stage.enact acts).1.reply () := by
  obtain ⟨hstage, hsaid⟩ := stopAll_spec h.orderly
  have hstill : s.stopAll.stage.Still := by
    rw [hstage]
    exact ⟨rfl, rfl, rfl⟩
  refine ⟨hstage, hsaid.trans (h.orderly.running_perm.map _), h.orderly.running_nodup, ?_⟩
  intro acts hacts
  have hlast := hstill.enact hacts
  exact ⟨hlast.silent, hlast.stop _⟩

theorem waiting_stopAll :
    Signal.events waiting.stopAll.out = [Engine.farewell 1] ∧
      waiting.stopAll.stage.store.running = [] ∧
      waiting.stopAll.stage.stopAll = waiting.stopAll.stage.reply () := by
  obtain ⟨-, hsaid, -, hrest⟩ := stopAll_freezes waiting_reachable
  have hrunning : waiting.store.running = [1] := by decide +kernel
  rw [hrunning] at hsaid
  exact ⟨List.perm_singleton.mp hsaid, by decide +kernel,
    (hrest [] (by simp)).2⟩

end SpriteStage.Stage
