import SpriteStage.Proofs.Execution
import SpriteStage.Stage.Manual
/-! # Cancelled runs -/
namespace SpriteStage

private theorem lookup_filter_of_keep {β : Type} {l : List (EngineId × β)} {id : EngineId} {x : β}
    {keep : EngineId × β → Bool} (h : l.lookup id = some x) (hkeep : keep (id, x) = true) :
    (l.filter keep).lookup id = some x := by
  obtain ⟨before, after, rfl, hbefore⟩ := List.lookup_eq_some_iff.mp h
  rw [List.filter_append, List.filter_cons_of_pos hkeep, List.lookup_eq_some_iff]
  exact ⟨_, _, rfl, fun p hp => hbefore p (List.mem_filter.mp hp).1⟩

/-- How many loops are around a run that sleeps. -/
def Place.sleepDepth {α : Type} : Place α → Option Nat
  | .asleep _ _ loops _ => some loops.length
  | _ => none

variable {α : Type} [Scalar α]

namespace Engine

def quit (e : Engine) (run : Nat) : Engine :=
  { e with
    phase := .idle
    cancelRequested := true
    outcome := if e.runs = run then some .cancelled else e.outcome }

private theorem settle_running {e : Engine} {w : World α} {a : Actor α} (hphase : e.phase = .running)
    (ha : w.store.get? e.actor = some a) :
    e.settle w .cancelled =
      ({ e with phase := .idle }, { w with store := w.store.replace a.stilled },
        [.event (farewell e.actor), .notice (.settled e.actor .cancelled)]) := by
  simp only [settle, hphase, reduceCtorEq, if_false, Phase.fire?, World.write_of_get? ha]
  rfl

end Engine

namespace Stage

variable {id : EngineId} {e : Engine}

/-! ## The request outlasts what others do -/

private theorem settle_other {s : Stage α} {other : EngineId} (hne : other ≠ id) (outcome : Phase) :
    (s.settle other outcome).1.engine? id = s.engine? id := by
  unfold settle
  split
  · rfl
  · exact (lookup_setEntry _ _ _ _).trans (if_neg hne.symm)

private theorem finish_other {s : Stage α} {t : Task α} (hne : t.engine ≠ id) (outcome : Phase) :
    (s.finish t outcome).1.engine? id = s.engine? id := by
  have hsettle := settle_other (s := s) hne outcome
  unfold finish
  dsimp only
  split
  · exact hsettle
  · split
    · exact ((lookup_setEntry _ _ _ _).trans (if_neg hne.symm)).trans hsettle
    · exact hsettle

private theorem resume_other {s : Stage α} {t : Task α} (hne : t.engine ≠ id) :
    (s.resume t).1.engine? id = s.engine? id := by
  unfold resume
  split
  · rfl
  · dsimp only
    split
    · rfl
    · rfl
    · exact finish_other hne _

private theorem cancelEach_other {ids : List EngineId} {s : Stage α} (hnot : id ∉ ids) :
    (cancelEach ids s).1.engine? id = s.engine? id := by
  induction ids generalizing s with
  | nil => rfl
  | cons other ids ih =>
    simp only [List.mem_cons, not_or] at hnot
    simp only [cancelEach]
    rw [ih hnot.2, settle_other (Ne.symm hnot.1)]

omit [Scalar α] in
theorem mem_stopOrder {s : Stage α} {ids : List EngineId} (h : id ∈ s.stopOrder ids) : id ∈ ids := by
  simp only [stopOrder, List.mem_append, List.mem_filter, List.contains_iff_mem] at h
  rcases h with (⟨-, h⟩ | ⟨h, -⟩) | ⟨h, -⟩
  · exact h
  · exact h
  · exact h

omit [Scalar α] in
theorem retire_keeps {s : Stage α} (h : s.engine? id = some e) (hpending : isOver (id, e) = false) :
    s.retire.engine? id = some e :=
  lookup_filter_of_keep h (by simp [hpending])

/-- An engine outlasts that others are stopped. -/
theorem stop_keeps {s : Stage α} {actors : List Int} (h : s.engine? id = some e)
    (hpending : isOver (id, e) = false) (hnot : ∀ actor ∈ actors, id ≠ .player actor) :
    (s.stop actors).stage.engine? id = some e := by
  unfold stop
  dsimp only
  split
  · exact h
  · have hout : id ∉ (actors.filter s.players.contains).map EngineId.player := by
      intro hmem
      obtain ⟨actor, hactor, heq⟩ := List.mem_map.mp hmem
      exact hnot actor (List.mem_filter.mp hactor).1 heq.symm
    generalize (actors.filter s.players.contains).map EngineId.player = ids at hout
    apply retire_keeps _ hpending
    apply lookup_filter_of_keep _ (by simpa using hout)
    exact (cancelEach_other fun hmem => hout (mem_stopOrder hmem)).trans h

private theorem playActor_keeps {s : Stage α} (actor : Int) (h : s.engine? id = some e)
    (hpending : isOver (id, e) = false) : (s.playActor actor).stage.engine? id = some e := by
  have hretired : (s.retirePlayer actor).engine? id = some e :=
    lookup_filter_of_keep h (by simp [hpending])
  rcases playActor_cases s actor with hnot | ⟨a, w, said, hp, hw⟩
  · rcases (playActor_of_not hnot).1 with hs | hs
    · rw [hs]
      exact h
    · rw [hs]
      exact hretired
  · rw [playActor_of_playable hp hw]
    rw [engine?, List.lookup_append]
    exact Option.or_eq_some_iff.mpr (.inl hretired)

private theorem playEach_keeps {s : Stage α} (actors : List Int) (h : s.engine? id = some e)
    (hpending : isOver (id, e) = false) : (playEach actors s).stage.engine? id = some e := by
  induction actors generalizing s with
  | nil => exact h
  | cons actor actors ih => exact ih (playActor_keeps actor h hpending)

/-- Whether an act leaves an engine alone: it is not the engine's own turn and does not take it out of
play. -/
def spares (id : EngineId) (s : Stage α) : Act α → Bool
  | .beat .turn => s.ready.head?.all (·.engine != id)
  | .stopActor actor => id != .player actor
  | .stopAll | .reset => id.actor?.isNone
  | _ => true

def sparesAll (id : EngineId) : Stage α → List (Act α) → Bool
  | _, [] => true
  | s, a :: acts => s.spares id a && sparesAll id (s.perform a).1 acts

private theorem perform_keeps {s : Stage α} {a : Act α} (h : s.engine? id = some e)
    (hpending : isOver (id, e) = false) (hspared : s.spares id a = true) :
    (s.perform a).1.engine? id = some e := by
  have hall : id.actor?.isNone = true → (s.stop s.players).stage.engine? id = some e := by
    intro hmanual
    apply stop_keeps h hpending
    rintro actor - rfl
    cases hmanual
  cases a with
  | beat b =>
    cases b with
    | retire => exact retire_keeps h hpending
    | clock time =>
      simp only [perform, beat]
      split
      · exact h
      · exact h
    | wake =>
      simp only [perform, beat]
      split
      · exact h
      · exact h
    | turn =>
      simp only [perform, beat]
      cases hready : s.ready with
      | nil => exact h
      | cons t rest =>
        simp only [spares, hready, List.head?_cons, Option.all_some, bne_iff_ne] at hspared
        exact (resume_other hspared).trans h
  | playAll =>
    have hkept := playEach_keeps s.store.ids h hpending
    simp only [perform, Reply.effect, playAll]
    split
    · exact hkept
    · exact hkept
  | playActor actor => exact playActor_keeps actor h hpending
  | stopAll => exact hall hspared
  | reset => exact hall hspared
  | stopActor actor =>
    simp only [spares, bne_iff_ne] at hspared
    simp only [perform, Reply.effect, stopActor]
    split
    · exact h
    · apply stop_keeps h hpending
      intro other hother
      rwa [List.mem_singleton.mp hother]
  | init | addActor _ | deleteActor _ | selectActor _ | submit _ _ _ _ | editInput _ _ _ _
    | reorder _ _ _ | removeBlock _ _ | duplicate _ _ | clearProgram _ =>
    rw [engine?, (perform_sameTasks s rfl).engines]
    exact h

private theorem enact_keeps {s : Stage α} {acts : List (Act α)} (h : s.engine? id = some e)
    (hpending : isOver (id, e) = false) (hspared : s.sparesAll id acts = true) :
    (s.enact acts).1.engine? id = some e := by
  induction acts generalizing s with
  | nil => exact h
  | cons a acts ih =>
    obtain ⟨hfirst, hrest⟩ := Bool.and_eq_true_iff.mp hspared
    exact ih (perform_keeps h hpending hfirst) hrest

/-! ## The end of a cancelled run -/

private theorem finish_cancelled {s : Stage α} {t : Task α} {a : Actor α} (h : s.engine? t.engine = some e)
    (hphase : e.phase = .running) (hasked : e.cancelRequested = true)
    (ha : s.store.get? e.actor = some a) :
    s.finish t .cancelled =
      ({ s with
          world := { s.world with store := s.store.replace a.stilled }
          engines := setEntry s.engines t.engine (e.quit t.run) },
        [.event (Engine.farewell e.actor), .notice (.settled e.actor .cancelled)]) := by
  have hsettle : s.settle t.engine .cancelled =
      ({ s with
          world := { s.world with store := s.store.replace a.stilled }
          engines := setEntry s.engines t.engine { e with phase := .idle } },
        [.event (Engine.farewell e.actor), .notice (.settled e.actor .cancelled)]) := by
    simp only [settle, h, Engine.settle_running hphase ha]
    rfl
  have hfound : (setEntry s.engines t.engine { e with phase := .idle }).lookup t.engine =
      some { e with phase := .idle } := by
    rw [lookup_setEntry, if_pos rfl, show s.engines.lookup t.engine = some e from h]
    rfl
  unfold finish
  rw [hsettle]
  simp only [engine?, hfound]
  unfold Engine.quit
  rw [← hasked]
  split
  · rw [← setEntry_setEntry s.engines t.engine { e with phase := .idle }
      { e with phase := .idle, outcome := some .cancelled }]
    rfl
  · rfl

private theorem resume_cancelled {s : Stage α} {t : Task α} {a : Actor α} (h : s.engine? t.engine = some e)
    (hphase : e.phase = .running) (hasked : e.cancelRequested = true)
    (ha : s.store.get? e.actor = some a) :
    s.resume t =
      ({ s with
          world := { s.world with store := s.store.replace a.stilled }
          engines := setEntry s.engines t.engine (e.quit t.run) },
        [.event (Engine.farewell e.actor), .notice (.settled e.actor .cancelled)]) := by
  have hactivity : e.resume s.world s.now t.place = .stop s.world := by
    rw [Engine.resume_eq, if_pos hasked]
  unfold resume
  simp only [h, hactivity, Activity.stop, List.nil_append]
  exact finish_cancelled h hphase hasked ha

/-- Once a running engine is asked to stop, nothing comes of its run any more but its last words, wherever the
run is suspended and whatever happens on the stage until its task is resumed. The turn in which the task is
resumed tells in one event that the actor neither runs nor is at a step nor has a message, changes only these
fields of this actor, makes no collision pass, and leaves the engine idle with a cancelled run. -/
theorem cancelled_run_ends {s u : Stage α} {acts : List (Act α)} {t : Task α} {rest : List (Task α)}
    {a : Actor α} (engine : s.engine? id = some e) (running : e.phase = .running)
    (pending : isOver (id, e) = false) (spared : (s.cancelEngine id).sparesAll id acts = true)
    (later : ((s.cancelEngine id).enact acts).1 = u) (ready : u.ready = t :: rest)
    (own : t.engine = id) (found : u.store.get? e.actor = some a) :
    u.beat .turn =
      ({ u with
          ready := rest
          world := { u.world with
            store := u.store.replace
              { a with isRunning := .bool false, stepIndex := .null, message := .null } }
          engines := setEntry u.engines id (e.quit t.run) },
        [.event ⟨e.actor, .wrote
            { isRunning := some (.bool false), stepIndex := some .null, message := some .null } none⟩,
          .notice (.settled e.actor .cancelled)]) := by
  have hasked : (s.cancelEngine id).engine? id = some { e with cancelRequested := true } := by
    simp only [cancelEngine, engine]
    rw [engine?, setEngine, ← setEntry, lookup_setEntry, if_pos rfl,
      show s.engines.lookup id = some e from engine]
    rfl
  have hpending : isOver (id, { e with cancelRequested := true }) = false := by
    cases id with
    | player actor => exact pending
    | manual serial => rfl
  have hkept := enact_keeps hasked hpending spared
  rw [later, ← own] at hkept
  have hturn := resume_cancelled (s := { u with ready := rest }) hkept running rfl found
  simp only [beat, ready]
  rw [hturn, own]
  rfl

/-- A stage on which the first actor sleeps, two loops deep. -/
def napping : Stage Float :=
  ((new Settings.standard ⟨[], 0⟩).enact
    [.init, .submit 1 "repeat" [("times", .int 2)] none,
      .submit 1 "repeat" [("times", .int 2)] (some "b1"),
      .submit 1 "wait" [("seconds", .int 1)] (some "b2"), .playAll, .beat .turn]).1

/-- Meanwhile another actor is put into play and goes to sleep for longer, and then the first one wakes. -/
def meanwhile : List (Act Float) :=
  [.addActor { x := .int 400, y := .int 300 }, .submit 2 "wait" [("seconds", .int 5)] none, .playAll,
    .beat .turn, .beat .wake]

theorem napping_run_ends :
    ∃ (u : Stage Float) (e : Engine) (t : Task Float) (rest : List (Task Float)) (a : Actor Float),
      napping.engine? (.player 1) = some e ∧ e.phase = .running ∧
      ((napping.cancelEngine (.player 1)).enact meanwhile).1 = u ∧ u.ready = t :: rest ∧
      t.place.sleepDepth = some 2 ∧
      u.beat .turn =
        ({ u with
            ready := rest
            world := { u.world with
              store := u.store.replace
                { a with isRunning := .bool false, stepIndex := .null, message := .null } }
            engines := setEntry u.engines (.player 1) (e.quit t.run) },
          [.event ⟨e.actor, .wrote
              { isRunning := some (.bool false), stepIndex := some .null, message := some .null } none⟩,
            .notice (.settled e.actor .cancelled)]) := by
  have hengine : (napping.engine? (.player 1)).any
      (fun e => e.phase == .running && e.outcome == none && e.actor == 1) = true := by
    decide +kernel
  have hready : (((napping.cancelEngine (.player 1)).enact meanwhile).1.ready.head?).any
      (fun t => t.engine == .player 1 && t.place.sleepDepth == some 2) = true := by
    decide +kernel
  have hfound : (((napping.cancelEngine (.player 1)).enact meanwhile).1.store.get? 1).isSome := by
    decide +kernel
  have hspared : (napping.cancelEngine (.player 1)).sparesAll (.player 1) meanwhile = true := by
    decide +kernel
  obtain ⟨e, he, hstate⟩ := (Option.any_eq_true _ _).mp hengine
  simp only [Bool.and_eq_true, beq_iff_eq] at hstate
  obtain ⟨⟨hphase, hpending⟩, hactor⟩ := hstate
  generalize hu : ((napping.cancelEngine (.player 1)).enact meanwhile).1 = u at hready hfound
  obtain ⟨a, ha⟩ := Option.isSome_iff_exists.mp hfound
  obtain ⟨t, hhead, ht⟩ := (Option.any_eq_true _ _).mp hready
  obtain ⟨rest, hrest⟩ := List.head?_eq_some_iff.mp hhead
  obtain ⟨hown, hdepth⟩ := Bool.and_eq_true_iff.mp ht
  refine ⟨u, e, t, rest, a, he, hphase, rfl, hrest, beq_iff_eq.mp hdepth, ?_⟩
  exact cancelled_run_ends he hphase (by simp [isOver, hpending]) hspared hu hrest
    (beq_iff_eq.mp hown) (hactor ▸ ha)

end Stage

end SpriteStage
