import SpriteStage.Proofs.Clock
import SpriteStage.Proofs.Heritage
import SpriteStage.Proofs.Standstill
import SpriteStage.Proofs.Unrolling
/-!
# Runs on a stage

A run begins when its actor is put into play and goes on while acts happen on the stage. Its task
moves only when it takes a turn itself; every other act leaves the task where it is, or ends the
run.
-/
namespace SpriteStage

variable {α : Type} [Scalar α]

private theorem Place.marks_resume {actor other : Int} (hne : other ≠ actor) (now : α) (w : World α)
    (place : Place α) : marks actor (place.resume now other w).out = [] := by
  cases place with
  | fresh => exact marks_other hne (Moment.step_own ⟨now, other, 0⟩ w).signals
  | asleep pause rest loops index =>
    exact marks_other hne (resume_asleep_own now other w pause rest loops index).signals
  | turn loops index =>
    have hpass : marks actor (.pass other :: (w.collide (w.passRoom loops.length)).2.1) = [] := by
      rw [World.marks_collide, if_neg hne]
    have hown := afterPass_own now other loops index (w.collide (w.passRoom loops.length))
    rw [resume_turn]
    simp only [Activity.after, marks_append, hpass, List.nil_append]
    exact marks_other hne hown.signals

namespace Stage

/-! ## What acts tell -/

private theorem settle_plain (s : Stage α) (id : EngineId) (outcome : Phase) :
    ∀ x ∈ (s.settle id outcome).2, x.Plain := by
  unfold settle
  split
  · simp
  · rename_i e _
    simp only [Engine.settle]
    split
    · simp
    · split
      · simp [Signal.Plain]
      · rename_i written
        obtain ⟨-, -, -, rfl⟩ := World.write_eq_ok.mp written
        simp [Signal.Plain]

theorem finish_plain (s : Stage α) (t : Task α) (outcome : Phase) :
    ∀ x ∈ (s.finish t outcome).2, x.Plain := by
  have hsettle := settle_plain s t.engine outcome
  unfold finish
  dsimp only
  split
  · exact hsettle
  · split
    · exact hsettle
    · exact hsettle

private theorem marks_resume {actor other : Int} (hne : other ≠ actor) {s : Stage α} {t : Task α} {e : Engine}
    (hengine : s.engine? t.engine = some e) (hactor : e.actor = other) :
    marks actor (s.resume t).2 = [] := by
  have hactivity : marks actor (e.resume s.world s.now t.place).out = [] := by
    rw [Engine.resume_eq]
    split
    · rfl
    · rw [hactor]
      exact Place.marks_resume hne s.now s.world t.place
  unfold resume
  simp only [hengine]
  split
  · exact hactivity
  · exact hactivity
  · simp only [marks_append, hactivity, List.nil_append]
    exact marks_plain (finish_plain _ t _)

private theorem cancelEach_plain (ids : List EngineId) (s : Stage α) :
    ∀ x ∈ (cancelEach ids s).2, x.Plain := by
  induction ids generalizing s with
  | nil => simp [cancelEach]
  | cons id ids ih =>
    intro x hx
    rcases List.mem_append.mp hx with hx | hx
    · exact settle_plain s id _ x hx
    · exact ih _ x hx

private theorem stop_plain (s : Stage α) (actors : List Int) : ∀ x ∈ (s.stop actors).out, x.Plain := by
  unfold stop
  dsimp only
  split
  · simp [reply]
  · intro x hx
    rcases List.mem_append.mp hx with hx | hx
    · exact cancelEach_plain _ _ x hx
    · rw [List.mem_singleton.mp hx]
      trivial

theorem playActor_plain (s : Stage α) (actor : Int) : ∀ x ∈ (s.playActor actor).out, x.Plain := by
  rcases playActor_cases s actor with hnot | ⟨a, w, said, hp, hw⟩
  · simp [(playActor_of_not hnot).2.1]
  · rw [playActor_of_playable hp hw]
    obtain ⟨-, -, -, rfl⟩ := World.write_eq_ok.mp hw
    simp [Signal.Plain]

theorem playEach_plain (actors : List Int) (s : Stage α) : ∀ x ∈ (playEach actors s).out, x.Plain := by
  induction actors generalizing s with
  | nil => simp [playEach, reply]
  | cons actor actors ih =>
    intro x hx
    rcases List.mem_append.mp hx with hx | hx
    · exact playActor_plain s actor x hx
    · exact ih _ x hx

private theorem playAll_plain (s : Stage α) : ∀ x ∈ s.playAll.out, x.Plain := by
  unfold playAll
  dsimp only
  split
  · exact playEach_plain _ s
  · intro x hx
    rcases List.mem_append.mp hx with hx | hx
    · exact playEach_plain _ s x hx
    · rw [List.mem_singleton.mp hx]
      trivial

private theorem cast_plain (s : Stage α) (c : Casting α) : ∀ x ∈ (s.cast c).out, x.Plain := by
  unfold cast
  dsimp only
  split
  · simp [refuse]
  · simp [Store.castSignals, Signal.Plain]

private theorem editProgram_plain {β : Type} (s : Stage α) (actor : Int)
    (f : Program α → Except Error (Program α × β)) : ∀ x ∈ (s.editProgram actor f).out, x.Plain := by
  unfold editProgram
  split
  · simp [refuse]
  · exact Store.publish_plain _ _ _

theorem perform_plain (s : Stage α) {a : Act α} (h : a ≠ .beat .turn) :
    ∀ x ∈ (s.perform a).2, x.Plain := by
  cases a with
  | init =>
    have hseed : ∀ x ∈ s.seed.out, x.Plain := by
      unfold seed
      split
      · exact cast_plain s _
      · simp [reply]
    simp only [perform, Reply.effect, init]
    split
    · exact hseed
    · exact hseed
  | reset => exact stop_plain s _
  | addActor casting =>
    simp only [perform, Reply.effect, addActor]
    split
    · exact cast_plain s casting
    · exact cast_plain s casting
  | deleteActor actor =>
    simp only [perform, Reply.effect, deleteActor]
    split
    · simp [refuse]
    · simp [Signal.Plain]
  | selectActor actor =>
    simp only [perform, Reply.effect, selectActor]
    split
    · simp [refuse]
    · simp [reply]
  | submit actor typeId inputs parent =>
    simp only [perform, Reply.effect, submit]
    split
    · simp [refuse]
    · exact editProgram_plain _ _ _
  | editInput actor block name value => exact editProgram_plain _ _ _
  | reorder actor source target => exact editProgram_plain _ _ _
  | removeBlock actor block => exact editProgram_plain _ _ _
  | duplicate actor block =>
    simp only [perform, Reply.effect, duplicate]
    split
    · simp [refuse]
    · exact Store.publish_plain _ _ _
  | clearProgram actor => exact editProgram_plain _ _ _
  | playAll => exact playAll_plain s
  | playActor actor => exact playActor_plain s actor
  | stopAll => exact stop_plain s _
  | stopActor actor =>
    simp only [perform, Reply.effect, stopActor]
    split
    · simp [refuse]
    · exact stop_plain s _
  | beat b =>
    cases b with
    | turn => exact absurd rfl h
    | retire => simp [perform, beat]
    | wake =>
      simp only [perform, beat]
      split <;> simp
    | clock time => simp [perform, beat]

/-! ## Tasks under acts -/

theorem mem_live_resume {s : Stage α} {x : Task α} (t : Task α) (hx : x ∈ s.live) :
    x ∈ (s.resume t).1.live := by
  obtain ⟨more, hready⟩ := ready_resume s t
  rcases List.mem_append.mp hx with hx | hx
  · apply List.mem_append_left
    rw [hready]
    exact List.mem_append_left _ hx
  · apply List.mem_append_right
    rcases (resume_sleepers s t).2 with hsame | ⟨seconds, place, hmore⟩
    · rw [hsame]
      exact hx
    · rw [hmore, List.map_append]
      exact List.mem_append_left _ hx

theorem mem_live_playActor {s : Stage α} {x : Task α} (actor : Int) (hx : x ∈ s.live) :
    x ∈ (s.playActor actor).stage.live := by
  rcases playActor_cases s actor with hnot | ⟨a, w, said, hp, hw⟩
  · rcases (playActor_of_not hnot).1 with hstage | hstage
    · rw [hstage]
      exact hx
    · rw [hstage]
      exact hx
  · rw [playActor_of_playable hp hw]
    rcases List.mem_append.mp hx with hx | hx
    · exact List.mem_append_left _ (List.mem_append_left _ hx)
    · exact List.mem_append_right _ hx

theorem mem_live_playEach {s : Stage α} {x : Task α} (actors : List Int) (hx : x ∈ s.live) :
    x ∈ (playEach actors s).stage.live := by
  induction actors generalizing s with
  | nil => exact hx
  | cons actor actors ih => exact ih (mem_live_playActor actor hx)

/-- Stopping some actors ends the run of an actor altogether or leaves it alone. -/
theorem live_stop {s : Stage α} (h : s.Orderly) {actors : List Int} (hnodup : actors.Nodup)
    {actor : Int} {t : Task α} (ht : t ∈ s.live) (hown : t.engine = .player actor) :
    t ∈ (s.stop actors).stage.live ∨
      (∀ x ∈ (s.stop actors).stage.live, x.engine ≠ .player actor) ∧
        (s.stop actors).stage.engines.lookup (.player actor) = none := by
  by_cases hsome : actors.filter s.players.contains = []
  · rw [stop_of_none hsome]
    exact .inl ht
  · obtain ⟨w, out, hstop, -, -⟩ := stop_spec h hnodup hsome
    rw [hstop]
    generalize actors.filter s.players.contains = chosen
    have hlive : (s.discard (chosen.map .player)).live =
        s.live.filter fun t => !(chosen.map .player).contains t.engine := by
      simp only [live, discard, List.filter_append, List.filter_map]
      rfl
    by_cases hactor : actor ∈ chosen
    · refine .inr ⟨?_, ?_⟩
      · intro x hx
        change x ∈ (s.discard (chosen.map .player)).live at hx
        rw [hlive] at hx
        rintro hxown
        have hkept := (List.mem_filter.mp hx).2
        simp [hxown, hactor] at hkept
      · rw [lookup_eq_none]
        intro hmem
        have hkept := (List.filter_sublist.map _).subset hmem
        obtain ⟨entry, hentry, heq⟩ := List.mem_map.mp hkept
        have hout := (List.mem_filter.mp hentry).2
        simp [heq, hactor] at hout
    · refine .inl ?_
      change t ∈ (s.discard (chosen.map .player)).live
      rw [hlive]
      exact List.mem_filter.mpr ⟨ht, by simp [hown, hactor]⟩

omit [Scalar α] in
theorem live_sameTasks {s s' : Stage α} (h : SameTasks s s') : s'.live = s.live := by
  simp only [live, h.ready, h.sleepers]

def Act.isStop : Act α → Bool
  | .stopAll | .stopActor _ | .reset => true
  | _ => false

/-- Neither an edit nor time nor putting actors into play touches a task that is there. -/
theorem mem_live_perform {s : Stage α} {a : Act α} (hturn : a ≠ .beat .turn) (hstop : a.isStop = false)
    {t : Task α} (ht : t ∈ s.live) : t ∈ (s.perform a).1.live := by
  cases a with
  | beat b =>
    cases b with
    | turn => exact absurd rfl hturn
    | retire => exact ht
    | clock time =>
      simp only [perform, beat]
      split
      · exact ht
      · exact ht
    | wake =>
      simp only [perform, beat]
      split
      · rename_i time hready hnext
        have hperm := (List.filter_append_perm (fun x => Scalar.eq x.wake time) s.sleepers).map
          (·.task)
        simp only [live, hready, List.nil_append] at ht
        simp only [live, wakeAt, hready, List.nil_append, ← List.map_append]
        exact hperm.mem_iff.mpr ht
      · exact ht
  | playAll =>
    have hmem := mem_live_playEach s.store.ids ht
    simp only [perform, Reply.effect, playAll]
    split
    · exact hmem
    · exact hmem
  | playActor other => exact mem_live_playActor other ht
  | stopAll | stopActor _ | reset => simp [Act.isStop] at hstop
  | init | addActor _ | deleteActor _ | selectActor _ | submit _ _ _ _ | editInput _ _ _ _
    | reorder _ _ _ | removeBlock _ _ | duplicate _ _ | clearProgram _ =>
    rw [live_sameTasks (perform_sameTasks s rfl)]
    exact ht

omit [Scalar α] in
theorem Orderly.other_turn {s : Stage α} (h : s.Orderly) {t first : Task α} (ht : t ∈ s.live) {actor : Int}
    (hown : t.engine = .player actor) {rest : List (Task α)} (hready : s.ready = first :: rest)
    (hfirst : first ≠ t) :
    ∃ other, other ≠ actor ∧ first.engine = .player other ∧
      t ∈ ({ s with ready := rest } : Stage α).live := by
  have hlive : s.live = first :: ({ s with ready := rest } : Stage α).live := by
    simp [live, hready]
  have hfirstLive : first ∈ s.live := by simp [hlive]
  obtain ⟨⟨other, hother⟩, -⟩ := h.tasks first hfirstLive
  refine ⟨other, ?_, hother, ?_⟩
  · rintro rfl
    exact hfirst (List.inj_on_of_nodup_map h.single hfirstLive ht (hother.trans hown.symm))
  · rw [hlive] at ht
    rcases List.mem_cons.mp ht with heq | hmem
    · exact absurd heq.symm hfirst
    · exact hmem

/-- What an act does to the run of an actor: nothing, unless it is the actor's own turn or the run is
stopped. -/
theorem perform_task {s : Stage α} (h : s.Orderly) {actor : Int} {t : Task α} (ht : t ∈ s.live)
    (hown : t.engine = .player actor) (a : Act α) :
    (t ∈ (s.perform a).1.live ∧ marks actor (s.perform a).2 = []) ∨
    (a = .beat .turn ∧ ∃ rest, s.ready = t :: rest) ∨
    ((∀ x ∈ (s.perform a).1.live, x.engine ≠ .player actor) ∧
      (s.perform a).1.engines.lookup (.player actor) = none ∧ marks actor (s.perform a).2 = []) := by
  have hplain : a ≠ .beat .turn → marks actor (s.perform a).2 = [] :=
    fun hne => marks_plain (perform_plain s hne)
  have hstop : ∀ actors : List Int, actors.Nodup → ∀ out : List (Signal α), marks actor out = [] →
      (t ∈ (s.stop actors).stage.live ∧ marks actor out = []) ∨
      ((∀ x ∈ (s.stop actors).stage.live, x.engine ≠ .player actor) ∧
        (s.stop actors).stage.engines.lookup (.player actor) = none ∧ marks actor out = []) := by
    intro actors hnodup out hout
    rcases live_stop h hnodup ht hown with hmem | ⟨hgone, hnone⟩
    · exact .inl ⟨hmem, hout⟩
    · exact .inr ⟨hgone, hnone, hout⟩
  by_cases hturn : a = .beat .turn
  · subst hturn
    cases hready : s.ready with
    | nil =>
      refine .inl ?_
      simp only [perform, beat, hready]
      exact ⟨ht, rfl⟩
    | cons first rest =>
      by_cases hfirst : first = t
      · subst hfirst
        exact .inr (.inl ⟨rfl, rest, rfl⟩)
      · obtain ⟨other, hne, hother, hmem⟩ := h.other_turn ht hown hready hfirst
        obtain ⟨_, _, -, hengine, -⟩ := h.busy_of_task (by simp [live, hready] : first ∈ s.live) hother
        refine .inl ?_
        simp only [perform, beat, hready]
        refine ⟨mem_live_resume first hmem, ?_⟩
        apply marks_resume hne (e := .underWay other) _ rfl
        rw [hother]
        exact hengine
  · cases hkind : a.isStop with
    | false => exact .inl ⟨mem_live_perform hturn hkind ht, hplain hturn⟩
    | true =>
      cases a with
      | stopAll => exact (hstop s.players h.players_nodup _ (hplain hturn)).imp_right .inr
      | stopActor other =>
        simp only [perform, Reply.effect, stopActor]
        split
        · exact .inl ⟨ht, rfl⟩
        · exact (hstop [other] (List.nodup_singleton other) _ (marks_plain (stop_plain s _))).imp_right .inr
      | reset => exact (hstop s.players h.players_nodup _ (hplain hturn)).imp_right .inr
      | _ => simp [Act.isStop] at hkind

/-! ## Runs -/

/-- A run of an actor during which it holds one program: the stage that acts have led to since the actor was
put into play, and all that was told. The run goes on as long as the actor runs. -/
inductive Run (actor : Int) (p : Program α) : Stage α → List (Signal α) → Prop where
  | start {s : Stage α} (reachable : Reachable s) (fresh : ⟨.player actor, 1, .fresh⟩ ∈ s.live)
      (program : ∀ a, s.store.get? actor = some a → a.program = p) : Run actor p s []
  | act {s : Stage α} {out : List (Signal α)} (run : Run actor p s out) (a : Act α)
      (goesOn : s.runs? actor = true)
      (program : ∀ x, (s.perform a).1.store.get? actor = some x → x.program = p) :
      Run actor p (s.perform a).1 (out ++ (s.perform a).2)

private theorem Run.holds {actor : Int} {p : Program α} {s : Stage α} {out : List (Signal α)}
    (run : Run actor p s out) : ∀ a, s.store.get? actor = some a → a.program = p := by
  cases run with
  | start _ _ program => exact program
  | act _ _ _ program => exact program

/-- Whether the last run of an actor has gone through its whole program. -/
def Completed (s : Stage α) (actor : Int) : Prop :=
  (s.engine? (.player actor)).bind (·.outcome) = some .completed

/-- How far a run has come: it is suspended somewhere, with the rest of the itinerary ahead, or it has
ended, and if it is complete then nothing is ahead. -/
inductive Progress (actor : Int) (p : Program α) (s : Stage α) (left : List (Mark α)) : Prop where
  | suspended {t : Task α} (live : t ∈ s.live) (own : t.engine = .player actor)
      (ahead : left ++ t.place.ahead s.world.catalog p = Program.itinerary s.world.catalog p)
  | ended (gone : ∀ x ∈ s.live, x.engine ≠ .player actor)
      (beginning : left <+: Program.itinerary s.world.catalog p)
      (whole : s.Completed actor → left = Program.itinerary s.world.catalog p)

private theorem resume_progress {s : Stage α} {actor : Int} {p : Program α} {t : Task α}
    {left : List (Mark α)} (h : Roster s.world s.engines (t :: s.live)) (hown : t.engine = .player actor)
    (hp : ∀ a, (s.resume t).1.store.get? actor = some a → a.program = p)
    (hahead : left ++ t.place.ahead s.world.catalog p = Program.itinerary s.world.catalog p) :
    Progress actor p (s.resume t).1 (left ++ marks actor (s.resume t).2) := by
  have hcatalog := (resume_plays s t).frame.catalog
  obtain ⟨_, _, -, hengine, -⟩ := h.busy_of_task (by simp) hown
  have hkeeps := Place.resume_keeps s.now actor (p := p) t.place (rfl : s.world.catalog = _)
  unfold Activity.Keeps at hkeeps
  rcases resume_cases h hown rfl with
    ⟨seconds, place, hhalt, hs⟩ | ⟨place, hhalt, hs⟩ | ⟨outcome, w, said, hhalt, hwrite, hs⟩
  · rw [hhalt] at hkeeps
    rw [hs] at hp hcatalog ⊢
    refine .suspended (t := { t with place }) (by simp [live]) hown ?_
    rw [hcatalog, List.append_assoc]
    exact (congrArg (left ++ ·) (hkeeps hp)).trans hahead
  · rw [hhalt] at hkeeps
    rw [hs] at hp hcatalog ⊢
    refine .suspended (t := { t with place }) (by simp [live]) hown ?_
    rw [hcatalog, List.append_assoc]
    exact (congrArg (left ++ ·) (hkeeps hp)).trans hahead
  · rw [hhalt] at hkeeps
    rw [hs] at hp hcatalog ⊢
    have hmeets := hkeeps ((Personal.ofWrite rfl hwrite).program_before hp)
    have hsaid : marks actor (said ++ [.notice (.settled actor outcome)]) = [] := by
      obtain ⟨-, -, -, rfl⟩ := World.write_eq_ok.mp hwrite
      exact marks_plain (by simp [Signal.Plain])
    rw [marks_append, hsaid, List.append_nil]
    refine .ended (h.elsewhere hown) ?_ ?_
    · rw [hcatalog, ← hahead, List.prefix_append_right_inj]
      exact hmeets.beginning
    · intro hcompleted
      simp only [Completed, engine?, lookup_setEntry, if_pos, hengine, Option.map_some,
        Option.bind_some] at hcompleted
      cases hcompleted
      rw [hcatalog, ← hahead]
      exact congrArg (left ++ ·) hmeets

private theorem Run.progress {actor : Int} {p : Program α} {s : Stage α} {out : List (Signal α)}
    (run : Run actor p s out) : Reachable s ∧ Progress actor p s (marks actor out) := by
  induction run with
  | start reachable fresh program => exact ⟨reachable, .suspended fresh rfl rfl⟩
  | @act s out run a goesOn program ih =>
    obtain ⟨hreachable, hprogress⟩ := ih
    have horderly := hreachable.orderly
    refine ⟨hreachable.act a, ?_⟩
    rw [marks_append]
    cases hprogress with
    | suspended live own ahead =>
      rcases perform_task horderly live own a with
        ⟨hmem, hmarks⟩ | ⟨rfl, rest, hready⟩ | ⟨hgone, hnone, hmarks⟩
      · rw [hmarks, List.append_nil]
        refine .suspended hmem own ?_
        rw [(perform_inherits s a).catalog]
        exact ahead
      · simp only [perform, beat, hready] at program ⊢
        exact resume_progress (s := { s with ready := rest }) (horderly.atTurn hready) own program ahead
      · rw [hmarks, List.append_nil]
        refine .ended hgone ?_ ?_
        · rw [(perform_inherits s a).catalog]
          exact ⟨_, ahead⟩
        · intro hcompleted
          rw [Completed, engine?, hnone] at hcompleted
          cases hcompleted
    | ended gone beginning whole =>
      -- Nothing goes on after the end.
      cases horderly.standing actor with
      | idle status engine tasks =>
        rw [runs?_of_idle status] at goesOn
        cases goesOn
      | busy status engine task own shown => exact absurd own (gone _ task)

def runsThrough (actor : Int) : Stage α → List (Beat α) → Bool
  | _, [] => true
  | s, b :: beats => s.runs? actor && (s.beat b).1.runsThrough actor beats

/-- As long as nobody collides, an actor goes on with the program that it holds. -/
theorem Run.follow {actor : Int} {p : Program α} {s : Stage α} {out : List (Signal α)}
    (run : Run actor p s out) (beats : List (Beat α)) (hcalm : s.calm beats = true)
    (hruns : s.runsThrough actor beats = true) :
    Run actor p (s.follow beats).1 (out ++ (s.follow beats).2.map (·.2)) := by
  induction beats generalizing s out with
  | nil =>
    rw [Stage.follow, List.map_nil, List.append_nil]
    exact run
  | cons b beats ih =>
    obtain ⟨hbeat, hcalm⟩ := Bool.and_eq_true_iff.mp hcalm
    obtain ⟨hnow, hruns⟩ := Bool.and_eq_true_iff.mp hruns
    have hprogram : ∀ x, (s.beat b).1.store.get? actor = some x → x.program = p := by
      intro x hx
      have hsame := beat_programs run.progress.1 hbeat actor
      rw [hx, Option.map_some] at hsame
      obtain ⟨a, ha, heq⟩ := Option.map_eq_some_iff.mp hsame.symm
      exact heq.symm.trans (run.holds a ha)
    have hrest := ih (run.act (.beat b) hnow hprogram) hcalm hruns
    rw [List.append_assoc] at hrest
    simp only [Stage.follow, List.map_append, List.map_map, Function.comp_def, List.map_id']
    exact hrest

/-- Beats that bring the actor to the end of its program. -/
def rounds : List (Beat Float) := (List.replicate 6 [.turn, .wake]).flatten ++ [.turn]

end Stage

end SpriteStage
