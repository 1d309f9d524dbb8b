import SpriteStage.Proofs.Edits
import SpriteStage.Proofs.Execution
import SpriteStage.Proofs.Landmarks
/-!
# Tours

A tour is a run from the moment at which its actor is put into play, whatever else is done on the
stage meanwhile. What a tour tells about its step has the same shape in all cases: it opens, it
tells the indices of the blocks that it comes to, one after the other, and it closes.
-/
namespace SpriteStage

variable {α : Type}

def stepEvents (actor : Int) (out : List (Signal α)) : List (Event α) :=
  (Signal.events out).filter (·.tellsStep actor)

private theorem stepEvents_append (actor : Int) (out more : List (Signal α)) :
    stepEvents actor (out ++ more) = stepEvents actor out ++ stepEvents actor more := by
  rw [stepEvents, Signal.events_append, List.filter_append]
  rfl

private theorem event?_landmarks (actor : Int) (out : List (Signal α)) :
    (landmarks actor out).filterMap Landmark.event? = stepEvents actor out := by
  rw [landmarks, List.filterMap_filterMap, stepEvents, Signal.events, List.filter_filterMap]
  congr 1
  funext x
  cases x with
  | event e =>
    by_cases h : e.tellsStep actor <;>
      simp [Signal.landmark?, Signal.event?, Landmark.event?, Option.filter_some, h]
  | notice n => rfl
  | dispatched a b inputs =>
    cases h : (Signal.dispatched a b inputs).mark? actor <;>
      simp [Signal.landmark?, Signal.event?, Landmark.event?, h]
  | pass a =>
    cases h : (Signal.pass a : Signal α).mark? actor <;>
      simp [Signal.landmark?, Signal.event?, Landmark.event?, h]

private theorem stepEvents_stepless {actor : Int} {out : List (Signal α)} (h : ∀ x ∈ out, x.Stepless actor) :
    stepEvents actor out = [] := by
  rw [← event?_landmarks, landmarks_stepless h, Landmark.event?_marks]

private theorem landmarks_of_marks {actor : Int} {out : List (Signal α)} (h : marks actor out = []) :
    landmarks actor out = (stepEvents actor out).map .step := by
  rw [← event?_landmarks, landmarks, List.filterMap_filterMap, List.map_filterMap]
  apply List.filterMap_congr
  intro x hx
  have hnone := List.filterMap_eq_nil_iff.mp h x hx
  cases x with
  | event e => by_cases he : e.tellsStep actor <;> simp [Signal.landmark?, Landmark.event?, he]
  | notice n => rfl
  | dispatched a b inputs => simp [Signal.landmark?, hnone]
  | pass a => simp [Signal.landmark?, hnone]

theorem mem_stepEvents {actor : Int} {e : Event α} {out : List (Signal α)} :
    e ∈ stepEvents actor out ↔ .event e ∈ out ∧ e.tellsStep actor = true := by
  rw [stepEvents, List.mem_filter, Signal.events, List.mem_filterMap]
  apply and_congr_left'
  constructor
  · rintro ⟨x, hx, hevent⟩
    cases x with
    | event e' => exact Option.some.inj hevent ▸ hx
    | _ => cases hevent
  · intro h
    exact ⟨_, h, rfl⟩

variable [Scalar α]

namespace Stage

def held (s : Stage α) (actor : Int) : Program α := (s.store.program? actor).getD []

def playsOn (actor : Int) : Stage α → List (Act α) → Bool
  | _, [] => true
  | s, a :: acts => s.runs? actor && (s.perform a).1.playsOn actor acts

/-- Whether an idle actor is put into play by the first of some acts, and runs before each of the others. -/
def tours (actor : Int) (s : Stage α) : List (Act α) → Bool
  | [] => false
  | a :: acts =>
    a.isPlay && !s.runs? actor && (s.perform a).1.runs? actor && (s.perform a).1.playsOn actor acts

/-- The blocks that the run of an actor comes to during some acts. A block is looked up in the program that the
actor holds after the act in which its index is told; programs change only before an index is told. -/
def stops (actor : Int) : Stage α → List (Act α) → List (Block α)
  | _, [] => []
  | s, a :: acts =>
    (landmarks actor (s.perform a).2).filterMap (Landmark.block? ((s.perform a).1.held actor)) ++
      (s.perform a).1.stops actor acts

private theorem playsOn_split {actor : Int} {s : Stage α} {before after : List (Act α)} {a : Act α}
    (h : s.playsOn actor (before ++ a :: after) = true) :
    s.playsOn actor before = true ∧ (s.enact before).1.runs? actor = true := by
  induction before generalizing s with
  | nil => exact ⟨rfl, (Bool.and_eq_true_iff.mp h).1⟩
  | cons b before ih =>
    obtain ⟨hnow, hrest⟩ := Bool.and_eq_true_iff.mp h
    obtain ⟨hbefore, hruns⟩ := ih hrest
    exact ⟨Bool.and_eq_true_iff.mpr ⟨hnow, hbefore⟩, hruns⟩

/-! ## Acts of others -/

theorem Orderly.runs_of_live {s : Stage α} (h : s.Orderly) {t : Task α} (ht : t ∈ s.live) {actor : Int}
    (hown : t.engine = .player actor) : s.runs? actor = true := by
  obtain ⟨index, message, hstatus, -, -⟩ := h.busy_of_task ht hown
  exact runs?_of_busy hstatus

private theorem Orderly.idle_of_gone {s : Stage α} (h : s.Orderly) {actor : Int}
    (hgone : ∀ t ∈ s.live, t.engine ≠ .player actor) : s.runs? actor = false := by
  cases h.standing actor with
  | idle status _ _ => exact runs?_of_idle status
  | busy _ _ task own _ => exact absurd own (hgone _ task)

omit [Scalar α] in
theorem Edited.stepless {s s' : Stage α} {out : List (Signal α)} (h : Edited s s' out) (actor : Int) :
    ∀ x ∈ out, x.Stepless actor := by
  cases h with
  | nothing _ _ told => simp [told]
  | skipped _ _ told => simp [told]
  | added a _ _ _ told => simp [told, Store.castSignals, Signal.Stepless, Event.tellsStep]
  | deleted other _ _ told => simp [told, Signal.Stepless, Event.tellsStep]
  | revised other a p _ _ _ told =>
    rw [told]
    split
    · simp [Signal.Stepless, Event.tellsStep]
    · simp

private theorem playActor_stepless {s : Stage α} {actor other : Int}
    (h : other = actor → ∀ a, ¬ s.Playable other a) : ∀ x ∈ (s.playActor other).out, x.Stepless actor := by
  rcases playActor_cases s other with hnot | ⟨a, w, said, hp, hw⟩
  · simp [(playActor_of_not hnot).2.1]
  · have hne : other ≠ actor := fun heq => h heq a hp
    rw [playActor_of_playable hp hw]
    intro x hx
    rcases List.mem_append.mp hx with hx | hx
    · obtain ⟨-, -, -, rfl⟩ := World.write_eq_ok.mp hw
      rw [List.mem_singleton.mp hx]
      exact Signal.Of.stepless hne rfl
    · rw [List.mem_singleton.mp hx]
      rintro e ⟨⟩

private theorem not_playable_of_runs {s : Stage α} {actor other : Int} (h : s.runs? actor = true)
    (heq : other = actor) (a : Actor α) : ¬ s.Playable other a := by
  subst heq
  intro hp
  simp [runs?, store, hp.found, hp.idle] at h

private theorem playEach_stepless {s : Stage α} (h : s.Orderly) {t : Task α} (ht : t ∈ s.live) {actor : Int}
    (hown : t.engine = .player actor) (actors : List Int) :
    ∀ x ∈ (playEach actors s).out, x.Stepless actor := by
  induction actors generalizing s with
  | nil => simp [playEach, reply]
  | cons other actors ih =>
    intro x hx
    rcases List.mem_append.mp hx with hx | hx
    · exact playActor_stepless (not_playable_of_runs (h.runs_of_live ht hown)) x hx
    · exact ih (h.playActor other) (mem_live_playActor other ht) x hx

private theorem playAll_stepless {s : Stage α} (h : s.Orderly) {t : Task α} (ht : t ∈ s.live) {actor : Int}
    (hown : t.engine = .player actor) : ∀ x ∈ s.playAll.out, x.Stepless actor := by
  unfold playAll
  dsimp only
  split
  · exact playEach_stepless h ht hown _
  · intro x hx
    rcases List.mem_append.mp hx with hx | hx
    · exact playEach_stepless h ht hown _ x hx
    · rw [List.mem_singleton.mp hx]
      rintro e ⟨⟩

private theorem resume_stepless {s : Stage α} {t : Task α} {other actor : Int}
    (h : Roster s.world s.engines (t :: s.live)) (hown : t.engine = .player other) (hne : other ≠ actor) :
    ∀ x ∈ (s.resume t).2, x.Stepless actor := by
  have hactivity : ∀ x ∈ (t.place.resume s.now other s.world).out, x.Stepless actor := by
    cases t.place with
    | fresh => exact fun x hx => (Signal.Of.stepless hne ((Moment.step_own ⟨s.now, other, 0⟩ s.world).signals x hx))
    | asleep pause rest loops index =>
      exact (Doing.asleep s.now other s.world pause rest loops index).stepless actor
    | turn loops index =>
      rw [Place.resume_turn]
      intro x hx
      rcases List.mem_append.mp hx with hx | hx
      · exact s.world.collide_stepless _ actor other x hx
      · exact Signal.Of.stepless hne ((Place.afterPass_own s.now other loops index _).signals x hx)
  rcases resume_cases h hown rfl with
    ⟨seconds, place, -, hs⟩ | ⟨place, -, hs⟩ | ⟨outcome, w, said, -, hwrite, hs⟩
  · rw [hs]
    exact hactivity
  · rw [hs]
    exact hactivity
  · rw [hs]
    obtain ⟨-, -, -, rfl⟩ := World.write_eq_ok.mp hwrite
    intro x hx
    rcases List.mem_append.mp hx with hx | hx
    · exact hactivity x hx
    · rcases List.mem_append.mp hx with hx | hx
      · rw [List.mem_singleton.mp hx]
        exact Signal.Of.stepless hne rfl
      · rw [List.mem_singleton.mp hx]
        rintro e ⟨⟩

omit [Scalar α] in
theorem filter_farewells {actors : List Int} (h : actors.Nodup) (actor : Int) :
    (actors.map (Engine.farewell : Int → Event α)).filter (·.tellsStep actor) =
      if actor ∈ actors then [.closing actor false] else [] := by
  induction actors with
  | nil => rfl
  | cons id actors ih =>
    obtain ⟨hfresh, hnodup⟩ := List.nodup_cons.mp h
    rw [List.map_cons, List.filter_cons, ih hnodup]
    by_cases hid : id = actor
    · subst hid
      have htells : (Engine.farewell id : Event α).tellsStep id = true := by
        simp [Event.tellsStep, Engine.farewell, Engine.terminal]
      rw [if_pos htells, if_neg hfresh, if_pos List.mem_cons_self]
      rfl
    · have hother : (Engine.farewell id : Event α).tellsStep actor = false := Event.tellsStep_of_ne hid
      simp [hother, Ne.symm hid]

private theorem stop_stepEvents {s : Stage α} (h : s.Orderly) {actors : List Int} (hnodup : actors.Nodup)
    {t : Task α} (ht : t ∈ s.live) {actor : Int} (hown : t.engine = .player actor) :
    stepEvents actor (s.stop actors).out =
      if (s.stop actors).stage.runs? actor then [] else [.closing actor false] := by
  have hruns := h.runs_of_live ht hown
  by_cases hsome : actors.filter s.players.contains = []
  · rw [stop_of_none hsome]
    simp [reply, hruns, stepEvents, Signal.events]
  · obtain ⟨w, out, hstop, hstill, hsaid⟩ := stop_spec h hnodup hsome
    have hchosen := hnodup.filter s.players.contains
    rw [hstop]
    generalize actors.filter s.players.contains = chosen at hchosen hstill hsaid ⊢
    have hperm := hsaid.filter (·.tellsStep actor)
    rw [filter_farewells (hchosen.filter _)] at hperm
    have hsilent : stepEvents actor [.notice (.stopped chosen)] = ([] : List (Event α)) := rfl
    have hafter : ({ (s.discard (chosen.map .player)).retire with world := w } : Stage α).runs? actor =
        !decide (actor ∈ chosen) := by
      have hrecord := hstill.record actor
      simp only [runs?, store, hrecord] at hruns ⊢
      by_cases hmem : actor ∈ chosen
      · cases hget : s.world.store.get? actor with
        | none => simp [hmem]
        | some a => simp [hmem, Actor.stilled, Actor.runs, Value.isGiven]
      · simpa [hmem] using hruns
    dsimp only
    rw [stepEvents_append, hsilent, List.append_nil, hafter]
    by_cases hmem : actor ∈ chosen
    · rw [if_pos (List.mem_filter.mpr ⟨hmem, hruns⟩)] at hperm
      simp only [hmem, decide_true, Bool.not_true, Bool.false_eq_true, if_false]
      exact List.perm_singleton.mp hperm
    · rw [if_neg fun hin => hmem (List.mem_filter.mp hin).1] at hperm
      simp only [hmem, decide_false, Bool.not_false, if_true]
      exact List.perm_nil.mp hperm

/-- What an act tells about the step of an actor in play: nothing but the end of its run, unless it is the
actor's own turn. -/
theorem perform_stepEvents {s : Stage α} (h : s.Orderly) {t : Task α} (ht : t ∈ s.live) {actor : Int}
    (hown : t.engine = .player actor) (a : Act α) :
    (a = .beat .turn ∧ ∃ rest, s.ready = t :: rest) ∨
      stepEvents actor (s.perform a).2 =
        if (s.perform a).1.runs? actor then [] else [.closing actor false] := by
  have hquiet : t ∈ (s.perform a).1.live → (∀ x ∈ (s.perform a).2, x.Stepless actor) →
      stepEvents actor (s.perform a).2 =
        if (s.perform a).1.runs? actor then [] else [.closing actor false] := by
    intro hlive hsilent
    rw [stepEvents_stepless hsilent, (h.perform a).runs_of_live hlive hown]
    rfl
  cases a with
  | beat b =>
    cases b with
    | turn =>
      cases hready : s.ready with
      | nil =>
        refine .inr (hquiet ?_ ?_)
        · simp only [perform, beat, hready]
          exact ht
        · simp [perform, beat, hready]
      | cons first rest =>
        by_cases hfirst : first = t
        · subst hfirst
          exact .inl ⟨rfl, rest, rfl⟩
        · obtain ⟨other, hne, hother, hmem⟩ := h.other_turn ht hown hready hfirst
          refine .inr (hquiet ?_ ?_)
          · simp only [perform, beat, hready]
            exact mem_live_resume first hmem
          · simp only [perform, beat, hready]
            exact resume_stepless (h.atTurn hready) hother hne
    | retire => exact .inr (hquiet (mem_live_perform (by simp) rfl ht) (by simp [perform, beat]))
    | clock time => exact .inr (hquiet (mem_live_perform (by simp) rfl ht) (by simp [perform, beat]))
    | wake =>
      refine .inr (hquiet (mem_live_perform (by simp) rfl ht) ?_)
      simp only [perform, beat]
      split <;> simp
  | playAll => exact .inr (hquiet (mem_live_perform (by simp) rfl ht) (playAll_stepless h ht hown))
  | playActor other =>
    exact .inr (hquiet (mem_live_perform (by simp) rfl ht)
      (playActor_stepless (not_playable_of_runs (h.runs_of_live ht hown))))
  | stopAll => exact .inr (stop_stepEvents h h.players_nodup ht hown)
  | stopActor other =>
    have hact : s.perform (.stopActor other) = (s, []) ∨
        s.perform (.stopActor other) = ((s.stop [other]).stage, (s.stop [other]).out) := by
      simp only [perform, Reply.effect, stopActor]
      split
      · exact .inl rfl
      · exact .inr rfl
    rcases hact with hact | hact
    · rw [hact] at hquiet ⊢
      exact .inr (hquiet ht (by simp))
    · rw [hact]
      exact .inr (stop_stepEvents h (List.nodup_singleton other) ht hown)
  | reset =>
    refine .inr ?_
    -- The stage is emptied only after everybody has been stopped.
    have hstopped : s.stopAll.stage.runs? actor = false := by
      refine (h.perform .stopAll).idle_of_gone ?_
      simp [perform, Reply.effect, (stopAll_spec h).1, live]
    have hstop : stepEvents actor s.stopAll.out =
        if s.stopAll.stage.runs? actor then [] else [.closing actor false] :=
      stop_stepEvents h h.players_nodup ht hown
    have hcleared : s.reset.stage.runs? actor = false := by
      simp [reset, clearStore, clearTouching, withStore, runs?, store, Store.empty, Store.get?]
    rw [hstopped] at hstop
    simp only [perform, Reply.effect, hcleared]
    exact hstop
  | init | addActor _ | deleteActor _ | selectActor _ | submit _ _ _ _ | editInput _ _ _ _
    | reorder _ _ _ | removeBlock _ _ | duplicate _ _ | clearProgram _ =>
    exact .inr (hquiet (mem_live_perform (by simp) rfl ht) ((perform_edited s rfl).stepless actor))

/-! ## Tours on a stage -/

/-- The landmarks of a tour that has come to some blocks and been through them. -/
def course (c : Catalog α) (actor : Int) (blocks : List (Block α)) : List (Landmark α) :=
  .step (.opening actor) :: stays c actor 0 blocks

private theorem course_append (c : Catalog α) (actor : Int) (blocks more : List (Block α)) :
    course c actor (blocks ++ more) = course c actor blocks ++ stays c actor blocks.length more := by
  rw [course, stays_append, Nat.zero_add]
  rfl

private theorem course_events (c : Catalog α) (actor : Int) (blocks : List (Block α)) :
    (course c actor blocks).filterMap Landmark.event? =
      .opening actor :: (List.range blocks.length).map (.arrival actor) := by
  have hstep : Landmark.event? (.step (Event.opening actor : Event α)) = some (.opening actor) := rfl
  rw [course, List.filterMap_cons_some hstep, stays_events, ← List.range_eq_range']

instance (s : Stage α) (actor : Int) : Decidable (s.Completed actor) :=
  inferInstanceAs (Decidable (_ = _))

/-- How far a tour has come: it is suspended somewhere in the last of its blocks, or it is closed, and if it is
complete then it has been through all of its blocks and the actor's program has no more. -/
inductive Stopover (actor : Int) (s : Stage α) (left : List (Landmark α)) (blocks : List (Block α)) : Prop where
  | suspended {t : Task α} (live : t ∈ s.live) (own : t.engine = .player actor)
      (ahead : left ++ (t.place.ahead s.world.catalog []).map .mark = course s.world.catalog actor blocks)
      (count : t.place.arrivals = blocks.length)
  | closed (before : List (Landmark α)) (ahead : List (Mark α)) (idle : s.runs? actor = false)
      (told : left = before ++ [.step (.closing actor (decide (s.Completed actor)))])
      (beginning : before ++ ahead.map .mark = course s.world.catalog actor blocks)
      (whole : s.Completed actor → ahead = [] ∧ (s.held actor).length ≤ blocks.length)

private theorem landmarks_terminal {w w' : World α} {actor : Int} {outcome : Phase} {said : List (Signal α)}
    (houtcome : outcome = .completed ∨ outcome = .cancelled)
    (h : w.write actor (Engine.terminal outcome) = .ok (w', said)) :
    landmarks actor (said ++ [.notice (.settled actor outcome)]) =
      [.step (.closing actor (decide (outcome = .completed)))] := by
  obtain ⟨-, -, -, rfl⟩ := World.write_eq_ok.mp h
  have hclosing : (⟨actor, .wrote ((Engine.terminal outcome).normalise w.settings) none⟩ : Event α) =
      .closing actor (decide (outcome = .completed)) := by
    rcases houtcome with rfl | rfl
    · rfl
    · rfl
  rw [hclosing]
  simp [landmarks, Signal.landmark?, Signal.mark?]

private theorem resume_stopover {s : Stage α} {actor : Int} {t : Task α} {left : List (Landmark α)}
    {blocks : List (Block α)} (h : Roster s.world s.engines (t :: s.live))
    (hown : t.engine = .player actor)
    (hahead : left ++ (t.place.ahead s.world.catalog []).map .mark = course s.world.catalog actor blocks)
    (hcount : t.place.arrivals = blocks.length) :
    Stopover actor (s.resume t).1 (left ++ landmarks actor (s.resume t).2)
      (blocks ++ (landmarks actor (s.resume t).2).filterMap
        (Landmark.block? ((s.resume t).1.held actor))) := by
  have hcatalog := (resume_plays s t).frame.catalog
  -- What was ahead before the turn, and then the stays at new blocks, continue the course.
  have hcourse : ∀ {told rest : List (Landmark α)} {reached : List (Block α)},
      told ++ rest = (t.place.ahead s.world.catalog []).map .mark ++
        stays s.world.catalog actor t.place.arrivals reached →
      left ++ told ++ rest = course s.world.catalog actor (blocks ++ reached) := by
    intro told rest reached heq
    rw [List.append_assoc, heq, ← List.append_assoc, hahead, course_append, hcount]
  have hleaves := Place.resume_leaves s.now actor t.place (rfl : s.world.catalog = _)
    (p := ((t.place.resume s.now actor s.world).world.store.program? actor).getD [])
    (fun a ha => by simp [Store.program?, ha]) rfl
  rcases resume_cases h hown rfl with
    ⟨seconds, place, hhalt, hs⟩ | ⟨place, hhalt, hs⟩ | ⟨outcome, w, said, hhalt, hwrite, hs⟩
  · rw [hhalt] at hleaves
    rw [hs] at hcatalog ⊢
    refine .suspended (t := { t with place }) (by simp [live]) hown ?_ ?_
    · rw [hcatalog]
      exact hcourse hleaves.1
    · rw [List.length_append, ← hcount]
      exact hleaves.2
  · rw [hhalt] at hleaves
    rw [hs] at hcatalog ⊢
    refine .suspended (t := { t with place }) (by simp [live]) hown ?_ ?_
    · rw [hcatalog]
      exact hcourse hleaves.1
    · rw [List.length_append, ← hcount]
      exact hleaves.2
  · have hidle : (s.resume t).1.runs? actor = false := by
      refine (resume_orderly h).idle_of_gone ?_
      rw [hs]
      exact h.elsewhere hown
    have hcompleted : (s.resume t).1.Completed actor ↔ outcome = .completed := by
      obtain ⟨_, _, -, hengine, -⟩ := h.busy_of_task (by simp) hown
      rw [hs]
      simp [Completed, engine?, lookup_setEntry, hengine, Engine.ended]
    have hheld : (s.resume t).1.held actor =
        ((t.place.resume s.now actor s.world).world.store.program? actor).getD [] := by
      have hsame := (Personal.ofWrite rfl hwrite).programs actor
      rw [hs]
      exact congrArg (·.getD []) hsame
    have houtcome : outcome = .completed ∨ outcome = .cancelled := by
      rw [hhalt] at hleaves
      cases outcome with
      | completed => exact .inl rfl
      | idle | running | cancelled => exact .inr hleaves.1
    have hsaid : landmarks actor (s.resume t).2 =
        landmarks actor (t.place.resume s.now actor s.world).out ++
          [.step (.closing actor (decide (outcome = .completed)))] := by
      rw [hs, landmarks_append, landmarks_terminal houtcome hwrite]
    have hreached : (landmarks actor (s.resume t).2).filterMap
        (Landmark.block? ((s.resume t).1.held actor)) =
        (landmarks actor (t.place.resume s.now actor s.world).out).filterMap
          (Landmark.block? ((s.resume t).1.held actor)) := by
      rw [hsaid, List.filterMap_append, List.filterMap_cons, Landmark.block?_closing, List.filterMap_nil,
        List.append_nil]
    rw [← hheld, hhalt] at hleaves
    have hend : left ++ landmarks actor (s.resume t).2 =
        left ++ landmarks actor (t.place.resume s.now actor s.world).out ++
          [.step (.closing actor (decide ((s.resume t).1.Completed actor)))] := by
      rw [hsaid, ← List.append_assoc, decide_eq_decide.mpr hcompleted]
    rw [hreached]
    rcases houtcome with rfl | rfl
    · refine .closed _ [] hidle hend ?_ fun _ => ⟨rfl, ?_⟩
      · rw [hcatalog]
        exact hcourse ((List.append_nil _).trans hleaves.1)
      · rw [List.length_append, ← hcount]
        exact hleaves.2
    · obtain ⟨-, rest, hrest⟩ := hleaves
      refine .closed _ rest hidle hend ?_ fun hdone => absurd (hcompleted.mp hdone) (by decide)
      rw [hcatalog]
      exact hcourse hrest

/-- Every act takes a tour on. -/
theorem perform_stopover {s : Stage α} (h : s.Orderly) {actor : Int} (hruns : s.runs? actor = true)
    {left : List (Landmark α)} {blocks : List (Block α)} (hover : Stopover actor s left blocks) (a : Act α) :
    Stopover actor (s.perform a).1 (left ++ landmarks actor (s.perform a).2)
      (blocks ++ (landmarks actor (s.perform a).2).filterMap
        (Landmark.block? ((s.perform a).1.held actor))) := by
  have hcatalog := (perform_inherits s a).catalog
  cases hover with
  | closed _ _ idle _ _ _ =>
    rw [idle] at hruns
    cases hruns
  | @suspended t live own ahead count =>
    rcases perform_stepEvents h live own a with ⟨rfl, rest, hready⟩ | hsteps
    · simp only [perform, beat, hready]
      exact resume_stopover (s := { s with ready := rest }) (h.atTurn hready) own ahead count
    · rcases perform_task h live own a with ⟨hmem, hmarks⟩ | ⟨rfl, rest, hready⟩ | ⟨hgone, hnone, hmarks⟩
      · rw [(h.perform a).runs_of_live hmem own, if_pos rfl] at hsteps
        rw [landmarks_of_marks hmarks, hsteps]
        simp only [List.map_nil, List.filterMap_nil, List.append_nil]
        exact .suspended hmem own (by rw [hcatalog]; exact ahead) count
      · simp only [perform, beat, hready]
        exact resume_stopover (s := { s with ready := rest }) (h.atTurn hready) own ahead count
      · have hidle := (h.perform a).idle_of_gone hgone
        have hbroken : ¬ (s.perform a).1.Completed actor := by
          simp [Completed, engine?, hnone]
        rw [hidle, if_neg (by simp)] at hsteps
        rw [landmarks_of_marks hmarks, hsteps, List.map_singleton, List.filterMap_cons,
          Landmark.block?_closing, List.filterMap_nil, List.append_nil]
        refine .closed left (t.place.ahead s.world.catalog []) hidle ?_ ?_ fun hdone => absurd hdone hbroken
        · rw [decide_eq_false hbroken]
        · rw [hcatalog]
          exact ahead

private theorem enact_stopover {s : Stage α} (h : Reachable s) {actor : Int} {left : List (Landmark α)}
    {blocks : List (Block α)} (hover : Stopover actor s left blocks) {acts : List (Act α)}
    (hplays : s.playsOn actor acts = true) :
    Stopover actor (s.enact acts).1 (left ++ landmarks actor (s.enact acts).2)
      (blocks ++ s.stops actor acts) := by
  induction acts generalizing s left blocks with
  | nil =>
    simp only [enact, stops, landmarks, List.filterMap_nil, List.append_nil]
    exact hover
  | cons a acts ih =>
    obtain ⟨hruns, hrest⟩ := Bool.and_eq_true_iff.mp hplays
    have hwhole := ih (h.act a) (perform_stopover h.orderly hruns hover a) hrest
    simp only [enact, stops, landmarks_append]
    rw [List.append_assoc, List.append_assoc] at hwhole
    exact hwhole

/-! ## The beginning -/

private theorem playActor_opens {s : Stage α} {actor other : Int} (hidle : s.runs? actor = false)
    (hbusy : (s.playActor other).stage.runs? actor = true) :
    landmarks actor (s.playActor other).out = [.step (.opening actor)] ∧
      ⟨.player actor, 1, .fresh⟩ ∈ (s.playActor other).stage.live := by
  rcases playActor_cases s other with hnot | ⟨a, w, said, hp, hw⟩
  · have hstore : (s.playActor other).stage.runs? actor = s.runs? actor := by
      rcases (playActor_of_not hnot).1 with hstage | hstage
      · rw [hstage]
      · rw [hstage]
        rfl
    rw [hstore, hidle] at hbusy
    cases hbusy
  · rw [playActor_of_playable hp hw] at hbusy ⊢
    by_cases hne : actor = other
    · subst hne
      obtain ⟨-, -, -, rfl⟩ := World.write_eq_ok.mp hw
      refine ⟨?_, by simp [live]⟩
      have hopening : (⟨actor, .wrote (startPatch.normalise s.world.settings) none⟩ : Event α) =
          .opening actor := rfl
      rw [hopening]
      simp [landmarks, Signal.landmark?, Signal.mark?]
    · have hsame : w.store.get? actor = s.world.store.get? actor := by
        rw [World.get?_write hw, if_neg hne]
      simp only [runs?, store, hsame] at hidle hbusy
      rw [hidle] at hbusy
      cases hbusy

private theorem playActor_runs {s : Stage α} {actor : Int} {a : Actor α} (h : s.Playable actor a) :
    (s.playActor actor).stage.runs? actor = true := by
  have hw := World.write_of_get? h.found startPatch
  have hget := World.get?_write hw actor
  rw [playActor_of_playable h hw]
  rw [if_pos rfl, h.found, Option.map_some] at hget
  simp only [runs?, store]
  rw [hget]
  rfl

private theorem playEach_opens {s : Stage α} (h : s.Orderly) {actor : Int} (hidle : s.runs? actor = false)
    {actors : List Int} (hbusy : (playEach actors s).stage.runs? actor = true) :
    landmarks actor (playEach actors s).out = [.step (.opening actor)] ∧
      ⟨.player actor, 1, .fresh⟩ ∈ (playEach actors s).stage.live := by
  induction actors generalizing s with
  | nil =>
    simp only [playEach, reply] at hbusy
    rw [hidle] at hbusy
    cases hbusy
  | cons other actors ih =>
    have hnext := h.playActor other
    have hquiet : ∀ {out : List (Signal α)}, (∀ x ∈ out, x.Plain) → (∀ x ∈ out, x.Stepless actor) →
        landmarks actor out = [] := by
      intro out hplain hstepless
      rw [landmarks_stepless hstepless, marks_plain hplain]
      rfl
    simp only [playEach, landmarks_append] at hbusy ⊢
    by_cases hnow : (s.playActor other).stage.runs? actor = true
    · -- The actor has been put into play now, and the rest leaves it alone.
      obtain ⟨hopening, hfresh⟩ := playActor_opens hidle hnow
      have hrest := hquiet (playEach_plain actors _) (playEach_stepless hnext hfresh rfl actors)
      rw [hopening, hrest]
      exact ⟨rfl, mem_live_playEach actors hfresh⟩
    · have hstill : (s.playActor other).stage.runs? actor = false := by simpa using hnow
      have hother : ∀ x ∈ (s.playActor other).out, x.Stepless actor := by
        apply playActor_stepless
        rintro rfl a hp
        exact hnow (playActor_runs hp)
      rw [hquiet (playActor_plain s other) hother]
      exact ih hnext hstill hbusy

private theorem perform_opens {s : Stage α} (h : s.Orderly) {actor : Int} {a : Act α} (hplay : a.isPlay = true)
    (hidle : s.runs? actor = false) (hbusy : (s.perform a).1.runs? actor = true) :
    landmarks actor (s.perform a).2 = [.step (.opening actor)] ∧
      ⟨.player actor, 1, .fresh⟩ ∈ (s.perform a).1.live := by
  cases a with
  | playActor other => exact playActor_opens hidle hbusy
  | playAll =>
    simp only [perform, Reply.effect, playAll] at hbusy ⊢
    split at hbusy
    · rename_i hnone
      rw [if_pos hnone]
      exact playEach_opens h hidle hbusy
    · rename_i hsome
      rw [if_neg hsome]
      obtain ⟨hopening, hfresh⟩ := playEach_opens h hidle hbusy
      refine ⟨?_, hfresh⟩
      rw [landmarks_append, hopening]
      rfl
  | _ => simp [Act.isPlay] at hplay

private theorem tours_stopover {s : Stage α} (h : Reachable s) {actor : Int} {acts : List (Act α)}
    (tour : s.tours actor acts = true) :
    Stopover actor (s.enact acts).1 (landmarks actor (s.enact acts).2) (s.stops actor acts) := by
  cases acts with
  | nil => cases tour
  | cons a acts =>
    simp only [tours, Bool.and_eq_true, Bool.not_eq_true'] at tour
    obtain ⟨⟨⟨hplay, hidle⟩, hbusy⟩, hrest⟩ := tour
    obtain ⟨hopening, hfresh⟩ := perform_opens h.orderly hplay hidle hbusy
    have hstart : Stopover actor (s.perform a).1 [.step (.opening actor)] [] :=
      .suspended hfresh rfl rfl rfl
    have hwhole := enact_stopover (h.act a) hstart hrest
    simp only [enact, stops, landmarks_append, hopening, List.filterMap_cons, Landmark.block?_opening,
      List.filterMap_nil]
    exact hwhole

/-! ## Arrivals -/

private theorem resume_out {s : Stage α} {t : Task α} {actor : Int}
    (h : Roster s.world s.engines (t :: s.live)) (hown : t.engine = .player actor) :
    ∃ last, (s.resume t).2 = (t.place.resume s.now actor s.world).out ++ last ∧
      (s.resume t).1.store.program? actor =
        (t.place.resume s.now actor s.world).world.store.program? actor ∧
      ∀ x ∈ last, (∃ n, x = .notice n) ∨
        ∃ outcome, x = .event ⟨actor, .wrote (Engine.terminal outcome) none⟩ := by
  rcases resume_cases h hown rfl with
    ⟨seconds, place, -, hs⟩ | ⟨place, -, hs⟩ | ⟨outcome, w, said, -, hwrite, hs⟩
  · exact ⟨[], by rw [hs, List.append_nil], by rw [hs]; rfl, by simp⟩
  · exact ⟨[], by rw [hs, List.append_nil], by rw [hs]; rfl, by simp⟩
  · refine ⟨said ++ [.notice (.settled actor outcome)], by rw [hs], ?_, ?_⟩
    · rw [hs]
      exact (Personal.ofWrite rfl hwrite).programs actor
    · obtain ⟨-, -, -, rfl⟩ := World.write_eq_ok.mp hwrite
      intro x hx
      rcases List.mem_append.mp hx with hx | hx
      · exact .inr ⟨outcome, List.mem_singleton.mp hx⟩
      · exact .inl ⟨_, List.mem_singleton.mp hx⟩

/-- The step that is told in the actor's own turn is that of a block of its program, which starts next. -/
theorem resume_arrival {s : Stage α} {t : Task α} {actor : Int}
    (h : Roster s.world s.engines (t :: s.live)) (hown : t.engine = .player actor)
    {said more : List (Signal α)} {index : Nat}
    (hout : (s.resume t).2 = said ++ .event (.arrival actor index) :: more) :
    ∃ p b, (s.resume t).1.store.program? actor = some p ∧ p[index]? = some b ∧ Starts actor b more := by
  obtain ⟨last, hlast, hprogram, hend⟩ := resume_out h hown
  rw [hlast] at hout
  have hnotLast : .event (.arrival actor index) ∉ last := by
    intro hmem
    rcases hend _ hmem with ⟨n, hn⟩ | ⟨outcome, heq⟩
    · cases hn
    · cases heq
  have hnotStepless : ∀ {out : List (Signal α)}, (∀ x ∈ out, x.Stepless actor) →
      .event (.arrival actor index) ∉ out := by
    intro out hquiet hmem
    have hfalse := hquiet _ hmem _ rfl
    simp at hfalse
  rcases Place.resume_arrives s.now actor s.world t.place with
    hquiet | ⟨said', more', p, b, htold, hsaid, hmore, hp, hb, hstarts⟩
  · exfalso
    have hmem : .event (.arrival actor index) ∈ (t.place.resume s.now actor s.world).out ++ last := by
      rw [hout]
      simp
    rcases List.mem_append.mp hmem with hmem | hmem
    · exact hnotStepless hquiet hmem
    · exact hnotLast hmem
  · have hnotMore : .event (.arrival actor index) ∉ more' ++ last := by
      rw [List.mem_append, not_or]
      exact ⟨hnotStepless hmore, hnotLast⟩
    rw [htold, List.append_assoc, List.cons_append,
      List.append_cons_inj_of_notMem (hnotStepless hsaid) hnotMore] at hout
    obtain ⟨-, heq, rfl⟩ := hout
    cases (Event.arrival_inj (Signal.event.inj heq)).2
    refine ⟨p, b, hprogram.trans hp, hb, hstarts.append ?_ ?_⟩
    · intro e he
      rcases hend _ he with ⟨n, hn⟩ | ⟨outcome, heq⟩
      · cases hn
      · cases heq
        rfl
    · intro x hx
      rcases hend x hx with ⟨n, rfl⟩ | ⟨outcome, rfl⟩
      · rfl
      · rfl

private theorem perform_arrival {s : Stage α} (h : s.Orderly) {t : Task α} (ht : t ∈ s.live) {actor : Int}
    (hown : t.engine = .player actor) {a : Act α} {said more : List (Signal α)} {index : Nat}
    (hout : (s.perform a).2 = said ++ .event (.arrival actor index) :: more) :
    ∃ p b, (s.perform a).1.store.program? actor = some p ∧ p[index]? = some b ∧ Starts actor b more := by
  rcases perform_stepEvents h ht hown a with ⟨rfl, rest, hready⟩ | hsteps
  · simp only [perform, beat, hready] at hout ⊢
    exact resume_arrival (s := { s with ready := rest }) (h.atTurn hready) hown hout
  · have hmem : .arrival actor index ∈ stepEvents actor (s.perform a).2 := by
      rw [mem_stepEvents, hout]
      exact ⟨by simp, Event.tellsStep_arrival actor index⟩
    rw [hsteps] at hmem
    split at hmem
    · simp at hmem
    · simp [Event.arrival, Event.closing] at hmem

/-- Every arrival of a tour is at a block of the program that the actor holds, which starts next. -/
theorem tours_arrival {s : Stage α} (h : Reachable s) {actor : Int} {before after : List (Act α)} {a : Act α}
    (tour : s.tours actor (before ++ a :: after) = true) {said more : List (Signal α)} {index : Nat}
    (hout : ((s.enact before).1.perform a).2 = said ++ .event (.arrival actor index) :: more) :
    ∃ p b, ((s.enact before).1.perform a).1.store.program? actor = some p ∧ p[index]? = some b ∧
      Starts actor b more := by
  cases before with
  | nil =>
    -- The act that puts the actor into play only opens the tour.
    simp only [List.nil_append, tours, Bool.and_eq_true, Bool.not_eq_true'] at tour
    obtain ⟨⟨⟨hplay, hidle⟩, hbusy⟩, -⟩ := tour
    have hopening := (perform_opens h.orderly hplay hidle hbusy).1
    simp only [enact] at hout
    rw [hout, landmarks_append, ← List.singleton_append, landmarks_append,
      landmarks_step (Event.tellsStep_arrival actor index)] at hopening
    have hmem : Landmark.step (.arrival actor index) ∈ [Landmark.step (Event.opening actor : Event α)] := by
      rw [← hopening]
      simp
    simp [Event.arrival, Event.opening] at hmem
  | cons first before =>
    simp only [List.cons_append, tours, Bool.and_eq_true] at tour
    obtain ⟨hstart, hrest⟩ := tour
    obtain ⟨hplays, hruns⟩ := playsOn_split hrest
    have htour : s.tours actor (first :: before) = true := by
      simp only [tours, Bool.and_eq_true]
      exact ⟨hstart, hplays⟩
    cases tours_stopover h htour with
    | closed _ _ idle _ _ _ =>
      rw [show (s.enact (first :: before)).1.runs? actor = true from hruns] at idle
      cases idle
    | suspended live own _ _ => exact perform_arrival (h.enact (first :: before)).orderly live own hout

/-! ## What a tour tells -/

private theorem enact_catalog (s : Stage α) (acts : List (Act α)) :
    (s.enact acts).1.world.catalog = s.world.catalog := by
  induction acts generalizing s with
  | nil => rfl
  | cons a acts ih => exact (ih _).trans (perform_inherits s a).catalog

/-- The end of a tour, once its actor runs no more. -/
def ending (s : Stage α) (actor : Int) : List (Event α) :=
  if s.runs? actor then [] else [.closing actor (decide (s.Completed actor))]

/-- What is left of the course of a tour is ahead of it, and it closes when its actor runs no more. -/
theorem Stopover.landmarks_eq {s : Stage α} (h : s.Orderly) {actor : Int} {left : List (Landmark α)}
    {blocks : List (Block α)} (hover : Stopover actor s left blocks) :
    ∃ (before : List (Landmark α)) (ahead : List (Mark α)),
      left = before ++ (s.ending actor).map .step ∧
      before ++ ahead.map .mark = course s.world.catalog actor blocks ∧
      (s.Completed actor → ahead = [] ∧ (s.held actor).length ≤ blocks.length) := by
  cases hover with
  | @suspended t live own ahead count =>
    have hbroken : ¬ s.Completed actor := by
      obtain ⟨_, _, -, hengine, -⟩ := h.busy_of_task live own
      simp [Completed, engine?, hengine, Engine.underWay]
    refine ⟨left, t.place.ahead s.world.catalog [], ?_, ahead, fun hdone => absurd hdone hbroken⟩
    simp [ending, h.runs_of_live live own]
  | closed before ahead idle told beginning whole =>
    refine ⟨before, ahead, ?_, beginning, whole⟩
    simp [ending, idle, told]

theorem tours_stepEvents {s : Stage α} (h : Reachable s) {actor : Int} {acts : List (Act α)}
    (tour : s.tours actor acts = true) :
    stepEvents actor (s.enact acts).2 =
      .opening actor :: (List.range (s.stops actor acts).length).map (.arrival actor) ++
        (s.enact acts).1.ending actor := by
  obtain ⟨left, ahead, hleft, hcourse, -⟩ := (tours_stopover h tour).landmarks_eq (h.enact acts).orderly
  have hsteps : left.filterMap Landmark.event? =
      .opening actor :: (List.range (s.stops actor acts).length).map (.arrival actor) := by
    rw [← course_events (s.enact acts).1.world.catalog, ← hcourse, List.filterMap_append,
      Landmark.event?_marks, List.append_nil]
  rw [← event?_landmarks, hleft, List.filterMap_append, hsteps, List.filterMap_map]
  simp [Function.comp_def, Landmark.event?]

/-- Whatever happens on the stage, a tour opens, comes to blocks with the indices 0, 1, 2 and so on, and closes
when its actor runs no more, as a complete run or not. In between it does what the blocks that it has come to say,
one after the other and each to its end, however often the programs are swapped. The block that starts after an
index was told is the one that the actor's program has there at that moment, and a tour that is complete has come
to no fewer blocks than the program has then. -/
theorem tours_tell_steps {s : Stage α} (h : Reachable s) {actor : Int} {acts : List (Act α)}
    (tour : s.tours actor acts = true) :
    stepEvents actor (s.enact acts).2 =
      .opening actor :: (List.range (s.stops actor acts).length).map (.arrival actor) ++
        (s.enact acts).1.ending actor ∧
    (∃ (left : List (Landmark α)) (ahead : List (Mark α)),
      landmarks actor (s.enact acts).2 = left ++ ((s.enact acts).1.ending actor).map .step ∧
      left ++ ahead.map .mark =
        .step (.opening actor) :: stays s.world.catalog actor 0 (s.stops actor acts) ∧
      ((s.enact acts).1.Completed actor → ahead = [])) ∧
    (∀ before a after, acts = before ++ a :: after → ∀ said index more,
      ((s.enact before).1.perform a).2 = said ++ .event (.arrival actor index) :: more →
      ∃ p b, ((s.enact before).1.perform a).1.store.program? actor = some p ∧ p[index]? = some b ∧
        Starts actor b more) ∧
    ((s.enact acts).1.Completed actor →
      ((s.enact acts).1.held actor).length ≤ (s.stops actor acts).length) := by
  obtain ⟨left, ahead, hleft, hcourse, hwhole⟩ :=
    (tours_stopover h tour).landmarks_eq (h.enact acts).orderly
  rw [enact_catalog] at hcourse
  refine ⟨tours_stepEvents h tour, ⟨left, ahead, hleft, hcourse, fun hdone => (hwhole hdone).1⟩, ?_,
    fun hdone => (hwhole hdone).2⟩
  rintro before a after rfl said index more hout
  exact tours_arrival h tour hout

/-- Two actors that overlap, the first with two blocks in its program and the second with one. -/
def facing : Stage Float :=
  ((new Settings.standard ⟨[], 0⟩).enact
    [.init, .addActor { x := .int 110, y := .int 100 },
      .submit 1 "turn" [("degrees", .int 0)] none, .submit 1 "turn" [("degrees", .int 0)] none,
      .submit 2 "set_color" [("color", .int 1)] none]).1

/-- Both are put into play and take turns. The programs are swapped in the third turn. -/
def faceOff : List (Act Float) := .playAll :: List.replicate 5 (.beat .turn)

theorem facing_tells_steps :
    facing.tours 2 faceOff = true ∧ (facing.stops 2 faceOff).map (·.id) = ["b3", "b2"] ∧
      stepEvents 2 (facing.enact faceOff).2 =
        [.opening 2, .arrival 2 0, .arrival 2 1, .closing 2 true] := by
  have hreachable : Reachable facing := (Reachable.empty (new_isEmpty _ _)).enact _
  have htour : facing.tours 2 faceOff = true := by decide +kernel
  have hstops : (facing.stops 2 faceOff).map (·.id) = ["b3", "b2"] := by decide +kernel
  have hlength : (facing.stops 2 faceOff).length = 2 := by
    rw [← List.length_map (·.id), hstops]
    rfl
  have hidle : (facing.enact faceOff).1.runs? 2 = false := by decide +kernel
  have hdone : (facing.enact faceOff).1.Completed 2 := by decide +kernel
  obtain ⟨hsteps, -, -, -⟩ := tours_tell_steps hreachable htour
  refine ⟨htour, hstops, ?_⟩
  rw [hsteps, hlength, ending, hidle, decide_eq_true hdone]
  rfl

end Stage

end SpriteStage
