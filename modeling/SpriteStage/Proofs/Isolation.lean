import SpriteStage.Proofs.BinaryTime
import SpriteStage.Proofs.Heritage
import SpriteStage.Proofs.Solo
/-!
# Actors do not disturb each other

As long as no collision pass swaps programs, an actor goes through its program on a full stage as
it would alone: it tells the same, at the same times. The stage of the actor alone is kept beside
the full one. Since nobody oversleeps, both happen when the clock of either stage shows the same
time.
-/
namespace SpriteStage

variable {α : Type}

/-- The events about one actor, each with the time at which it was told. -/
def eventsOf (actor : Int) (out : List (α × Signal α)) : List (α × Event α) :=
  out.filterMap fun x => (x.2.event?.filter (·.actor = actor)).map (x.1, ·)

private theorem eventsOf_append (actor : Int) (out more : List (α × Signal α)) :
    eventsOf actor (out ++ more) = eventsOf actor out ++ eventsOf actor more :=
  List.filterMap_append

private theorem eventsOf_other {actor other : Int} (hne : other ≠ actor) {out : List (Signal α)}
    (h : ∀ x ∈ out, x.Of other) (time : α) : eventsOf actor (out.map (time, ·)) = [] := by
  rw [eventsOf, List.filterMap_map, List.filterMap_eq_nil_iff]
  intro x hx
  have hof := h x hx
  cases x with
  | event e =>
    have hactor : e.actor ≠ actor := fun heq => hne (hof.symm.trans heq)
    simp [Signal.event?, hactor]
  | notice n => rfl
  | dispatched a b inputs => rfl
  | pass a => rfl

namespace Stage

variable [Scalar α]

/-- The stage of one actor, as if it were alone and nothing had happened on it. -/
def alone (actor : Int) (s : Stage α) : Stage α :=
  { s with world := s.world.solo actor, engines := [], ready := [], sleepers := [] }

/-- Lets a number of things happen, as far as time may move, and notes when each signal was given. -/
def watch : Nat → Stage α → Stage α × List (α × Signal α)
  | 0, s => (s, [])
  | n + 1, s =>
    match s.tick? .unbounded with
    | none => (s, [])
    | some (t, out) =>
      let (u, more) := watch n t
      (u, out.map (s.now, ·) ++ more)

private theorem watch_add (n k : Nat) (s : Stage α) :
    watch (n + k) s = ((watch k (watch n s).1).1, (watch n s).2 ++ (watch k (watch n s).1).2) := by
  induction n generalizing s with
  | zero => simp [watch]
  | succ n ih =>
    rw [Nat.succ_add]
    simp only [watch]
    cases ht : s.tick? .unbounded with
    | none =>
      cases k with
      | zero => simp [watch]
      | succ k => simp [watch, ht]
    | some r => simp [ih]

private theorem watch_of_none {s : Stage α} (h : s.tick? .unbounded = none) (n : Nat) : watch n s = (s, []) := by
  cases n with
  | zero => rfl
  | succ n => simp [watch, h]

private theorem runUntil_watch (n : Nat) (s : Stage α) (out : Array (Signal α)) :
    (runUntil (fun _ => false) .unbounded n s out).1 = (watch n s).1 ∧
      (runUntil (fun _ => false) .unbounded n s out).2.toList =
        out.toList ++ (watch n s).2.map (·.2) := by
  induction n generalizing s out with
  | zero => simp [runUntil, watch]
  | succ n ih =>
    simp only [runUntil, watch, Bool.false_eq_true, if_false]
    cases s.tick? .unbounded with
    | none => simp
    | some r =>
      obtain ⟨t, said⟩ := r
      obtain ⟨hstage, hout⟩ := ih t (out ++ said.toArray)
      refine ⟨hstage, ?_⟩
      simp [hout, Function.comp_def]

/-- Running gives the signals that are watched. -/
theorem run_out (fuel : Nat) (s : Stage α) : (s.run fuel).out = (s.watch fuel).2.map (·.2) := by
  have hout := (runUntil_watch fuel s #[]).2
  simp only [List.nil_append] at hout
  exact hout

/-- Two stages that look the same to one actor. -/
structure SameFor (actor : Int) (s s' : Stage α) : Prop where
  world : s'.world.solo actor = s.world.solo actor
  now : s'.now = s.now
  ready : ∀ t : Task α, t.engine = .player actor → (t ∈ s'.ready ↔ t ∈ s.ready)
  sleepers : ∀ x : Sleeper α, x.task.engine = .player actor → (x ∈ s'.sleepers ↔ x ∈ s.sleepers)

omit [Scalar α] in
theorem SameFor.refl (actor : Int) (s : Stage α) : SameFor actor s s :=
  ⟨rfl, rfl, fun _ _ => Iff.rfl, fun _ _ => Iff.rfl⟩

private theorem solo_write {w w' : World α} {actor other : Int} (hne : actor ≠ other) {p : Patch α}
    {out : List (Signal α)} (h : w.write other p = .ok (w', out)) :
    w'.solo actor = w.solo actor := by
  apply World.solo_congr (World.frame_write h)
  rw [World.get?_write h, if_neg hne]

/-- To one actor, nothing happens in the turn of another. -/
theorem resume_sameFor {s : Stage α} {t : Task α} {actor other : Int} (hne : actor ≠ other)
    (h : Roster s.world s.engines (t :: s.live)) (hown : t.engine = .player other)
    (hcalm : t.place.PassesBy s.world) :
    SameFor actor s (s.resume t).1 ∧ ∀ x ∈ (s.resume t).2, x.Of other := by
  obtain ⟨hworld, hout⟩ := Place.solo_resume s.now hne s.world hcalm
  have hforeign : t.engine ≠ .player actor := by
    rw [hown]
    exact fun heq => hne (EngineId.player.inj heq).symm
  rcases resume_cases h hown rfl with
    ⟨seconds, place, -, hs⟩ | ⟨place, -, hs⟩ | ⟨outcome, w, said, -, hwrite, hs⟩
  · rw [hs]
    refine ⟨⟨hworld, rfl, fun _ _ => Iff.rfl, ?_⟩, hout⟩
    intro x hx
    have hnew : x ≠ ⟨wakeTime s.now seconds, { t with place }⟩ := by
      rintro rfl
      exact hforeign hx
    simp [hnew]
  · rw [hs]
    refine ⟨⟨hworld, rfl, ?_, fun _ _ => Iff.rfl⟩, hout⟩
    intro x hx
    have hnew : x ≠ { t with place } := by
      rintro rfl
      exact hforeign hx
    simp [hnew]
  · rw [hs]
    refine ⟨⟨(solo_write hne hwrite).trans hworld, rfl, fun _ _ => Iff.rfl, fun _ _ => Iff.rfl⟩, ?_⟩
    obtain ⟨-, -, -, rfl⟩ := World.write_eq_ok.mp hwrite
    intro x hx
    simp only [List.mem_append, List.mem_cons, List.not_mem_nil, or_false] at hx
    rcases hx with hx | rfl | rfl
    · exact hout x hx
    · rfl
    · trivial

variable [Timeline α]

open Timeline (IsTime)

/-- Where an actor is on a full stage and on the stage on which it is alone: it waits for a turn on both
at the same time, or it sleeps on both until the same time, or its run is over. -/
inductive View (actor : Int) (s v : Stage α) : Prop where
  | ready {t : Task α} (own : t.engine = .player actor) (here : t ∈ s.ready) (ready : v.ready = [t])
      (sleepers : v.sleepers = []) (engines : v.engines = [(.player actor, .underWay actor)])
      (now : v.now = s.now)
  | asleep {x : Sleeper α} (own : x.task.engine = .player actor) (here : x ∈ s.sleepers)
      (ready : v.ready = []) (sleepers : v.sleepers = [x])
      (engines : v.engines = [(.player actor, .underWay actor)]) (now : IsTime v.now)
      (later : Scalar.lt x.wake v.now = false)
  | through (nowhere : ∀ t ∈ s.live, t.engine ≠ .player actor) (ready : v.ready = [])
      (sleepers : v.sleepers = [])

/-- The second stage is that of an actor alone, as far as it has come on the first. -/
structure Mirror (actor : Int) (s v : Stage α) : Prop where
  world : v.world = s.world.solo actor
  view : View actor s v

namespace Mirror

variable {actor : Int} {s s' v : Stage α}

private theorem congr (h : Mirror actor s v) (hs : SameFor actor s s') : Mirror actor s' v := by
  refine ⟨h.world.trans hs.world.symm, ?_⟩
  cases h.view with
  | ready own here ready sleepers engines now =>
    exact .ready own ((hs.ready _ own).mpr here) ready sleepers engines (now.trans hs.now.symm)
  | asleep own here ready sleepers engines now later =>
    exact .asleep own ((hs.sleepers _ own).mpr here) ready sleepers engines now later
  | through nowhere ready sleepers =>
    refine .through ?_ ready sleepers
    intro t ht hown
    rcases List.mem_append.mp ht with ht | ht
    · exact nowhere t (List.mem_append_left _ ((hs.ready t hown).mp ht)) hown
    · obtain ⟨x, hx, rfl⟩ := List.mem_map.mp ht
      have hmem : x.task ∈ s.sleepers.map (·.task) := List.mem_map_of_mem ((hs.sleepers x hown).mp hx)
      exact nowhere x.task (List.mem_append_right _ hmem) hown

private theorem resume {t : Task α} (h : Roster s.world s.engines (t :: s.live))
    (hown : t.engine = .player actor) (hcalm : t.place.PassesBy s.world) (htime : IsTime s.now)
    (hworld : v.world = s.world.solo actor) (hready : v.ready = []) (hsleepers : v.sleepers = [])
    (hengines : v.engines = [(.player actor, .underWay actor)]) (hnow : v.now = s.now) :
    Mirror actor (s.resume t).1 (v.resume t).1 ∧ (v.resume t).2 = (s.resume t).2 := by
  obtain ⟨-, hrun⟩ := h.tasks t (by simp)
  obtain ⟨index, message, hstatus, hengine, hshown⟩ := h.busy_of_task (by simp) hown
  have hbusy := (Place.resume_busy s.now hstatus hshown).own
  have hsolo := Place.resume_solo s.now actor s.world hcalm
  have hengine' : v.engines.lookup (.player actor) = some (.underWay actor) := by simp [hengines]
  have hactivity : (Engine.underWay actor).resume s.world s.now t.place =
      t.place.resume s.now actor s.world := Engine.resume_eq _ _ _ _
  have hactivity' : (Engine.underWay actor).resume v.world v.now t.place =
      (t.place.resume s.now actor s.world).solo actor := by
    rw [← hsolo, hworld, hnow]
    exact Engine.resume_eq _ _ _ _
  unfold Stage.resume
  simp only [engine?, hown, hengine, hengine', hactivity, hactivity']
  generalize t.place.resume s.now actor s.world = activity at hbusy
  obtain ⟨w, out, halt⟩ := activity
  cases halt with
  | sleep seconds place =>
    simp only [Activity.solo, and_true]
    refine ⟨rfl, .asleep (x := ⟨wakeTime s.now seconds, ⟨.player actor, t.run, place⟩⟩) rfl (by simp)
      hready (by simp [hsleepers, hnow]) hengines ?_ ?_⟩
    · change IsTime v.now
      rw [hnow]
      exact htime
    · change Scalar.lt (wakeTime s.now seconds) v.now = false
      rw [hnow]
      exact Timeline.le_wakeTime seconds htime
  | pass place =>
    simp only [Activity.solo, and_true]
    exact ⟨rfl, .ready (t := ⟨.player actor, t.run, place⟩) rfl (by simp) (by simp [hready])
      hsleepers hengines hnow⟩
  | done outcome =>
    obtain ⟨index', message', hstatus', -⟩ := hbusy
    obtain ⟨w', said, hwrite⟩ := World.write_of_status? hstatus' (Engine.terminal outcome)
    have hwrite' : (w.solo actor).write actor (Engine.terminal outcome) = .ok (w'.solo actor, said) := by
      change w.write actor (Engine.terminal outcome) = .ok (w', said) at hwrite
      rw [World.write_solo, hwrite]
      rfl
    simp only [Activity.solo]
    rw [finish_underWay (s := { s with world := w }) hrun (hown ▸ hengine) hwrite,
      finish_underWay (s := { v with world := w.solo actor }) hrun (hown ▸ hengine') hwrite']
    exact ⟨⟨rfl, .through (h.elsewhere hown) hready hsleepers⟩, rfl⟩

private theorem turn (h : Mirror actor s v) (hreachable : Reachable s) (hpunctual : s.Punctual)
    (hcalm : s.calmBeat .turn = true) :
    ∃ n, Mirror actor (s.beat .turn).1 (watch n v).1 ∧
      eventsOf actor ((s.beat .turn).2.map (s.now, ·)) = eventsOf actor (watch n v).2 := by
  simp only [Stage.beat]
  cases hready : s.ready with
  | nil => exact ⟨0, h, rfl⟩
  | cons t rest =>
    have horderly := hreachable.orderly
    have hplace := passesBy_of_calm hreachable hcalm hready
    have hroster := horderly.atTurn hready
    obtain ⟨⟨other, hown⟩, -⟩ := hroster.tasks t (by simp)
    by_cases hactor : other = actor
    · -- The turn is the actor's own, so it waits for it on the other stage as well.
      subst hactor
      have hfirst : ∀ x ∈ s.live, x.engine = .player other → x = t := by
        intro x hx hxown
        have ht : t ∈ s.live := by simp [live, hready]
        exact List.inj_on_of_nodup_map horderly.single hx ht (hxown.trans hown.symm)
      cases h.view with
      | ready own here ready sleepers engines now =>
        rename_i x
        have hx : x = t := hfirst x (List.mem_append_left _ here) own
        subst hx
        have hretire : v.retire.engines = [(.player other, .underWay other)] := by
          simp [retire, engines, isOver, Engine.underWay]
        obtain ⟨hmirror, hout⟩ := Mirror.resume (s := { s with ready := rest })
          (v := { v.retire with ready := [] }) hroster hown hplace hpunctual.now h.world rfl sleepers
          hretire now
        have htick : v.tick? .unbounded = some ({ v.retire with ready := [] }.resume x) := by
          unfold tick?
          have hone : v.retire.ready = [x] := ready
          simp only [hone]
        refine ⟨1, ?_, ?_⟩
        · simp only [watch, htick]
          exact hmirror
        · simp only [watch, htick, List.append_nil, now, hout]
      | asleep own here ready sleepers engines now later =>
        rename_i x
        have hmem : x.task ∈ s.sleepers.map (·.task) := List.mem_map_of_mem here
        exact absurd own (hroster.elsewhere hown x.task (List.mem_append_right _ hmem))
      | through nowhere _ _ => exact absurd hown (nowhere t (by simp [live, hready]))
    · obtain ⟨hsame, hout⟩ := resume_sameFor (s := { s with ready := rest }) (Ne.symm hactor) hroster
        hown hplace
      refine ⟨0, ?_, ?_⟩
      · apply h.congr
        refine ⟨hsame.world, hsame.now, ?_, hsame.sleepers⟩
        intro x hx
        have hne : x ≠ t := by
          rintro rfl
          exact hactor (EngineId.player.inj (hown.symm.trans hx))
        rw [hsame.ready x hx, hready]
        simp [hne]
      · rw [eventsOf_other hactor hout]
        rfl

private theorem wake (h : Mirror actor s v) (hpunctual : s.Punctual) :
    ∃ n, Mirror actor (s.beat .wake).1 (watch n v).1 ∧ eventsOf actor (watch n v).2 = [] := by
  simp only [Stage.beat]
  split
  · rename_i time hready hnext
    obtain ⟨-, htime, -⟩ := hpunctual.nextWake hnext
    have hnow := hpunctual.wakeAt_now hnext
    cases h.view with
    | ready own here _ _ _ _ => simp [hready] at here
    | asleep own here ready sleepers engines now later =>
      rename_i x
      obtain ⟨hwake, -⟩ := hpunctual.wakes x here
      by_cases heq : Scalar.eq x.wake time = true
      · -- Its time has come on both stages.
        have hx : x.wake = time := (Timeline.eq_iff hwake htime).mp heq
        subst hx
        have hretire : v.retire.engines = [(.player actor, .underWay actor)] := by
          simp [retire, engines, isOver, Engine.underWay]
        have htick : v.tick? .unbounded = some (v.retire.wakeAt x.wake, []) := by
          unfold tick?
          have hnobody : v.retire.ready = [] := ready
          have honly : v.retire.nextWake = some x.wake := by
            have hsleepers : v.retire.sleepers = [x] := sleepers
            simp [nextWake, hsleepers]
          simp only [hnobody, honly, Horizon.admits, if_true]
        have hsleepers : v.retire.sleepers = [x] := sleepers
        refine ⟨1, ⟨?_, ?_⟩, ?_⟩
        · simp only [watch, htick]
          exact h.world
        · simp only [watch, htick]
          refine .ready (t := x.task) own ?_ ?_ ?_ hretire ?_
          · simp only [wakeAt, List.mem_append, List.mem_map, List.mem_filter]
            exact .inr ⟨x, ⟨here, heq⟩, rfl⟩
          · have hnobody : v.retire.ready = [] := ready
            simp [wakeAt, hsleepers, hnobody, heq]
          · simp [wakeAt, hsleepers, heq]
          · rw [hnow]
            exact Timeline.greatest_of_le now hwake later
        · simp only [watch, htick]
          rfl
      · refine ⟨0, ⟨h.world, .asleep own ?_ ready sleepers engines now later⟩, rfl⟩
        simp only [wakeAt, List.mem_filter]
        exact ⟨here, by simpa using heq⟩
    | through nowhere ready sleepers =>
      refine ⟨0, ⟨h.world, .through ?_ ready sleepers⟩, rfl⟩
      intro t ht
      apply nowhere t
      simp only [live, wakeAt, List.mem_append, List.mem_map, List.mem_filter] at ht ⊢
      rcases ht with (ht | ⟨x, ⟨hx, -⟩, rfl⟩) | ⟨x, ⟨hx, -⟩, rfl⟩
      · exact .inl ht
      · exact .inr ⟨x, hx, rfl⟩
      · exact .inr ⟨x, hx, rfl⟩
  · exact ⟨0, h, rfl⟩

/-- The stage of the actor alone keeps up with every beat of the full one. -/
theorem beat (h : Mirror actor s v) (hreachable : Reachable s) (hpunctual : s.Punctual) {b : Beat α}
    (hcalm : s.calmBeat b = true) :
    ∃ n, Mirror actor (s.beat b).1 (watch n v).1 ∧
      eventsOf actor ((s.beat b).2.map (s.now, ·)) = eventsOf actor (watch n v).2 := by
  cases b with
  | retire => exact ⟨0, h.congr ⟨rfl, rfl, fun _ _ => Iff.rfl, fun _ _ => Iff.rfl⟩, rfl⟩
  | turn => exact h.turn hreachable hpunctual hcalm
  | wake =>
    obtain ⟨n, hmirror, hsilent⟩ := h.wake hpunctual
    refine ⟨n, hmirror, ?_⟩
    rw [hsilent]
    simp only [Stage.beat]
    split <;> rfl
  | clock time =>
    refine ⟨0, ?_, rfl⟩
    simp only [Stage.beat]
    split
    · rename_i hidle
      obtain ⟨hready, -⟩ := tick?_isNone hidle
      refine ⟨h.world, ?_⟩
      cases h.view with
      | ready own here _ _ _ _ => simp [hready] at here
      | asleep own here ready sleepers engines now later =>
        exact .asleep own here ready sleepers engines now later
      | through nowhere ready sleepers => exact .through nowhere ready sleepers
    · exact h

private theorem follow (h : Mirror actor s v) (hreachable : Reachable s) (hpunctual : s.Punctual)
    {beats : List (Beat α)} (hclock : ∀ time, .clock time ∈ beats → IsTime time)
    (hcalm : s.calm beats = true) :
    ∃ n, Mirror actor (s.follow beats).1 (watch n v).1 ∧
      eventsOf actor (s.follow beats).2 = eventsOf actor (watch n v).2 := by
  induction beats generalizing s v with
  | nil => exact ⟨0, h, rfl⟩
  | cons b beats ih =>
    obtain ⟨hbeat, hrest⟩ := Bool.and_eq_true_iff.mp hcalm
    have htime : ∀ time, b = .clock time → IsTime time := by
      rintro time rfl
      exact hclock time (by simp)
    obtain ⟨n, hmirror, hsaid⟩ := h.beat hreachable hpunctual hbeat
    obtain ⟨k, hmirror', hsaid'⟩ := ih hmirror (hreachable.act (.beat b)) (hpunctual.beat htime)
      (fun time hmem => hclock time (by simp [hmem])) hrest
    refine ⟨n + k, ?_, ?_⟩
    · rw [watch_add]
      exact hmirror'
    · rw [watch_add]
      simp only [Stage.follow, eventsOf_append, hsaid, hsaid']

/-- When the run of the actor is over, nothing more happens on the stage where it is alone. -/
theorem tick?_of_idle (h : Mirror actor s v) (horderly : s.Orderly) (hidle : s.runs? actor = false) :
    v.tick? .unbounded = none := by
  have hnobody : ∀ t ∈ s.live, t.engine ≠ .player actor := by
    intro t ht hown
    obtain ⟨index, message, hbusy, -, -⟩ := horderly.busy_of_task ht hown
    rw [runs?_of_busy hbusy] at hidle
    cases hidle
  cases h.view with
  | ready own here _ _ _ _ => exact absurd own (hnobody _ (List.mem_append_left _ here))
  | asleep own here _ _ _ _ _ =>
    exact absurd own (hnobody _ (List.mem_append_right _ (List.mem_map_of_mem here)))
  | through _ ready sleepers =>
    have hready : v.retire.ready = [] := ready
    have hnext : v.retire.nextWake = none := by
      have hsleepers : v.retire.sleepers = [] := sleepers
      simp [nextWake, hsleepers]
    simp only [tick?, hready, hnext]

end Mirror

omit [Timeline α] in
theorem playActor_sameFor {actor other : Int} (hne : actor ≠ other) (s : Stage α) :
    SameFor actor s (s.playActor other).stage ∧ ∀ x ∈ (s.playActor other).out, x.Of other := by
  rcases playActor_cases s other with hnot | ⟨a, w, said, hp, hw⟩
  · obtain ⟨hstage, hout, -⟩ := playActor_of_not hnot
    refine ⟨?_, by simp [hout]⟩
    rcases hstage with hstage | hstage
    · rw [hstage]
      exact .refl actor s
    · rw [hstage]
      exact ⟨rfl, rfl, fun _ _ => Iff.rfl, fun _ _ => Iff.rfl⟩
  · rw [playActor_of_playable hp hw]
    refine ⟨⟨solo_write hne hw, rfl, ?_, fun _ _ => Iff.rfl⟩, ?_⟩
    · intro t ht
      have hnew : t ≠ ⟨.player other, 1, .fresh⟩ := by
        rintro rfl
        exact hne (EngineId.player.inj ht).symm
      simp [hnew]
    · obtain ⟨-, -, -, rfl⟩ := World.write_eq_ok.mp hw
      intro x hx
      simp only [List.mem_append, List.mem_cons, List.not_mem_nil, or_false] at hx
      rcases hx with rfl | rfl
      · rfl
      · trivial

/-- The second stage has only the actor on it, and nothing goes on there. -/
structure Blank (actor : Int) (s v : Stage α) : Prop where
  world : v.world = s.world.solo actor
  now : v.now = s.now
  engines : v.engines = []
  ready : v.ready = []
  sleepers : v.sleepers = []

omit [Timeline α] in
theorem Blank.playable {actor : Int} {s v : Stage α} (h : Blank actor s v) (horderly : s.Orderly)
    (hidle : s.world.status? actor = none ∨ s.world.status? actor = some .idle) (a : Actor α) :
    v.Playable actor a ↔ s.Playable actor a := by
  have hfound : v.world.store.get? actor = s.world.store.get? actor := by rw [h.world, World.get?_solo]
  have hfree : (v.retirePlayer actor).engines.lookup (.player actor) = none := by
    simp [retirePlayer, h.engines]
  have hfree' : (s.retirePlayer actor).engines.lookup (.player actor) = none := by
    have hstands := (horderly.retirePlayer actor).standing actor
    cases hstands with
    | busy status _ _ _ _ =>
      have hbusy : s.world.status? actor = some (.busy _ _) := status
      simp [hbusy, Status.busy, Status.idle] at hidle
    | idle _ engine _ =>
      cases he : (s.retirePlayer actor).engines.lookup (.player actor) with
      | none => rfl
      | some e =>
        -- An engine whose run is over has just left.
        obtain ⟨outcome, rfl⟩ := engine e he
        have hmem := mem_of_lookup he
        have hkept := (List.mem_filter.mp hmem).2
        simp [isOver, Engine.ended] at hkept
  constructor
  · intro hp
    exact ⟨hfound ▸ hp.found, hp.program, hp.idle, hfree'⟩
  · intro hp
    exact ⟨hfound ▸ hp.found, hp.program, hp.idle, hfree⟩

private theorem Blank.playActor {actor : Int} {s v : Stage α} (h : Blank actor s v) (horderly : s.Orderly)
    (hidle : s.world.status? actor = none ∨ s.world.status? actor = some .idle) :
    Mirror actor (s.playActor actor).stage (v.playActor actor).stage ∧
      (v.playActor actor).out = (s.playActor actor).out := by
  rcases playActor_cases s actor with hnot | ⟨a, w, said, hp, hw⟩
  · have hnot' : ∀ a, ¬ v.Playable actor a := fun a ha => hnot a ((h.playable horderly hidle a).mp ha)
    obtain ⟨hstage, hout, -⟩ := playActor_of_not hnot
    obtain ⟨hstage', hout', -⟩ := playActor_of_not hnot'
    have hnowhere : ∀ t ∈ s.live, t.engine ≠ .player actor := by
      cases horderly.standing actor with
      | idle _ _ tasks => exact tasks
      | busy status _ _ _ _ => simp [status, Status.busy, Status.idle] at hidle
    have hsame : Mirror actor s (v.playActor actor).stage := by
      rcases hstage' with hstage' | hstage'
      · rw [hstage']
        exact ⟨h.world, .through hnowhere h.ready h.sleepers⟩
      · rw [hstage']
        exact ⟨h.world, .through hnowhere h.ready h.sleepers⟩
    refine ⟨?_, by rw [hout, hout']⟩
    rcases hstage with hstage | hstage
    · rw [hstage]
      exact hsame
    · rw [hstage]
      exact hsame.congr ⟨rfl, rfl, fun _ _ => Iff.rfl, fun _ _ => Iff.rfl⟩
  · have hp' := (h.playable horderly hidle a).mpr hp
    have hw' : v.world.write actor startPatch = .ok (w.solo actor, said) := by
      rw [h.world, World.write_solo, hw]
      rfl
    rw [playActor_of_playable hp hw, playActor_of_playable hp' hw']
    refine ⟨⟨rfl, ?_⟩, rfl⟩
    refine .ready (t := ⟨.player actor, 1, .fresh⟩) rfl (by simp) ?_ h.sleepers ?_ h.now
    · simp [h.ready]
    · simp [retirePlayer, h.engines]

private theorem Mirror.playEach {actor : Int} {s v : Stage α} (h : Mirror actor s v) {actors : List Int}
    (hactors : actor ∉ actors) (time : α) :
    Mirror actor (playEach actors s).stage v ∧
      eventsOf actor ((playEach actors s).out.map (time, ·)) = [] := by
  induction actors generalizing s with
  | nil => exact ⟨h, rfl⟩
  | cons other actors ih =>
    simp only [List.mem_cons, not_or] at hactors
    obtain ⟨hsame, hout⟩ := playActor_sameFor hactors.1 s
    obtain ⟨hmirror, hrest⟩ := ih (h.congr hsame) hactors.2
    refine ⟨hmirror, ?_⟩
    simp only [Stage.playEach, List.map_append, eventsOf_append, hrest, List.append_nil]
    exact eventsOf_other (Ne.symm hactors.1) hout time

private theorem Blank.playEach {actor : Int} {s v : Stage α} (h : Blank actor s v) (horderly : s.Orderly)
    (hidle : s.world.status? actor = none ∨ s.world.status? actor = some .idle) {actors : List Int}
    (hnodup : actors.Nodup) (hactor : actor ∈ actors) (time : α) :
    Mirror actor (playEach actors s).stage (v.playActor actor).stage ∧
      eventsOf actor ((playEach actors s).out.map (time, ·)) =
        eventsOf actor ((v.playActor actor).out.map (time, ·)) := by
  induction actors generalizing s with
  | nil => simp at hactor
  | cons other actors ih =>
    obtain ⟨hfresh, hnodup⟩ := List.nodup_cons.mp hnodup
    by_cases hother : other = actor
    · subst hother
      obtain ⟨hmirror, hout⟩ := h.playActor horderly hidle
      obtain ⟨hlast, hrest⟩ := hmirror.playEach hfresh time
      refine ⟨hlast, ?_⟩
      simp only [Stage.playEach, List.map_append, eventsOf_append, hrest, List.append_nil, hout]
    · obtain ⟨hsame, hout⟩ := playActor_sameFor (Ne.symm hother) s
      have hblank : Blank actor (s.playActor other).stage v :=
        ⟨h.world.trans hsame.world.symm, h.now.trans hsame.now.symm, h.engines, h.ready, h.sleepers⟩
      have hrecord : (s.playActor other).stage.world.status? actor = s.world.status? actor := by
        have hget := congrArg (fun w => w.store.get? actor) hsame.world
        simp only [World.get?_solo] at hget
        simp only [World.status?, hget]
      have hmem : actor ∈ actors := by
        rcases List.mem_cons.mp hactor with heq | hmem
        · exact absurd heq.symm hother
        · exact hmem
      obtain ⟨hmirror, hrest⟩ := ih hblank (horderly.playActor other) (hrecord ▸ hidle) hnodup hmem
      refine ⟨hmirror, ?_⟩
      simp only [Stage.playEach, List.map_append, eventsOf_append, hrest]
      rw [eventsOf_other hother hout, List.nil_append]

omit [Timeline α] in
theorem playAll_stage (s : Stage α) : s.playAll.stage = (playEach s.store.ids s).stage := by
  unfold playAll
  dsimp only
  split <;> rfl

omit [Timeline α] in
theorem eventsOf_playAll (actor : Int) (s : Stage α) (time : α) :
    eventsOf actor (s.playAll.out.map (time, ·)) =
      eventsOf actor ((playEach s.store.ids s).out.map (time, ·)) := by
  unfold playAll
  dsimp only
  split
  · rfl
  · simp only [List.map_append, eventsOf_append]
    exact List.append_nil _

private theorem Mirror.playAll {actor : Int} {s : Stage α} (h : s.Orderly)
    (hidle : s.world.status? actor = none ∨ s.world.status? actor = some .idle) :
    Mirror actor s.playAll.stage (s.alone actor).playAll.stage ∧
      eventsOf actor (s.playAll.out.map (s.now, ·)) =
        eventsOf actor ((s.alone actor).playAll.out.map (s.now, ·)) := by
  have hblank : Blank actor s (s.alone actor) := ⟨rfl, rfl, rfl, rfl, rfl⟩
  have hnodup : s.store.ids.Nodup := h.ascending.sorted.imp fun hlt heq => by omega
  rw [playAll_stage, playAll_stage, eventsOf_playAll, eventsOf_playAll]
  by_cases hactor : actor ∈ s.store.ids
  · obtain ⟨a, ha⟩ := Option.isSome_iff_exists.mp (Store.isSome_get?.mpr hactor)
    have hids : (s.alone actor).store.ids = [actor] := by
      have hget : s.world.store.get? actor = some a := ha
      simp [store, alone, World.solo, hget, Store.ids, Store.get?_id ha]
    obtain ⟨hmirror, hsaid⟩ := hblank.playEach h hidle hnodup hactor s.now
    rw [hids]
    refine ⟨hmirror, ?_⟩
    rw [hsaid]
    simp only [Stage.playEach, reply, List.append_nil]
  · have hids : (s.alone actor).store.ids = [] := by
      have hget : s.world.store.get? actor = none := Store.get?_eq_none.mpr hactor
      simp [store, alone, World.solo, hget, Store.ids]
    have hnowhere : ∀ t ∈ s.live, t.engine ≠ .player actor := by
      cases h.standing actor with
      | idle _ _ tasks => exact tasks
      | busy status _ _ _ _ => simp [status, Status.busy, Status.idle] at hidle
    have hmirror : Mirror actor s (s.alone actor) := ⟨rfl, .through hnowhere rfl rfl⟩
    rw [hids]
    exact hmirror.playEach hactor s.now

omit [Timeline α] in
theorem playEach_sleepers (actors : List Int) (s : Stage α) :
    (playEach actors s).stage.now = s.now ∧ (playEach actors s).stage.sleepers = s.sleepers := by
  induction actors generalizing s with
  | nil => exact ⟨rfl, rfl⟩
  | cons actor actors ih =>
    have hfirst : (s.playActor actor).stage.now = s.now ∧
        (s.playActor actor).stage.sleepers = s.sleepers := by
      rcases playActor_cases s actor with hnot | ⟨a, w, said, hp, hw⟩
      · rcases (playActor_of_not hnot).1 with hstage | hstage
        · rw [hstage]
          exact ⟨rfl, rfl⟩
        · rw [hstage]
          exact ⟨rfl, rfl⟩
      · rw [playActor_of_playable hp hw]
        exact ⟨rfl, rfl⟩
    obtain ⟨hnow, hsleepers⟩ := ih (s.playActor actor).stage
    exact ⟨hnow.trans hfirst.1, hsleepers.trans hfirst.2⟩

omit [Timeline α] in
theorem Orderly.idle_of_not_playing {s : Stage α} (h : s.Orderly) (hidle : s.isPlaying = false) :
    (∀ actor, s.world.status? actor = none ∨ s.world.status? actor = some .idle) ∧
      s.sleepers = [] := by
  have hnobody : ∀ actor index message, s.world.status? actor ≠ some (.busy index message) := by
    intro actor index message hbusy
    have hruns := runs?_of_busy hbusy
    obtain ⟨a, ha, -⟩ := Option.map_eq_some_iff.mp hbusy
    have hrun : a.runs = true := by simpa [runs?, store, ha] using hruns
    simp only [isPlaying, Store.anyRunning, List.any_eq_false] at hidle
    exact hidle a (Store.mem_of_get? ha) hrun
  refine ⟨?_, ?_⟩
  · intro actor
    cases h.standing actor with
    | idle status _ _ => exact status
    | busy status _ _ _ _ => exact absurd status (hnobody actor _ _)
  · apply List.eq_nil_iff_forall_not_mem.mpr
    intro x hx
    have hlive : x.task ∈ s.live := List.mem_append_right _ (List.mem_map_of_mem hx)
    obtain ⟨⟨actor, hown⟩, -⟩ := h.tasks x.task hlive
    obtain ⟨index, message, hbusy, -, -⟩ := h.busy_of_task hlive hown
    exact hnobody actor index message hbusy

/-- What is told about an actor, and when, from the moment at which everybody is put into play. -/
def told (s : Stage α) (beats : List (Beat α)) (actor : Int) : List (α × Event α) :=
  eventsOf actor (s.playAll.out.map (s.now, ·) ++ (s.playAll.stage.follow beats).2)

/-- What is told about an actor, and when, if it is alone and runs for a number of ticks. -/
def toldAlone (s : Stage α) (ticks : Nat) (actor : Int) : List (α × Event α) :=
  eventsOf actor ((s.alone actor).playAll.out.map (s.now, ·) ++
    ((s.alone actor).playAll.stage.watch ticks).2)

/-- Let everybody be put into play at once on a stage where nobody runs, and let turns be given and time
move in any way in which no collision pass finds a pair to swap. Then what is told about an actor, with the
times, is the beginning of what is told when it runs alone from the same record, settings and time, and all
of that as soon as its run is over. -/
theorem told_prefix_toldAlone {s : Stage α} (h : Reachable s) (hidle : s.isPlaying = false)
    (htime : IsTime s.now) (beats : List (Beat α)) (hclock : ∀ time, .clock time ∈ beats → IsTime time)
    (hcalm : s.playAll.stage.calm beats = true) (actor : Int) :
    ∃ n, ∀ ticks ≥ n,
      s.told beats actor <+: s.toldAlone ticks actor ∧
      ((s.playAll.stage.follow beats).1.runs? actor = false →
        s.told beats actor = s.toldAlone ticks actor) := by
  have horderly := h.orderly
  obtain ⟨hstatus, hsleepers⟩ := horderly.idle_of_not_playing hidle
  have hpunctual : s.playAll.stage.Punctual := by
    rw [playAll_stage]
    obtain ⟨hnow, hsame⟩ := playEach_sleepers s.store.ids s
    exact ⟨hnow ▸ htime, by simp [hsame, hsleepers]⟩
  obtain ⟨hstart, hsaid⟩ := Mirror.playAll horderly (hstatus actor)
  obtain ⟨n, hmirror, hsaid'⟩ := hstart.follow (h.act .playAll) hpunctual hclock hcalm
  have hequal : s.told beats actor = s.toldAlone n actor := by
    simp only [told, toldAlone, eventsOf_append, hsaid, hsaid']
  refine ⟨n, ?_⟩
  intro ticks hticks
  obtain ⟨more, rfl⟩ := Nat.exists_eq_add_of_le hticks
  have hwatch := watch_add n more (s.alone actor).playAll.stage
  refine ⟨?_, ?_⟩
  · rw [hequal]
    simp only [toldAlone, hwatch, ← List.append_assoc, eventsOf_append]
    exact List.prefix_append _ _
  · intro hover
    -- The stage of the actor alone has nothing left to do.
    have hend : (s.playAll.stage.follow beats).1.Orderly := ((h.act .playAll).follow beats).orderly
    have hnone := hmirror.tick?_of_idle hend hover
    rw [hequal]
    simp only [toldAlone, hwatch, watch_of_none hnone, List.append_nil]

/-- A stage with two actors that have been told to wait, the second for longer. -/
def rehearsed : Stage Float :=
  ((new Settings.standard ⟨[], 0⟩).enact
    [.init, .addActor { x := .int 300, y := .int 200, look := .text "bg-red-500" },
      .submit 1 "wait" [("seconds", .int 1)] none,
      .submit 2 "wait" [("seconds", .int 2)] none]).1

/-- Both actors go to sleep; the first wakes, calls for a collision pass and comes to its end. -/
def rehearsal : List (Beat Float) := [.turn, .turn, .wake, .turn, .turn]

theorem rehearsed_told :
    (rehearsed.playAll.stage.follow rehearsal).1.store.running = [2] ∧
      (rehearsed.told rehearsal 1).length = 3 ∧
      ∃ n, ∀ ticks ≥ n, rehearsed.told rehearsal 1 = rehearsed.toldAlone ticks 1 := by
  have hreachable : Reachable rehearsed := (Reachable.empty (new_isEmpty _ _)).enact _
  have hnow : rehearsed.now = Scalar.zero := by decide +kernel
  have htime : IsTime rehearsed.now := by
    rw [hnow]
    trivial
  have hover : (rehearsed.playAll.stage.follow rehearsal).1.runs? 1 = false := by decide +kernel
  obtain ⟨n, hn⟩ := told_prefix_toldAlone hreachable (by decide +kernel) htime rehearsal
    (by simp [rehearsal]) (by decide +kernel) 1
  exact ⟨by decide +kernel, by decide +kernel, n, fun ticks hticks => (hn ticks hticks).2 hover⟩

end Stage

end SpriteStage
