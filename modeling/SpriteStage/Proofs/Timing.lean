import SpriteStage.Proofs.Outcome
import SpriteStage.Proofs.Lifecycle
import SpriteStage.Proofs.Updates
import SpriteStage.Scalar.Rational
import SpriteStage.Stage.Manual
/-! # Timing -/
namespace SpriteStage

variable {α : Type}

theorem Store.get?_of_alone {st : Store α} {b : Actor α} (h : st.actors = [b]) :
    st.get? b.id = some b := by
  simp [Store.get?, h]

theorem Store.eq_of_alone {st : Store α} {a b : Actor α} {actor : Int} (h : st.actors = [b])
    (ha : st.get? actor = some a) : a = b := by
  have hmem := Store.mem_of_get? ha
  rw [h] at hmem
  exact List.mem_singleton.mp hmem

variable [Scalar α]

theorem Place.passesBy_alone {w : World α} {b : Actor α} (h : w.store.actors = [b]) (place : Place α) :
    place.PassesBy w := by
  cases place with
  | turn loops index =>
    change (w.collide _).2.2 = _
    rw [World.collide_alone h]
  | fresh => trivial
  | asleep pause rest loops index => trivial

namespace Stage

/-- A stage on which one actor is alone and nothing goes on. -/
structure Lone (s : Stage α) (a : Actor α) : Prop where
  actors : s.store.actors = [a]
  engines : s.engines = []
  ready : s.ready = []
  sleepers : s.sleepers = []

/-- A stage on which an actor that is alone has just been sent off on a run, by play or by hand. -/
inductive SetsOut (a : Actor α) : EngineId → Stage α → Prop where
  | play {s : Stage α} (lone : s.Lone a) : SetsOut a (.player a.id) (s.playActor a.id).stage
  | byHand {s : Stage α} (lone : s.Lone a) : SetsOut a (.manual s.nextSerial)
      (((s.newEngine a.id).stage.beginEngine (.manual s.nextSerial)).stage.runEngine
        (.manual s.nextSerial))

/-- How far the run of an actor has come that is alone: it is suspended and will come to a record, or it has
ended, and if it is complete then the record is there. -/
inductive Underway (v : Venue α) (p : Program α) (final : Actor α) (id : EngineId) (s : Stage α) :
    Prop where
  | going {b : Actor α} {t : Task α} (venue : s.world.venue = v) (actors : s.store.actors = [b])
      (program : b.program = p) (engines : s.engines = [(id, .underWay b.id)]) (live : s.live = [t])
      (own : t.engine = id) (run : t.run = 1) (ahead : t.place.outcome v p b.lasting = final)
  | settled {b : Actor α} (actors : s.store.actors = [b]) (live : s.live = [])
      (whole : ∀ entry ∈ s.engines, entry.2.outcome = some .completed →
        b = { final with trail := b.trail })

variable {v : Venue α} {p : Program α} {final : Actor α} {id : EngineId}

/-- What is left by a resumption of an actor that is alone: the same actor, with the same program. -/
theorem resume_alone {w : World α} {b : Actor α} (hactors : w.store.actors = [b]) (now : α) (place : Place α) :
    ∃ b', (place.resume now b.id w).world.store.actors = [b'] ∧ b'.id = b.id ∧ b'.program = b.program := by
  have hids : (place.resume now b.id w).world.store.ids = [b.id] := by
    rw [(Place.frame_resume now b.id w place).ids, Store.ids, hactors, List.map_singleton]
  obtain ⟨b', halone, hid⟩ := List.map_eq_singleton_iff.mp hids
  have hget : (place.resume now b.id w).world.store.get? b.id = some b' := by
    rw [Store.get?, halone]
    simp [hid]
  have hprograms := Place.resume_programs now b.id w (place.passesBy_alone hactors) b.id
  rw [hget, Store.get?_of_alone hactors] at hprograms
  exact ⟨b', halone, hid, Option.some.inj hprograms⟩

private theorem resume_underway [Comparable α] {s : Stage α} {b : Actor α} {t : Task α}
    (hvenue : s.world.venue = v) (hactors : s.store.actors = [b]) (hprogram : b.program = p)
    (hengines : s.engines = [(id, .underWay b.id)]) (hlive : s.live = []) (hown : t.engine = id)
    (hrun : t.run = 1) (hahead : t.place.outcome v p b.lasting = final) :
    Underway v p final id (s.resume t).1 := by
  have hengine : s.engine? t.engine = some (.underWay b.id) := by
    rw [engine?, hengines, hown]
    simp
  obtain ⟨b', halone, hid, hsame⟩ := resume_alone hactors s.now t.place
  obtain ⟨c, hget, hcomes⟩ := Place.resume_comesTo s.now hactors t.place
  cases Store.eq_of_alone halone hget
  have hvenue' := (Place.frame_resume s.now b.id s.world t.place).venue.trans hvenue
  rw [hvenue, hprogram, hahead] at hcomes
  simp only [live, List.append_eq_nil_iff, List.map_eq_nil_iff] at hlive
  generalize hx : t.place.resume s.now b.id s.world = x at halone hget hvenue' hcomes
  rcases turn_cases hengine hrun hx (by rw [hget, Option.isSome_some]) with
    ⟨seconds, place, hhalt, hs⟩ | ⟨place, hhalt, hs⟩ | ⟨outcome, w, said, hhalt, hwrite, hs⟩
  · rw [hhalt] at hcomes
    rw [hs]
    exact .going hvenue' halone (hsame.trans hprogram) (by rw [hid]; exact hengines)
      (t := { t with place }) (by simp [live, hlive]) hown hrun hcomes
  · rw [hhalt] at hcomes
    rw [hs]
    exact .going hvenue' halone (hsame.trans hprogram) (by rw [hid]; exact hengines)
      (t := { t with place }) (by simp [live, hlive]) hown hrun hcomes
  · rw [hhalt] at hcomes
    obtain ⟨b'', hb'', rfl, -⟩ := World.write_eq_ok.mp hwrite
    cases hget.symm.trans hb''
    rw [hs]
    refine .settled (b := ((Engine.terminal outcome).normalise x.world.settings).apply b') ?_ ?_ ?_
    · simp [store, Store.replace, halone]
    · simp [live, hlive]
    · rintro entry hentry hcompleted
      have hended : entry = (id, .ended b.id outcome) := by
        simpa [setEntry, hengines, hown] using hentry
      subst hended
      cases Option.some.inj hcompleted
      have hfinal : b'.lasting = final := hcomes
      subst hfinal
      rfl

/-- No beat changes what the run of an actor comes to that is alone. -/
theorem beat_underway [Comparable α] {s : Stage α} (h : Underway v p final id s) (beat : Beat α) :
    Underway v p final id (s.beat beat).1 := by
  cases h with
  | @going b t venue actors program engines live own run ahead =>
    cases beat with
    | retire =>
      have hstays : s.retire.engines = s.engines := by
        unfold retire
        rw [engines]
        cases id <;> rfl
      exact .going venue actors program (hstays.trans engines) live own run ahead
    | clock time =>
      simp only [Stage.beat]
      split
      · exact .going venue actors program engines live own run ahead
      · exact .going venue actors program engines live own run ahead
    | wake =>
      simp only [Stage.beat]
      split
      · rename_i time hready _
        have hperm := (List.filter_append_perm (fun x => Scalar.eq x.wake time) s.sleepers).map
          (·.task)
        have hlive : (s.wakeAt time).live = [t] := by
          simp only [Stage.live, hready, List.nil_append] at live
          rw [live, List.perm_singleton] at hperm
          simpa only [Stage.live, wakeAt, hready, List.nil_append, ← List.map_append] using hperm
        exact .going venue actors program engines hlive own run ahead
      · exact .going venue actors program engines live own run ahead
    | turn =>
      simp only [Stage.beat]
      cases hready : s.ready with
      | nil => exact .going venue actors program engines live own run ahead
      | cons first rest =>
        simp only [Stage.live, hready, List.cons_append, List.cons.injEq] at live
        obtain ⟨rfl, hrest⟩ := live
        exact resume_underway (s := { s with ready := rest }) venue actors program engines hrest own run
          ahead
  | @settled b actors live whole =>
    have hnone := live
    simp only [Stage.live, List.append_eq_nil_iff, List.map_eq_nil_iff] at hnone
    cases beat with
    | retire => exact .settled actors live fun entry hentry => whole entry (List.mem_filter.mp hentry).1
    | clock time =>
      simp only [Stage.beat]
      split
      · exact .settled actors live whole
      · exact .settled actors live whole
    | wake =>
      simp only [Stage.beat, nextWake, hnone]
      exact .settled actors live whole
    | turn =>
      simp only [Stage.beat, hnone]
      exact .settled actors live whole

private theorem follow_underway [Comparable α] {s : Stage α} (h : Underway v p final id s)
    (beats : List (Beat α)) : Underway v p final id (s.follow beats).1 := by
  induction beats generalizing s with
  | nil => exact h
  | cons beat beats ih => exact ih (beat_underway h beat)

/-- An actor that has been sent off is on its way with one task that is ready, or it has not been sent off at all. -/
theorem SetsOut.cases {a : Actor α} {s : Stage α} (h : SetsOut a id s) :
    (s.store.actors = [a] ∧ s.engines = [] ∧ s.live = []) ∨
    ∃ b, s.store.actors = [b] ∧ b.lasting = a.lasting ∧ s.engines = [(id, .underWay a.id)] ∧
      s.ready = [⟨id, 1, .fresh⟩] ∧ s.sleepers = [] := by
  cases h with
  | @play s lone =>
    have hlive : s.live = [] := by simp [live, lone.ready, lone.sleepers]
    rcases playActor_cases s a.id with hnot | ⟨a', w, said, hp, hw⟩
    · have hstage : (s.playActor a.id).stage.world = s.world ∧ (s.playActor a.id).stage.engines = [] ∧
          (s.playActor a.id).stage.live = [] := by
        rcases (playActor_of_not hnot).1 with hs | hs
        · rw [hs]
          exact ⟨rfl, lone.engines, hlive⟩
        · rw [hs]
          exact ⟨rfl, by simp [retirePlayer, lone.engines], hlive⟩
      obtain ⟨hworld, hengines, hlive⟩ := hstage
      refine .inl ⟨?_, hengines, hlive⟩
      rw [store, hworld]
      exact lone.actors
    · cases Store.eq_of_alone lone.actors hp.found
      obtain ⟨a', ha', rfl, -⟩ := World.write_eq_ok.mp hw
      cases Store.eq_of_alone lone.actors ha'
      rw [playActor_of_playable hp hw]
      refine .inr ⟨(startPatch.normalise s.world.settings).apply a, ?_, rfl, ?_, ?_, ?_⟩
      · simp [store, Store.replace, show s.world.store.actors = [a] from lone.actors]
      · simp [retirePlayer, lone.engines]
      · simp [lone.ready]
      · exact lone.sleepers
  | @byHand s lone =>
    have hget : s.world.store.get? a.id = some a := Store.get?_of_alone lone.actors
    have hbegin : ({ actor := a.id } : Engine).begin s.world =
        ({ actor := a.id, phase := .running },
          .ok ({ s.world with
              store := s.world.store.replace ((startPatch.normalise s.world.settings).apply a) },
            [.event ⟨a.id, .wrote (startPatch.normalise s.world.settings) none⟩] ++
              [.notice (.running a.id)])) := by
      have hwrite := World.write_of_get? hget (startPatch : Patch α)
      unfold startPatch at hwrite
      simp only [Engine.begin, Phase.fire?, hwrite]
      rfl
    have hstage : ((s.newEngine a.id).stage.beginEngine (.manual s.nextSerial)).stage.runEngine
        (.manual s.nextSerial) =
        { s with
          world := { s.world with
            store := s.world.store.replace ((startPatch.normalise s.world.settings).apply a) }
          engines := [(.manual s.nextSerial, .underWay a.id)]
          ready := [⟨.manual s.nextSerial, 1, .fresh⟩]
          nextSerial := s.nextSerial + 1 } := by
      simp [newEngine, beginEngine, runEngine, reply, engine?, setEngine, lone.engines, lone.ready, hbegin,
        Engine.underWay]
    rw [hstage]
    refine .inr ⟨(startPatch.normalise s.world.settings).apply a, ?_, rfl, rfl, rfl, lone.sleepers⟩
    simp [store, Store.replace, show s.world.store.actors = [a] from lone.actors]

private theorem SetsOut.underway {a : Actor α} {s : Stage α} (h : SetsOut a id s) :
    Underway s.world.venue a.program (Program.outcome s.world.venue a.program a.lasting) id s := by
  rcases h.cases with ⟨hactors, hengines, hlive⟩ | ⟨b, hactors, hlasting, hengines, hready, hsleepers⟩
  · exact .settled hactors hlive (by simp [hengines])
  · have hid : b.id = a.id := by simpa using congrArg Actor.id hlasting
    have hprogram : b.program = a.program := by simpa using congrArg Actor.program hlasting
    refine .going (t := ⟨id, 1, .fresh⟩) rfl hactors hprogram (by rw [hid]; exact hengines) ?_ rfl rfl ?_
    · simp [live, hready, hsleepers]
    · rw [hlasting]
      rfl

private theorem completed_outcome [Comparable α] {a : Actor α} {s : Stage α} (h : SetsOut a id s)
    (beats : List (Beat α)) (hdone : ((s.follow beats).1.engine? id).bind (·.outcome) = some .completed) :
    ∃ b, (s.follow beats).1.store.actors = [b] ∧
      b = { Program.outcome s.world.venue a.program a.lasting with trail := b.trail } := by
  obtain ⟨e, he, houtcome⟩ := Option.bind_eq_some_iff.mp hdone
  have hmem := mem_of_lookup he
  cases follow_underway h.underway beats with
  | going venue actors program engines live own run ahead =>
    rw [engines, List.mem_singleton, Prod.mk.injEq] at hmem
    rw [hmem.2] at houtcome
    cases houtcome
  | @settled b actors live whole => exact ⟨b, actors, whole _ hmem houtcome⟩

/-- What a program leaves of an actor does not depend on time. If an actor sets out on a run of its program on
two stages, alone on both, and both runs are completed, then the records that they leave differ in the trail
at most. The stages have the same catalog and the same size; their speeds, frame intervals, trail lengths and
start times may be any. -/
theorem completed_runs_agree [Comparable α] {a : Actor α} {id₁ id₂ : EngineId} {s₁ s₂ : Stage α}
    (start₁ : SetsOut a id₁ s₁) (start₂ : SetsOut a id₂ s₂)
    (catalog : s₂.world.catalog = s₁.world.catalog) (width : s₂.settings.width = s₁.settings.width)
    (height : s₂.settings.height = s₁.settings.height) {beats₁ beats₂ : List (Beat α)}
    (done₁ : ((s₁.follow beats₁).1.engine? id₁).bind (·.outcome) = some .completed)
    (done₂ : ((s₂.follow beats₂).1.engine? id₂).bind (·.outcome) = some .completed) :
    ∃ b₁ b₂, (s₁.follow beats₁).1.store.actors = [b₁] ∧ (s₂.follow beats₂).1.store.actors = [b₂] ∧
      b₂ = { b₁ with trail := b₂.trail } := by
  have hvenue : s₂.world.venue = s₁.world.venue := by
    have hconfine : s₂.world.settings.confine = s₁.world.settings.confine := by
      funext point
      simp only [Settings.confine, show s₂.world.settings.width = _ from width,
        show s₂.world.settings.height = _ from height]
      rfl
    simp only [World.venue, catalog, hconfine]
  obtain ⟨b₁, hb₁, hleft₁⟩ := completed_outcome start₁ beats₁ done₁
  obtain ⟨b₂, hb₂, hleft₂⟩ := completed_outcome start₂ beats₂ done₂
  refine ⟨b₁, b₂, hb₁, hb₂, ?_⟩
  rw [hleft₁, hleft₂, hvenue]

instance : Comparable ℚ where
  eq_of_not_lt {x y} hxy hyx := by
    have hle : ¬ x < y := by simpa [Scalar.lt, Rational.smaller] using hxy
    have hge : ¬ y < x := by simpa [Scalar.lt, Rational.smaller] using hyx
    exact le_antisymm (not_lt.mp hge) (not_lt.mp hle)

/-- A stage with some measures and time on which an actor that is alone has a program of several kinds of
blocks. -/
def recital (settings : Settings ℚ) (now : ℚ) : Stage ℚ :=
  let s := ((new Settings.standard ⟨[], 0⟩).enact
    [.init, .submit 1 "repeat" [("times", .int 2)] none,
      .submit 1 "turn" [("degrees", .int 90)] (some "b1"),
      .submit 1 "move" [("steps", .int 40)] (some "b1"),
      .submit 1 "say" [("message", .text "Hi"), ("duration", .int 1)] none,
      .submit 1 "change_size" [("change", .int 20)] none]).1
  { s with world := { s.world with settings }, now }

/-- A stage with few frames and one that is fast, forgets more of its trails and starts later. -/
def slow : Stage ℚ := recital { Settings.standard with frameInterval := 1 / 2 } 0

@[inherit_doc slow]
def fast : Stage ℚ :=
  recital { Settings.standard with frameInterval := 1 / 5, speed := 4, maxTrail := 3 } 7

def untilDone : List (Beat ℚ) := (List.replicate 20 [.turn, .wake]).flatten

theorem slow_lone : ∃ a, slow.Lone a ∧ a.id = 1 := by
  have hids : slow.store.actors.map (·.id) = [1] := by decide +kernel
  have hquiet : slow.engines.isEmpty ∧ slow.ready.isEmpty ∧ slow.sleepers.isEmpty := by decide +kernel
  simp only [List.isEmpty_iff] at hquiet
  obtain ⟨a, ha, hid⟩ := List.map_eq_singleton_iff.mp hids
  exact ⟨a, ⟨ha, hquiet.1, hquiet.2.1, hquiet.2.2⟩, hid⟩

theorem recitals_agree :
    ∃ (a b₁ b₂ : Actor ℚ), SetsOut a (.player 1) (slow.playActor 1).stage ∧
      SetsOut a (.player 1) (fast.playActor 1).stage ∧
      ((slow.playActor 1).stage.follow untilDone).1.store.actors = [b₁] ∧
      ((fast.playActor 1).stage.follow untilDone).1.store.actors = [b₂] ∧
      b₂ = { b₁ with trail := b₂.trail } ∧ b₁.trail.length = 8 ∧ b₂.trail.length = 3 := by
  have hdone₁ : (((slow.playActor 1).stage.follow untilDone).1.engine? (.player 1)).bind (·.outcome) =
      some .completed := by
    decide +kernel
  have hdone₂ : (((fast.playActor 1).stage.follow untilDone).1.engine? (.player 1)).bind (·.outcome) =
      some .completed := by
    decide +kernel
  have htrail₁ : ((slow.playActor 1).stage.follow untilDone).1.store.actors.map (·.trail.length) = [8] := by
    decide +kernel
  have htrail₂ : ((fast.playActor 1).stage.follow untilDone).1.store.actors.map (·.trail.length) = [3] := by
    decide +kernel
  obtain ⟨a, hlone₁, hid⟩ := slow_lone
  -- The two stages differ in nothing but their settings and their time.
  have hlone₂ : fast.Lone a := ⟨hlone₁.actors, hlone₁.engines, hlone₁.ready, hlone₁.sleepers⟩
  have hout₁ : SetsOut a (.player 1) (slow.playActor 1).stage := hid ▸ .play hlone₁
  have hout₂ : SetsOut a (.player 1) (fast.playActor 1).stage := hid ▸ .play hlone₂
  obtain ⟨b₁, b₂, hb₁, hb₂, hsame⟩ :=
    completed_runs_agree hout₁ hout₂ rfl rfl rfl hdone₁ hdone₂
  rw [hb₁, List.map_singleton, List.singleton_inj] at htrail₁
  rw [hb₂, List.map_singleton, List.singleton_inj] at htrail₂
  exact ⟨a, b₁, b₂, hout₁, hout₂, hb₁, hb₂, hsame, htrail₁, htrail₂⟩

end Stage

end SpriteStage
