import SpriteStage.Proofs.Stopping
import SpriteStage.Scalar.Binary64
/-!
# The lifecycle of actors

Every act keeps the stage orderly: a beat moves one task on, putting an actor into play adds an
engine and a task for it, an editor touches only what idle actors have, and stopping takes engine
and task away.
-/
namespace SpriteStage

variable {α : Type}

namespace Roster

variable {w w' : World α} {engines : List (EngineId × Engine)} {live : List (Task α)}

private theorem started (h : Roster w engines live) {actor : Int} (hnone : engines.lookup (.player actor) = none)
    (hframe : World.SameFrame w w') {index : Int} (hbusy : w'.status? actor = some (.busy index .null))
    (hothers : ∀ id, id ≠ actor → w'.status? id = w.status? id) :
    Roster w' (engines ++ [(.player actor, .underWay actor)])
      (⟨.player actor, 1, .fresh⟩ :: live) := by
  have hfree : ∀ t ∈ live, t.engine ≠ .player actor := by
    cases h.standing actor with
    | idle _ _ tasks => exact tasks
    | busy _ engine _ _ _ => simp [hnone] at engine
  refine ⟨h.ascending.congr hframe.ids hframe.nextId, ?_, ?_, ?_, ?_, ?_⟩
  · intro id hid
    simp only [List.map_append, List.mem_append, List.map_cons, List.map_nil,
      List.mem_singleton] at hid
    rcases hid with hid | rfl
    · exact h.players id hid
    · exact ⟨actor, rfl⟩
  · rw [List.map_append, List.nodup_append]
    refine ⟨h.names, by simp, ?_⟩
    intro id hid j hj heq
    rw [List.map_cons, List.map_nil, List.mem_singleton] at hj
    rw [heq, hj] at hid
    exact lookup_eq_none.mp hnone hid
  · intro t ht
    rcases List.mem_cons.mp ht with rfl | ht
    · exact ⟨⟨actor, rfl⟩, rfl⟩
    · exact h.tasks t ht
  · rw [List.map_cons, List.nodup_cons]
    refine ⟨?_, h.single⟩
    intro hmem
    obtain ⟨t, ht, hown⟩ := List.mem_map.mp hmem
    exact hfree t ht hown
  · intro j
    by_cases hj : j = actor
    · subst hj
      refine .busy hbusy ?_ List.mem_cons_self rfl (.inl rfl)
      rw [List.lookup_append, hnone]
      simp
    · have hne : EngineId.player j ≠ .player actor := fun heq => hj (EngineId.player.inj heq)
      apply (h.standing j).congr (hothers j hj)
      · rw [List.lookup_append, List.lookup_cons, beq_false_of_ne hne]
        simp
      · intro t hown
        have htask : t ≠ ⟨.player actor, 1, .fresh⟩ := by
          rintro rfl
          exact hne hown.symm
        simp [htask]

private theorem vacant (h : w.store = Store.empty) : Roster w [] [] where
  ascending := by
    rw [h]
    exact ⟨.nil, by simp [Store.empty, Store.ids]⟩
  players := by simp
  names := .nil
  tasks := by simp
  single := .nil
  standing _ := .idle (.inl (by simp [World.status?, h, Store.empty, Store.get?])) (by simp) (by simp)

end Roster

variable [Scalar α]

namespace Store

/-- An actor as it is when it comes to a store. -/
structure Newcomer (st : Store α) (a : Actor α) : Prop where
  id : a.id = st.nextId
  status : a.status = .idle
  size : ∃ x, a.size = .real x
  program : a.program = []
  trail : a.trail = []

/-- Everything that can come of adding an actor: the id that was next is used up, and a new actor comes last. -/
theorem cast_cases (s : Settings α) (st : Store α) (d : Draws α) (c : Casting α) :
    (∃ d' cause, st.cast s d c = ({ st with nextId := st.nextId + 1 }, d', .error cause)) ∨
    ∃ d' a, st.cast s d c = (⟨st.actors ++ [a], st.nextId + 1⟩, d', .ok a) ∧ st.Newcomer a := by
  unfold cast
  dsimp only
  split
  · exact .inl ⟨_, _, rfl⟩
  · split
    · exact .inl ⟨_, _, rfl⟩
    · rename_i a ha
      unfold Actor.check at ha
      split at ha
      · cases ha
        exact .inr ⟨_, _, rfl, rfl, rfl, ⟨_, rfl⟩, rfl, rfl⟩
      · cases ha

omit [Scalar α] in
theorem get?_add {st : Store α} (h : st.Ascending) {a : Actor α} (ha : a.id = st.nextId) (next : Int)
    (id : Int) : get? ⟨st.actors ++ [a], next⟩ id =
      if id = st.nextId then some a else st.get? id := by
  simp only [get?, List.find?_append]
  by_cases hid : id = st.nextId
  · subst hid
    have hnone : st.get? st.nextId = none := by
      rw [get?_eq_none]
      intro hmem
      have hlt := h.below _ hmem
      omega
    simp only [get?] at hnone
    simp [hnone, ha]
  · have hne : (a.id == id) = false := by simp; omega
    simp [hid, hne]

omit [Scalar α] in
theorem Ascending.skip {st : Store α} (h : st.Ascending) :
    Ascending { st with nextId := st.nextId + 1 } :=
  ⟨h.sorted, fun id hid => by have hlt := h.below id hid; change id < st.nextId + 1; omega⟩

omit [Scalar α] in
theorem Ascending.add {st : Store α} (h : st.Ascending) {a : Actor α} (ha : a.id = st.nextId) :
    Ascending ⟨st.actors ++ [a], st.nextId + 1⟩ := by
  have hids : ids ⟨st.actors ++ [a], st.nextId + 1⟩ = st.ids ++ [st.nextId] := by
    simp [ids, ha]
  refine ⟨?_, ?_⟩
  · rw [hids, List.pairwise_append]
    refine ⟨h.sorted, by simp, ?_⟩
    intro id hid j hj
    rw [List.mem_singleton.mp hj]
    exact h.below id hid
  · intro id hid
    rw [hids, List.mem_append, List.mem_singleton] at hid
    rcases hid with hid | rfl
    · exact h.skip.below id hid
    · change st.nextId < st.nextId + 1
      omega

end Store

namespace Stage

private theorem Orderly.beat {s : Stage α} (h : s.Orderly) (b : Beat α) : (s.beat b).1.Orderly := by
  cases b with
  | retire => exact h.retire
  | turn =>
    simp only [Stage.beat]
    split
    · exact h
    · rename_i t rest hready
      exact resume_orderly (h.atTurn hready)
  | wake =>
    simp only [Stage.beat]
    split
    · rename_i time hready hnext
      apply Roster.perm h
      simp only [live, wakeAt, hready, List.nil_append, ← List.map_append]
      exact (List.filter_append_perm _ s.sleepers).symm.map _
    · exact h
  | clock time =>
    simp only [Stage.beat]
    split
    · exact h
    · exact h

structure Playable (s : Stage α) (actor : Int) (a : Actor α) : Prop where
  found : s.world.store.get? actor = some a
  program : a.program ≠ []
  idle : a.runs = false
  free : (s.retirePlayer actor).engines.lookup (.player actor) = none

def startPatch : Patch α := { isRunning := some (.bool true), stepIndex := some (.int 0) }

theorem playActor_of_playable {s : Stage α} {actor : Int} {a : Actor α} (h : s.Playable actor a)
    {w : World α} {said : List (Signal α)} (hw : s.world.write actor startPatch = .ok (w, said)) :
    s.playActor actor =
      ⟨{ s.retirePlayer actor with
          world := w
          engines := (s.retirePlayer actor).engines ++ [(.player actor, .underWay actor)]
          ready := s.ready ++ [⟨.player actor, 1, .fresh⟩] },
        said ++ [.notice (.running actor)], .ok true⟩ := by
  have hget : s.store.get actor = .ok a := Store.get_of_get? h.found
  have hprogram : a.program.isEmpty = false := by simpa using h.program
  have hfree : ((s.retirePlayer actor).engine? (.player actor)).isSome = false := by
    simp [engine?, h.free]
  have hbegin : ({ actor, runs := 1 } : Engine).begin (s.retirePlayer actor).world =
      (.underWay actor, .ok (w, said ++ [.notice (.running actor)])) := by
    change ({ actor, runs := 1 } : Engine).begin s.world = _
    unfold startPatch at hw
    simp only [Engine.begin, Phase.fire?, hw]
    rfl
  simp only [playActor, hget, hprogram, h.idle, hfree, Bool.or_self, Bool.false_eq_true, if_false,
    hbegin]
  rfl

theorem playActor_of_not {s : Stage α} {actor : Int} (h : ∀ a, ¬ s.Playable actor a) :
    ((s.playActor actor).stage = s ∨ (s.playActor actor).stage = s.retirePlayer actor) ∧
      (s.playActor actor).out = [] ∧ (s.playActor actor).result ≠ .ok true := by
  unfold playActor
  split
  · exact ⟨.inl rfl, rfl, by simp [refuse]⟩
  · rename_i a ha
    dsimp only
    split
    · exact ⟨.inr rfl, rfl, by simp [reply]⟩
    · rename_i hfree
      simp only [Bool.or_eq_true, not_or, Bool.not_eq_true, List.isEmpty_eq_false_iff,
        Option.isSome_eq_false_iff, Option.isNone_iff_eq_none] at hfree
      exact absurd ⟨Store.get_eq_ok.mp ha, hfree.1.1, hfree.1.2, hfree.2⟩ (h a)

theorem playActor_cases (s : Stage α) (actor : Int) :
    (∀ a, ¬ s.Playable actor a) ∨
    ∃ a w said, s.Playable actor a ∧ s.world.write actor startPatch = .ok (w, said) := by
  by_cases h : ∃ a, s.Playable actor a
  · obtain ⟨a, ha⟩ := h
    exact .inr ⟨a, _, _, ha, World.write_of_get? ha.found _⟩
  · exact .inl fun a ha => h ⟨a, ha⟩

omit [Scalar α] in
theorem Orderly.retirePlayer {s : Stage α} (h : s.Orderly) (actor : Int) :
    (s.retirePlayer actor).Orderly := by
  apply Roster.dismiss h
  intro j
  simp [isOver, Engine.underWay]

private theorem Playable.status {s : Stage α} {actor : Int} {a : Actor α} (hp : s.Playable actor a)
    (h : s.Orderly) : s.world.status? actor = some .idle := by
  cases h.standing actor with
  | idle status _ _ =>
    rcases status with hnone | hidle
    · simp [World.status?, hp.found] at hnone
    · exact hidle
  | busy status _ _ _ _ =>
    have hruns := runs?_of_busy status
    simp [runs?, store, hp.found, hp.idle] at hruns

theorem Orderly.playActor {s : Stage α} (h : s.Orderly) (actor : Int) :
    (s.playActor actor).stage.Orderly := by
  rcases playActor_cases s actor with hnot | ⟨a, w, said, hp, hw⟩
  · rcases (playActor_of_not hnot).1 with hs | hs
    · rw [hs]
      exact h
    · rw [hs]
      exact h.retirePlayer actor
  · rw [playActor_of_playable hp hw]
    have hbusy : w.status? actor = some (.busy 0 .null) := by
      rw [World.status?_write hw, if_pos rfl, hp.status h]
      rfl
    have hroster := Roster.started (h.retirePlayer actor) hp.free (World.frame_write hw) hbusy (by
      intro id hid
      rw [World.status?_write hw, if_neg hid]
      rfl)
    apply hroster.perm
    simp only [live, List.append_assoc, List.singleton_append]
    exact List.perm_middle.symm

private theorem Orderly.playEach {s : Stage α} (h : s.Orderly) (actors : List Int) :
    (playEach actors s).stage.Orderly := by
  induction actors generalizing s with
  | nil => exact h
  | cons actor actors ih => exact ih (h.playActor actor)

theorem Orderly.playAll {s : Stage α} (h : s.Orderly) : s.playAll.stage.Orderly := by
  unfold Stage.playAll
  dsimp only
  split
  · exact h.playEach _
  · exact h.playEach _

private theorem Orderly.cast {s : Stage α} (h : s.Orderly) (c : Casting α) : (s.cast c).stage.Orderly := by
  have hstage : (s.cast c).stage =
      { s.withStore (s.store.cast s.settings s.draws c).1 with
        draws := (s.store.cast s.settings s.draws c).2.1 } := by
    unfold Stage.cast
    dsimp only
    split
    · rfl
    · rfl
  rw [hstage]
  have hasc : s.store.Ascending := h.ascending
  rcases Store.cast_cases s.settings s.store s.draws c with ⟨d, cause, hcast⟩ | ⟨d, a, hcast, hnew⟩
  · rw [hcast]
    exact Roster.withWorld h hasc.skip fun _ => .inl rfl
  · rw [hcast]
    apply Roster.withWorld h (hasc.add hnew.id)
    intro actor
    simp only [World.status?, withStore, Store.get?_add hasc hnew.id]
    split
    · rename_i hactor
      have hnone : s.world.store.get? actor = none := by
        rw [Store.get?_eq_none]
        intro hmem
        have hlt := hasc.below actor hmem
        omega
      exact .inr ⟨.inl (by simp [hnone]), .inr (by simp [hnew.status])⟩
    · exact .inl rfl

private theorem Orderly.addActor {s : Stage α} (h : s.Orderly) (c : Casting α) :
    (s.addActor c).stage.Orderly := by
  unfold Stage.addActor
  dsimp only
  split
  · exact h.cast c
  · exact h.cast c

private theorem Orderly.init {s : Stage α} (h : s.Orderly) : s.init.stage.Orderly := by
  have hseed : s.seed.stage.Orderly := by
    unfold Stage.seed
    split
    · exact h.cast _
    · exact h
  unfold Stage.init
  dsimp only
  split
  · exact hseed
  · exact hseed

theorem editable_eq_ok {s : Stage α} {actor : Int} {a : Actor α} (h : s.editable actor = .ok a) :
    s.world.store.get? actor = some a ∧ a.runs = false := by
  obtain ⟨b, hb, h⟩ := bind_eq_ok h
  split at h
  · cases h
  · rename_i hruns
    cases h
    exact ⟨Store.get_eq_ok.mp hb, by simpa using hruns⟩

private theorem Orderly.deleteActor {s : Stage α} (h : s.Orderly) (actor : Int) :
    (s.deleteActor actor).stage.Orderly := by
  unfold Stage.deleteActor
  split
  · exact h
  · rename_i a ha
    obtain ⟨hget, hidle⟩ := editable_eq_ok ha
    apply Roster.withWorld h (h.ascending.erase actor)
    intro id
    by_cases hid : id = actor
    · subst hid
      refine .inr ⟨?_, .inl ?_⟩
      · cases h.standing id with
        | idle status _ _ => exact status
        | busy status _ _ _ _ =>
          have hruns := runs?_of_busy status
          simp [runs?, store, hget, hidle] at hruns
      · simp [World.status?, withStore, store, Store.get?_erase]
    · refine .inl ?_
      simp [World.status?, withStore, store, Store.get?_erase, hid]

omit [Scalar α] in
theorem Orderly.selectActor {s : Stage α} (h : s.Orderly) (actor : Int) :
    (s.selectActor actor).stage.Orderly := by
  unfold Stage.selectActor
  split
  · exact h
  · exact h

private theorem Orderly.commit {β : Type} {s : Stage α} (h : s.Orderly) (actor : Int) (p : Program α)
    (result : β) : (s.commit actor p result).stage.Orderly := by
  have hbodies : Store.SameBodies s.world.store (s.commit actor p result).stage.world.store :=
    Store.publish_bodies fun _ _ hw => Store.write_program_bodies hw
  apply Roster.withWorld h (h.ascending.congr hbodies.ids hbodies.nextId)
  intro id
  have hstatus := congrArg (Option.map Actor.status) (hbodies.body id)
  simp only [Option.map_map] at hstatus
  exact .inl hstatus

private theorem Orderly.editProgram {β : Type} {s : Stage α} (h : s.Orderly) (actor : Int)
    (f : Program α → Except Error (Program α × β)) : (s.editProgram actor f).stage.Orderly := by
  unfold Stage.editProgram
  split
  · exact h
  · exact h.commit _ _ _

private theorem Orderly.submit {s : Stage α} (h : s.Orderly) (actor : Int) (typeId : String)
    (inputs : Fields α) (parent : Option String) :
    (s.submit actor typeId inputs parent).stage.Orderly := by
  unfold Stage.submit
  split
  · exact h
  · exact Orderly.editProgram (s := { s with nextBlock := s.nextBlock + 1 }) h _ _

private theorem Orderly.duplicate {s : Stage α} (h : s.Orderly) (actor : Int) (block : String) :
    (s.duplicate actor block).stage.Orderly := by
  unfold Stage.duplicate
  split
  · exact h
  · rename_i next _
    exact Orderly.commit (s := { s with nextBlock := next }) h _ _ _

private theorem Orderly.stopActor {s : Stage α} (h : s.Orderly) (actor : Int) :
    (s.stopActor actor).stage.Orderly := by
  unfold Stage.stopActor
  split
  · exact h
  · exact h.stop (List.nodup_singleton actor)

private theorem Orderly.reset {s : Stage α} (h : s.Orderly) : s.reset.stage.Orderly := by
  have hstage := (stopAll_spec h).1
  have hengines : s.reset.stage.engines = [] := congrArg Stage.engines hstage
  have hlive : s.reset.stage.live = [] := congrArg Stage.live hstage
  rw [Orderly, hengines, hlive]
  exact Roster.vacant rfl

theorem Orderly.perform {s : Stage α} (h : s.Orderly) (a : Act α) : (s.perform a).1.Orderly := by
  cases a with
  | init => exact h.init
  | reset => exact h.reset
  | addActor casting => exact h.addActor casting
  | deleteActor actor => exact h.deleteActor actor
  | selectActor actor => exact h.selectActor actor
  | submit actor typeId inputs parent => exact h.submit actor typeId inputs parent
  | editInput actor block name value => exact h.editProgram _ _
  | reorder actor source target => exact h.editProgram _ _
  | removeBlock actor block => exact h.editProgram _ _
  | duplicate actor block => exact h.duplicate actor block
  | clearProgram actor => exact h.editProgram _ _
  | playAll => exact h.playAll
  | playActor actor => exact h.playActor actor
  | stopAll => exact h.stop h.players_nodup
  | stopActor actor => exact h.stopActor actor
  | beat b => exact h.beat b

theorem Reachable.orderly {s : Stage α} (h : Reachable s) : s.Orderly := by
  induction h with
  | empty hempty =>
    have hroster := Roster.vacant hempty.store
    rw [Orderly, live, hempty.engines, hempty.ready, hempty.sleepers]
    exact hroster
  | act _ a ih => exact ih.perform a

/-- An actor has one engine, which is under way, and one live task. -/
def InPlay (s : Stage α) (actor : Int) : Prop :=
  ∃ e t, s.engines.filter (·.1 = .player actor) = [(.player actor, e)] ∧ e.actor = actor ∧
    e.phase = .running ∧ s.live.filter (·.engine = .player actor) = [t]

omit [Scalar α] in
theorem filter_name_eq {l : List (EngineId × Engine)} (h : (l.map (·.1)).Nodup) {id : EngineId}
    {e : Engine} (he : l.lookup id = some e) : l.filter (·.1 = id) = [(id, e)] := by
  induction l with
  | nil => simp at he
  | cons entry l ih =>
    obtain ⟨i, x⟩ := entry
    simp only [List.map_cons, List.nodup_cons] at h
    by_cases hi : i = id
    · subst hi
      have hx : x = e := by simpa using he
      have hrest : l.filter (·.1 = i) = [] := by
        rw [List.filter_eq_nil_iff]
        intro other hother heq
        exact h.1 (List.mem_map.mpr ⟨other, hother, by simpa using heq⟩)
      simp [hrest, hx]
    · rw [List.lookup_cons, beq_false_of_ne (Ne.symm hi)] at he
      simp [hi, ih h.2 he]

omit [Scalar α] in
theorem filter_engine_eq {l : List (Task α)} (h : (l.map (·.engine)).Nodup) {t : Task α} (ht : t ∈ l) :
    l.filter (·.engine = t.engine) = [t] := by
  induction l with
  | nil => simp at ht
  | cons x l ih =>
    simp only [List.map_cons, List.nodup_cons] at h
    rcases List.mem_cons.mp ht with rfl | ht
    · have hrest : l.filter (·.engine = t.engine) = [] := by
        rw [List.filter_eq_nil_iff]
        intro other hother heq
        exact h.1 (List.mem_map.mpr ⟨other, hother, by simpa using heq⟩)
      simp [hrest]
    · have hne : x.engine ≠ t.engine := by
        intro heq
        exact h.1 (heq ▸ List.mem_map_of_mem ht)
      simp [hne, ih h.2 ht]

omit [Scalar α] in
theorem Orderly.inPlay {s : Stage α} (h : s.Orderly) {actor : Int} {t : Task α}
    (hengine : s.engines.lookup (.player actor) = some (.underWay actor)) (ht : t ∈ s.live)
    (hown : t.engine = .player actor) : s.InPlay actor :=
  ⟨.underWay actor, t, filter_name_eq h.names hengine, rfl, rfl, hown ▸ filter_engine_eq h.single ht⟩

/-- On every reachable stage an actor is marked as running exactly as long as it is at a step, and exactly
as long as it is in play; an idle actor shows no message. Every live task is the only one of an actor that
runs. -/
theorem running_iff_inPlay {s : Stage α} (h : Reachable s) :
    (∀ a ∈ s.store.actors,
      (a.isRunning = .bool true ∨ a.isRunning = .bool false) ∧
      (a.isRunning = .bool true ↔ a.stepIndex ≠ .null) ∧
      (a.stepIndex ≠ .null ↔ s.InPlay a.id) ∧
      (a.isRunning = .bool false → a.message = .null)) ∧
    (∀ t ∈ s.live, ∃ a ∈ s.store.actors, t.engine = .player a.id ∧ a.isRunning = .bool true) ∧
    (s.live.map (·.engine)).Nodup := by
  have horderly := h.orderly
  refine ⟨?_, ?_, horderly.single⟩
  · intro a ha
    have hget : s.world.store.get? a.id = some a := Store.get?_of_mem horderly.ascending ha
    cases horderly.standing a.id with
    | idle status engine tasks =>
      have hidle : a.status = .idle := by simpa [World.status?, hget] using status
      simp only [Actor.status, Status.idle, Status.mk.injEq] at hidle
      obtain ⟨hrunning, hindex, hmessage⟩ := hidle
      have hout : ¬ s.InPlay a.id := by
        rintro ⟨e, t, -, -, -, htask⟩
        have hmem : t ∈ s.live.filter (·.engine = .player a.id) := by simp [htask]
        obtain ⟨ht, hown⟩ := List.mem_filter.mp hmem
        exact tasks t ht (by simpa using hown)
      simp [hrunning, hindex, hmessage, hout]
    | busy status engine task own shown =>
      rename_i index message t
      have hbusy : a.status = .busy index message := by simpa [World.status?, hget] using status
      simp only [Actor.status, Status.busy, Status.mk.injEq] at hbusy
      obtain ⟨hrunning, hindex, -⟩ := hbusy
      simp [hrunning, hindex, horderly.inPlay engine task own]
  · intro t ht
    obtain ⟨⟨actor, hown⟩, -⟩ := horderly.tasks t ht
    obtain ⟨index, message, hstatus, -, -⟩ := horderly.busy_of_task ht hown
    obtain ⟨a, ha, hbusy⟩ := Option.map_eq_some_iff.mp hstatus
    refine ⟨a, Store.mem_of_get? ha, ?_, congrArg Status.isRunning hbusy⟩
    rw [hown, Store.get?_id ha]

/-- A stage on which the first actor has been told to wait, and has been put into play. -/
def waiting : Stage Float :=
  ((new Settings.standard ⟨[], 0⟩).enact
    [.init, .submit 1 "wait" [("seconds", .int 2)] none, .playAll]).1

theorem waiting_reachable : Reachable waiting :=
  (Reachable.empty (new_isEmpty _ _)).enact _

theorem waiting_inPlay : waiting.store.running = [1] ∧ waiting.InPlay 1 := by
  have hrunning : waiting.store.running = [1] := by decide +kernel
  have hone : 1 ∈ waiting.store.running := by simp [hrunning]
  obtain ⟨a, hmem, hid⟩ := List.mem_map.mp hone
  obtain ⟨ha, hruns⟩ := List.mem_filter.mp hmem
  obtain ⟨hflag, hindex, hplay, -⟩ := (running_iff_inPlay waiting_reachable).1 a ha
  have htrue : a.isRunning = .bool true := by
    rcases hflag with htrue | hfalse
    · exact htrue
    · simp [Actor.runs, hfalse, Value.isGiven] at hruns
  exact ⟨hrunning, hid ▸ hplay.mp (hindex.mp htrue)⟩

end Stage

end SpriteStage
