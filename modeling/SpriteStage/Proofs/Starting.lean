import SpriteStage.Proofs.Landmarks
import SpriteStage.Proofs.Lifecycle
/-!
# Starting the play

An actor can be started if it is idle and has a program. On an orderly stage the third never
decides: an engine that is still there for an idle actor is one whose run is over, and it is taken
off first.
-/
namespace SpriteStage

variable {α : Type}

namespace Actor

def started (a : Actor α) : Actor α :=
  { a with isRunning := .bool true, stepIndex := .int 0 }

variable [Scalar α]

def startable (a : Actor α) : Bool := !a.runs && !a.program.isEmpty

@[simp]
theorem startable_started (a : Actor α) : a.started.startable = false := by
  simp [startable, started, runs, Value.isGiven]

/-- A record after its actor was called on, if it is one of those that are. -/
def calledOn (actors : List Int) (a : Actor α) : Actor α :=
  if actors.contains a.id && a.startable then a.started else a

@[simp]
theorem id_calledOn (actors : List Int) (a : Actor α) : (a.calledOn actors).id = a.id := by
  unfold calledOn
  split <;> rfl

private theorem calledOn_of_mem {actors : List Int} {a : Actor α} (h : a.id ∈ actors) :
    a.calledOn actors = if a.startable then a.started else a := by
  simp [calledOn, h]

private theorem calledOn_of_not_mem {actors : List Int} {a : Actor α} (h : a.id ∉ actors) :
    a.calledOn actors = a := by
  simp [calledOn, h]

private theorem calledOn_calledOn (actors more : List Int) (a : Actor α) :
    (a.calledOn actors).calledOn more = a.calledOn (actors ++ more) := by
  by_cases hfirst : a.id ∈ actors
  · by_cases hstart : a.startable = true <;> simp [calledOn, hfirst, hstart]
  · simp [calledOn, hfirst]

end Actor

namespace Stage

/-- The engines without those of some actors whose runs are over. -/
def relieved (actors : List Int) (engines : List (EngineId × Engine)) : List (EngineId × Engine) :=
  engines.filter fun entry => !(isOver entry && actors.any fun actor => entry.1 == .player actor)

private theorem relieved_append (actors : List Int) (engines more : List (EngineId × Engine)) :
    relieved actors (engines ++ more) = relieved actors engines ++ relieved actors more :=
  List.filter_append _ _

private theorem relieved_underWay (actors chosen : List Int) :
    relieved actors (chosen.map fun actor => (.player actor, .underWay actor)) =
      chosen.map fun actor => (.player actor, .underWay actor) := by
  rw [relieved, List.filter_eq_self]
  intro entry hentry
  obtain ⟨actor, -, rfl⟩ := List.mem_map.mp hentry
  rfl

private theorem relieved_relieved (actors more : List Int) (engines : List (EngineId × Engine)) :
    relieved more (relieved actors engines) = relieved (actors ++ more) engines := by
  rw [relieved, relieved, relieved, List.filter_filter]
  apply List.filter_congr
  intro entry _
  cases isOver entry <;> simp [Bool.and_comm]

variable [Scalar α]

def canStart (s : Stage α) (actor : Int) : Bool := (s.store.get? actor).any Actor.startable

/-- What is told when an actor is started. -/
def greeting (actor : Int) : List (Signal α) := [.event (.opening actor), .notice (.running actor)]

/-- The stage after some actors were called on to start. Those who can have their records marked, an engine
and a task, and none of them has an engine left whose run is over. -/
def calledOn (s : Stage α) (actors : List Int) : Stage α :=
  { s with
    world := { s.world with
      store := { s.store with actors := s.store.actors.map (·.calledOn actors) } }
    engines := relieved actors s.engines ++
      (actors.filter s.canStart).map fun actor => (.player actor, .underWay actor)
    ready := s.ready ++ (actors.filter s.canStart).map fun actor => ⟨.player actor, 1, .fresh⟩ }

private theorem ids_calledOn (s : Stage α) (actors : List Int) : (s.calledOn actors).store.ids = s.store.ids := by
  simp [calledOn, store, Store.ids, Function.comp_def]

private theorem get?_calledOn (s : Stage α) (actors : List Int) (id : Int) :
    (s.calledOn actors).store.get? id = (s.store.get? id).map (·.calledOn actors) := by
  simp only [calledOn, store, Store.get?, List.find?_map, Function.comp_def, Actor.id_calledOn]

private theorem canStart_calledOn (s : Stage α) (actors : List Int) {id : Int} (hid : id ∉ actors) :
    (s.calledOn actors).canStart id = s.canStart id := by
  unfold canStart
  rw [get?_calledOn]
  cases ha : s.store.get? id with
  | none => rfl
  | some a =>
    rw [← Store.get?_id ha] at hid
    rw [Option.map_some, Actor.calledOn_of_not_mem hid]

private theorem canStart_again (s : Stage α) (actors : List Int) {id : Int} (hid : id ∈ actors) :
    (s.calledOn actors).canStart id = false := by
  unfold canStart
  rw [get?_calledOn]
  cases ha : s.store.get? id with
  | none => rfl
  | some a =>
    rw [← Store.get?_id ha] at hid
    rw [Option.map_some, Actor.calledOn_of_mem hid]
    by_cases hstart : a.startable = true <;> simp [hstart]

/-- Calls one after the other come to one call. -/
theorem calledOn_calledOn (s : Stage α) {actors more : List Int} (h : ∀ id ∈ more, id ∉ actors) :
    (s.calledOn actors).calledOn more = s.calledOn (actors ++ more) := by
  have hcan : more.filter (s.calledOn actors).canStart = more.filter s.canStart :=
    List.filter_congr fun id hid => s.canStart_calledOn actors (h id hid)
  have hrecords : (s.store.actors.map (·.calledOn actors)).map (·.calledOn more) =
      s.store.actors.map (·.calledOn (actors ++ more)) := by
    rw [List.map_map]
    exact List.map_congr_left fun a _ => a.calledOn_calledOn actors more
  rw [calledOn, hcan]
  simp only [store] at hrecords
  simp only [calledOn, store, hrecords, relieved_append, relieved_relieved, relieved_underWay,
    List.filter_append, List.map_append, List.append_assoc]

private theorem calledOn_eq_self {s : Stage α} {actors : List Int}
    (hrecords : ∀ a ∈ s.store.actors, a.calledOn actors = a)
    (hengines : relieved actors s.engines = s.engines) (hnone : actors.filter s.canStart = []) :
    s.calledOn actors = s := by
  have hsame : s.world.store.actors.map (·.calledOn actors) = s.world.store.actors :=
    (List.map_congr_left hrecords).trans s.store.actors.map_id
  simp only [calledOn, store, hsame, hengines, hnone, List.map_nil, List.append_nil]

private theorem calledOn_nil (s : Stage α) : s.calledOn [] = s :=
  calledOn_eq_self (fun _ _ => Actor.calledOn_of_not_mem (by simp)) (by simp [relieved]) rfl

private theorem calledOn_again (s : Stage α) (actors : List Int) :
    (s.calledOn actors).calledOn actors = s.calledOn actors := by
  apply calledOn_eq_self
  · intro a ha
    obtain ⟨b, -, rfl⟩ := List.mem_map.mp ha
    rw [Actor.calledOn_calledOn]
    simp [Actor.calledOn]
  · simp only [calledOn, relieved_append, relieved_relieved, relieved_underWay]
    simp [relieved]
  · rw [List.filter_eq_nil_iff]
    intro id hid
    simp [s.canStart_again actors hid]

/-- No engine keeps an idle actor from being started: one that is still there has ended. -/
theorem Orderly.free_of_idle {s : Stage α} (h : s.Orderly) {actor : Int} {a : Actor α}
    (ha : s.store.get? actor = some a) (hidle : a.runs = false) :
    (s.retirePlayer actor).engines.lookup (.player actor) = none := by
  cases h.standing actor with
  | idle _ engine _ =>
    -- The engine that an idle actor may have has ended, and such an engine is taken off.
    rw [Stage.retirePlayer, lookup_filter h.names]
    cases he : s.engines.lookup (.player actor) with
    | none => rfl
    | some e =>
      obtain ⟨outcome, rfl⟩ := engine e he
      simp [isOver, Engine.ended]
  | busy status _ _ _ _ =>
    have hruns := runs?_of_busy status
    simp [runs?, ha, hidle] at hruns

omit [Scalar α] in
theorem retirePlayer_engines (s : Stage α) (actor : Int) :
    (s.retirePlayer actor).engines = relieved [actor] s.engines := by
  simp [retirePlayer, relieved]

private theorem Orderly.records_calledOn {s : Stage α} (h : s.Orderly) {actor : Int} {a : Actor α}
    (ha : s.store.get? actor = some a) :
    s.store.actors.map (·.calledOn [actor]) =
      if a.startable then (s.store.replace a.started).actors else s.store.actors := by
  have hid : a.id = actor := Store.get?_id ha
  have hown : a.calledOn [actor] = if a.startable then a.started else a :=
    Actor.calledOn_of_mem (by simp [hid])
  have hsame : ∀ b ∈ s.store.actors, b.id = actor → b = a := by
    intro b hb hother
    have hget := Store.get?_of_mem h.ascending hb
    rw [hother] at hget
    exact Option.some.inj (hget.symm.trans ha)
  have hrecord : ∀ b ∈ s.store.actors,
      b.calledOn [actor] = if b.id = actor then (if a.startable then a.started else a) else b := by
    intro b hb
    by_cases hother : b.id = actor
    · rw [if_pos hother, hsame b hb hother, hown]
    · rw [if_neg hother, Actor.calledOn_of_not_mem (by simpa using hother)]
  rw [List.map_congr_left hrecord]
  cases hstart : a.startable with
  | true =>
    simp only [if_true, ← hid]
    rfl
  | false =>
    rw [if_neg (by simp), if_neg (by simp), List.map_congr_left (g := id), List.map_id]
    intro b hb
    by_cases hother : b.id = actor
    · rw [if_pos hother, hsame b hb hother, id]
    · rw [if_neg hother, id]

private theorem Orderly.playActor_eq {s : Stage α} (h : s.Orderly) {actor : Int} (hactor : actor ∈ s.store.ids) :
    s.playActor actor =
      ⟨s.calledOn [actor], if s.canStart actor then greeting actor else [], .ok (s.canStart actor)⟩ := by
  obtain ⟨a, ha⟩ := Option.isSome_iff_exists.mp (Store.isSome_get?.mpr hactor)
  have hcan : s.canStart actor = a.startable := by simp [canStart, ha]
  have hrecords := h.records_calledOn ha
  cases hstart : a.startable with
  | true =>
    have hgrounds := hstart
    simp only [Actor.startable, Bool.and_eq_true, Bool.not_eq_true', List.isEmpty_eq_false_iff] at hgrounds
    have hplayable : s.Playable actor a :=
      ⟨ha, hgrounds.2, hgrounds.1, h.free_of_idle ha hgrounds.1⟩
    rw [hstart, if_pos rfl] at hrecords
    rw [playActor_of_playable hplayable (World.write_of_get? ha startPatch), retirePlayer_engines]
    simp only [calledOn, hcan, hstart, hrecords, List.filter_cons, List.filter_nil, List.map_cons,
      List.map_nil, if_true]
    rfl
  | false =>
    have hrefused : (a.program.isEmpty || a.runs) = true := by
      simp only [Actor.startable, Bool.and_eq_false_iff, Bool.not_eq_false'] at hstart
      simpa using hstart.symm
    rw [hstart, if_neg (by simp)] at hrecords
    simp only [Stage.playActor, Store.get_of_get? ha, hrefused, Bool.true_or, if_true]
    simp only [reply, calledOn, hcan, hstart, hrecords, List.filter_cons, List.filter_nil, List.map_nil,
      List.append_nil, Bool.false_eq_true, if_false, ← retirePlayer_engines]
    rfl

private theorem Orderly.playEach_eq {s : Stage α} (h : s.Orderly) {actors : List Int} (hnodup : actors.Nodup)
    (hactors : ∀ id ∈ actors, id ∈ s.store.ids) :
    Stage.playEach actors s =
      ⟨s.calledOn actors, (actors.filter s.canStart).flatMap greeting, actors.filter s.canStart⟩ := by
  induction actors generalizing s with
  | nil =>
    rw [s.calledOn_nil]
    rfl
  | cons actor actors ih =>
    obtain ⟨hfresh, hnodup⟩ := List.nodup_cons.mp hnodup
    have hfirst := h.playActor_eq (hactors actor List.mem_cons_self)
    have horderly : (s.calledOn [actor]).Orderly := by
      have hnext := h.playActor actor
      rwa [hfirst] at hnext
    have hapart : ∀ id ∈ actors, id ∉ [actor] := by
      intro id hid heq
      rw [List.mem_singleton.mp heq] at hid
      exact hfresh hid
    have hrest := ih horderly hnodup fun id hid => by
      rw [ids_calledOn]
      exact hactors id (List.mem_cons_of_mem _ hid)
    -- The first call decides nothing for the others, so all are judged by the stage before it.
    have hcan : actors.filter (s.calledOn [actor]).canStart = actors.filter s.canStart :=
      List.filter_congr fun id hid => s.canStart_calledOn [actor] (hapart id hid)
    rw [s.calledOn_calledOn hapart, hcan] at hrest
    simp only [Stage.playEach, hfirst, hrest, List.filter_cons]
    cases s.canStart actor with
    | true => rfl
    | false => rfl

private theorem enact_playActor (actors : List Int) (s : Stage α) :
    s.enact (actors.map .playActor) = ((playEach actors s).stage, (playEach actors s).out) := by
  induction actors generalizing s with
  | nil => rfl
  | cons actor actors ih =>
    simp only [List.map_cons, enact, ih]
    rfl

def startable (s : Stage α) : List Int := (s.store.actors.filter Actor.startable).map (·.id)

private theorem Orderly.filter_canStart {s : Stage α} (h : s.Orderly) :
    s.store.ids.filter s.canStart = s.startable := by
  rw [Store.ids, List.filter_map, startable]
  congr 1
  apply List.filter_congr
  intro a ha
  have hget : s.store.get? a.id = some a := Store.get?_of_mem h.ascending ha
  simp [canStart, hget]

private theorem Orderly.playEach_ids {s : Stage α} (h : s.Orderly) :
    Stage.playEach s.store.ids s = ⟨s.calledOn s.store.ids, s.startable.flatMap greeting, s.startable⟩ := by
  have hnodup : s.store.ids.Nodup := h.ascending.sorted.imp fun hlt heq => by omega
  rw [h.playEach_eq hnodup fun _ hid => hid, h.filter_canStart]

private theorem Orderly.calledOn_ids {s : Stage α} (h : s.Orderly) : s.calledOn s.store.ids =
    { s with
      world := { s.world with
        store := { s.store with
          actors := s.store.actors.map fun a => if a.startable then a.started else a } }
      engines := relieved s.store.ids s.engines ++
        s.startable.map fun actor => (.player actor, .underWay actor)
      ready := s.ready ++ s.startable.map fun actor => ⟨.player actor, 1, .fresh⟩ } := by
  have hrecords : s.store.actors.map (·.calledOn s.store.ids) =
      s.store.actors.map fun a => if a.startable then a.started else a :=
    List.map_congr_left fun a ha => Actor.calledOn_of_mem (List.mem_map_of_mem ha)
  simp only [calledOn, h.filter_canStart, hrecords]

omit [Scalar α] in
theorem events_greeting (actors : List Int) :
    Signal.events (actors.flatMap greeting : List (Signal α)) = actors.map Event.opening := by
  induction actors with
  | nil => rfl
  | cons actor actors ih =>
    rw [List.flatMap_cons, Signal.events_append, ih]
    rfl

private theorem Orderly.playAll_eq {s : Stage α} (h : s.Orderly) :
    s.playAll = ⟨s.calledOn s.store.ids,
      s.startable.flatMap greeting ++ if s.startable = [] then [] else [.notice (.started s.startable)],
      s.startable⟩ := by
  unfold Stage.playAll
  rw [h.playEach_ids]
  by_cases hnone : s.startable = []
  · simp [hnone]
  · simp [hnone]

private theorem Orderly.playAll_inPlay {s : Stage α} (h : s.Orderly) {actor : Int} (hactor : actor ∈ s.startable) :
    s.playAll.stage.InPlay actor := by
  have hstage : s.playAll.stage = s.calledOn s.store.ids := by rw [h.playAll_eq]
  have horderly := h.playAll
  rw [hstage] at horderly ⊢
  have hengine : (EngineId.player actor, Engine.underWay actor) ∈ (s.calledOn s.store.ids).engines := by
    rw [h.calledOn_ids]
    simpa using .inr hactor
  have htask : (⟨.player actor, 1, .fresh⟩ : Task α) ∈ (s.calledOn s.store.ids).live := by
    rw [h.calledOn_ids]
    simp [live, hactor]
  exact horderly.inPlay (lookup_of_mem horderly.names hengine) htask rfl

/-- On every reachable stage, whatever has finished, failed or been stopped on it, playing starts exactly the
idle actors with a program, in ascending order. Each has its record marked and told once, and is in play with
one task, which waits behind all others; nothing else changes but that engines leave whose runs are over. This
is what calling on all actors in ascending order does, and playing again does nothing. -/
theorem playAll_starts_startable {s : Stage α} (h : Reachable s) :
    s.playAll.result = s.startable ∧ s.store.ids.Pairwise (· < ·) ∧ s.startable.Pairwise (· < ·) ∧
      s.playAll.stage =
        { s with
          world := { s.world with
            store := { s.store with
              actors := s.store.actors.map fun a => if a.startable then a.started else a } }
          engines := relieved s.store.ids s.engines ++
            s.startable.map fun actor => (.player actor, .underWay actor)
          ready := s.ready ++ s.startable.map fun actor => ⟨.player actor, 1, .fresh⟩ } ∧
      (∀ actor ∈ s.startable, s.playAll.stage.InPlay actor) ∧
      Signal.events s.playAll.out = s.startable.map Event.opening ∧
      (s.enact (s.store.ids.map .playActor)).1 = s.playAll.stage ∧
      Signal.events (s.enact (s.store.ids.map .playActor)).2 = Signal.events s.playAll.out ∧
      s.playAll.stage.playAll = s.playAll.stage.reply [] := by
  have horderly := h.orderly
  have hplay := horderly.playAll_eq
  have hevents : Signal.events s.playAll.out = s.startable.map Event.opening := by
    rw [hplay, Signal.events_append, events_greeting]
    split <;> simp [Signal.events, Signal.event?]
  have hcalls : s.enact (s.store.ids.map .playActor) =
      (s.calledOn s.store.ids, s.startable.flatMap greeting) := by
    rw [enact_playActor, horderly.playEach_ids]
  refine ⟨by rw [hplay], horderly.ascending.sorted, ?_, ?_, fun actor => horderly.playAll_inPlay, hevents, ?_, ?_, ?_⟩
  · exact horderly.ascending.sorted.sublist (List.filter_sublist.map _)
  · rw [hplay, horderly.calledOn_ids]
  · rw [hcalls, hplay]
  · rw [hcalls, hevents, events_greeting]
  · -- The stage afterwards is orderly too, and nobody on it can be started.
    have hagain := horderly.playAll.playAll_eq
    have hnone : s.playAll.stage.startable = [] := by
      rw [← horderly.playAll.filter_canStart, hplay, ids_calledOn, List.filter_eq_nil_iff]
      intro id hid
      simp [s.canStart_again _ hid]
    rw [hagain, hnone, hplay, ids_calledOn, calledOn_again]
    rfl

/-- One actor sleeps, one has finished its run, one was stopped and one has failed. -/
def assorted : Stage Float :=
  ((new Settings.standard ⟨[], 0⟩).enact
    [.init, .addActor {}, .addActor {}, .addActor {}, .submit 1 "wait" [("seconds", .int 5)] none,
      .submit 2 "set_color" [] none, .submit 4 "wait" [("seconds", .int (Nat.pow 10 400))] none, .playActor 1,
      .playActor 2, .playActor 4, .beat .turn, .beat .turn, .beat .turn, .beat .turn, .playActor 3,
      .stopActor 3]).1

theorem assorted_starts :
    assorted.store.running = [1] ∧ assorted.playAll.result = [3, 4] ∧
      Signal.events assorted.playAll.out = [Event.opening 3, Event.opening 4] ∧
      assorted.playAll.stage.InPlay 4 ∧ assorted.playAll.stage.playAll.result = [] := by
  have hreachable : Reachable assorted := (Reachable.empty (new_isEmpty _ _)).enact _
  obtain ⟨hresult, -, -, -, hplay, hevents, -, -, hagain⟩ := playAll_starts_startable hreachable
  have hstartable : assorted.startable = [3, 4] := by decide +kernel
  rw [hstartable] at hresult hplay hevents
  refine ⟨by decide +kernel, hresult, hevents, hplay 4 (by simp), ?_⟩
  rw [hagain]
  rfl

end Stage

end SpriteStage
