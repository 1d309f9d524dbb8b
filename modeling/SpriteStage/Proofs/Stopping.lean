import SpriteStage.Proofs.Roster
import SpriteStage.Stage.Control
/-! # Stopping -/
namespace SpriteStage

/-- The actor in play that an engine is named after. -/
def EngineId.actor? : EngineId → Option Int
  | .player actor => some actor
  | .manual _ => none

private theorem map_player_filterMap {ids : List EngineId} (h : ∀ id ∈ ids, ∃ actor, id = .player actor) :
    (ids.filterMap EngineId.actor?).map .player = ids := by
  induction ids with
  | nil => rfl
  | cons id ids ih =>
    obtain ⟨actor, rfl⟩ := h id (by simp)
    have hids := ih fun j hj => h j (by simp [hj])
    simp [EngineId.actor?, hids]

private theorem filterMap_map_player (actors : List Int) :
    (actors.map EngineId.player).filterMap EngineId.actor? = actors := by
  simp [List.filterMap_map, Function.comp_def, EngineId.actor?]

private theorem filter_setEntry {β : Type} {keep : EngineId → Bool} {id : EngineId} (h : keep id = false)
    (l : List (EngineId × β)) (x : β) :
    (setEntry l id x).filter (keep ·.1) = l.filter (keep ·.1) := by
  induction l with
  | nil => rfl
  | cons entry l ih =>
    obtain ⟨i, old⟩ := entry
    simp only [setEntry, List.map_cons] at ih ⊢
    by_cases hi : i = id
    · subst hi
      rw [List.filter_cons_of_neg (by simp [h]), List.filter_cons_of_neg (by simp [h])]
      exact ih
    · simp only [hi, if_false, List.filter_cons, ih]

variable {α : Type}

theorem Signal.events_append (out more : List (Signal α)) :
    events (out ++ more) = events out ++ events more :=
  List.filterMap_append

def Actor.stilled (a : Actor α) : Actor α :=
  { a with isRunning := .bool false, stepIndex := .null, message := .null }

namespace Actor

@[simp]
theorem stilled_id (a : Actor α) : a.stilled.id = a.id := rfl

@[simp]
theorem status_stilled (a : Actor α) : a.stilled.status = .idle := rfl

private theorem stilled_of_idle {a : Actor α} (h : a.status = .idle) : a.stilled = a := by
  obtain ⟨id, name, position, heading, size, look, program, isRunning, stepIndex, message, trail⟩ := a
  simp only [status, Status.idle, Status.mk.injEq] at h
  obtain ⟨rfl, rfl, rfl⟩ := h
  rfl

end Actor

/-- Some actors were stopped, and nothing else has changed. -/
structure World.Stills (actors : List Int) (w w' : World α) : Prop where
  frame : SameFrame w w'
  touching : w'.touching = w.touching
  record : ∀ id, w'.store.get? id =
    if id ∈ actors then (w.store.get? id).map Actor.stilled else w.store.get? id

namespace World.Stills

private theorem nil (w : World α) : Stills [] w w := ⟨.refl w, rfl, fun _ => by simp⟩

private theorem cons {actor : Int} {actors : List Int} {w w₁ w₂ : World α} (h : Stills [actor] w w₁)
    (h' : Stills actors w₁ w₂) : Stills (actor :: actors) w w₂ := by
  refine ⟨h.frame.trans h'.frame, h'.touching.trans h.touching, fun id => ?_⟩
  rw [h'.record, h.record]
  by_cases hid : id = actor
  · subst hid
    by_cases hmem : id ∈ actors
    · simp only [hmem, List.mem_cons, or_true, if_true, List.not_mem_nil, or_false, Option.map_map]
      rfl
    · simp [hmem]
  · simp [hid]

private theorem status? {actors : List Int} {w w' : World α} (h : Stills actors w w') (id : Int) :
    w'.status? id = if id ∈ actors then (w.status? id).map fun _ => .idle else w.status? id := by
  simp only [World.status?, h.record]
  split
  · simp [Function.comp_def]
  · rfl

end World.Stills

def World.stilled (w : World α) : World α :=
  { w with store := { w.store with actors := w.store.actors.map Actor.stilled } }

namespace World

private theorem get?_stilled (w : World α) (id : Int) :
    w.stilled.store.get? id = (w.store.get? id).map Actor.stilled := by
  simp only [stilled, Store.get?, List.find?_map]
  rfl

private theorem Stills.eq_stilled {actors : List Int} {w w' : World α} (h : Stills actors w w')
    (hasc : w.store.Ascending)
    (hidle : ∀ id, id ∉ actors → w.status? id = none ∨ w.status? id = some .idle) :
    w' = w.stilled := by
  have hget : ∀ id, w'.store.get? id = w.stilled.store.get? id := by
    intro id
    rw [h.record, get?_stilled]
    split
    · rfl
    · rename_i hid
      cases ha : w.store.get? id with
      | none => rfl
      | some a =>
        have hstatus := hidle id hid
        simp only [World.status?, ha, Option.map_some, reduceCtorEq, Option.some.injEq,
          false_or] at hstatus
        rw [Option.map_some, Actor.stilled_of_idle hstatus]
  have hids : w.stilled.store.ids = w.store.ids := by
    simp [stilled, Store.ids, Function.comp_def]
  have hactors : w'.store.actors = w.stilled.store.actors :=
    Store.actors_eq_of_get? (hasc.congr hids rfl) (h.frame.ids.trans hids.symm) hget
  obtain ⟨settings, catalog, ⟨actors', nextId⟩, touching, room, runRoom⟩ := w'
  obtain ⟨hsettings, hcatalog, hroom, hrunRoom, hnextId, -⟩ := h.frame
  have htouching := h.touching
  subst hsettings hcatalog hroom hrunRoom hnextId htouching hactors
  rfl

end World

private theorem Roster.stopped {w w' : World α} {engines : List (EngineId × Engine)} {live : List (Task α)}
    (h : Roster w engines live) {gone : List Int} (hw : w.Stills gone w') :
    Roster w' (engines.filter fun entry => !(gone.map .player).contains entry.1)
      (live.filter fun t => !(gone.map .player).contains t.engine) where
  ascending := h.ascending.congr hw.frame.ids hw.frame.nextId
  players id hid := h.players id ((List.filter_sublist.map _).subset hid)
  names := (List.filter_sublist.map _).nodup h.names
  tasks t ht := h.tasks t (List.mem_filter.mp ht).1
  single := (List.filter_sublist.map _).nodup h.single
  standing actor := by
    have hgone : (gone.map EngineId.player).contains (.player actor) = decide (actor ∈ gone) := by
      simp
    by_cases hactor : actor ∈ gone
    · refine .idle ?_ ?_ ?_
      · rw [hw.status?, if_pos hactor]
        cases w.status? actor with
        | none => exact .inl rfl
        | some _ => exact .inr rfl
      · intro e he
        rw [lookup_filter h.names] at he
        have hkept := (Option.filter_eq_some_iff.mp he).2
        simp [hactor] at hkept
      · intro t ht hown
        have hkept := (List.mem_filter.mp ht).2
        simp [hown, hactor] at hkept
    · apply (h.standing actor).congr
      · rw [hw.status?, if_neg hactor]
      · rw [lookup_filter h.names]
        cases engines.lookup (.player actor) with
        | none => rfl
        | some e => rw [Option.filter_some, hgone, if_pos (by simp [hactor])]
      · intro t hown
        simp [List.mem_filter, hown, hactor]

variable [Scalar α]

/-- What the end of a stopped run tells. -/
def Engine.farewell (actor : Int) : Event α := ⟨actor, .wrote (terminal .cancelled) none⟩

/-- An actor with a busy record has an engine under way, and the engine of any other is over. -/
def Stage.Agrees (s : Stage α) (actor : Int) : Prop :=
  (∃ index message, s.world.status? actor = some (.busy index message) ∧
    s.engines.lookup (.player actor) = some (.underWay actor)) ∨
  ((s.world.status? actor = none ∨ s.world.status? actor = some .idle) ∧
    ∀ e, s.engines.lookup (.player actor) = some e → ∃ outcome, e = .ended actor outcome)

namespace Stage

omit [Scalar α] in
theorem Orderly.agrees {s : Stage α} (h : s.Orderly) (actor : Int) : s.Agrees actor := by
  cases h.standing actor with
  | idle status engine _ => exact .inr ⟨status, engine⟩
  | busy status engine _ _ _ => exact .inl ⟨_, _, status, engine⟩

def runs? (s : Stage α) (actor : Int) : Bool := (s.store.get? actor).any (·.runs)

theorem runs?_of_busy {s : Stage α} {actor index : Int} {message : Value α}
    (h : s.world.status? actor = some (.busy index message)) : s.runs? actor = true := by
  obtain ⟨a, ha, hstatus⟩ := Option.map_eq_some_iff.mp h
  have hrunning : a.isRunning = .bool true := congrArg Status.isRunning hstatus
  simp [runs?, store, ha, Actor.runs, hrunning, Value.isGiven]

theorem runs?_of_idle {s : Stage α} {actor : Int}
    (h : s.world.status? actor = none ∨ s.world.status? actor = some .idle) :
    s.runs? actor = false := by
  rcases h with h | h
  · have hnone := Option.map_eq_none_iff.mp h
    simp [runs?, store, hnone]
  · obtain ⟨a, ha, hstatus⟩ := Option.map_eq_some_iff.mp h
    have hrunning : a.isRunning = .bool false := congrArg Status.isRunning hstatus
    simp [runs?, store, ha, Actor.runs, hrunning, Value.isGiven]

private theorem settle_agrees {s : Stage α} {actor : Int} (h : s.Agrees actor) :
    ∃ w engines out, s.settle (.player actor) .cancelled = ({ s with world := w, engines }, out) ∧
      s.world.Stills [actor] w ∧
      (engines = s.engines ∨ ∃ e, engines = setEntry s.engines (.player actor) e) ∧
      Signal.events out = if s.runs? actor then [Engine.farewell actor] else [] := by
  rcases h with ⟨index, message, hstatus, hengine⟩ | ⟨hstatus, hengine⟩
  · obtain ⟨w, said, hwrite⟩ := World.write_of_status? hstatus (Engine.terminal .cancelled)
    refine ⟨_, _, _, settle_underWay hengine hwrite, ⟨World.frame_write hwrite, ?_, ?_⟩,
      .inr ⟨_, rfl⟩, ?_⟩
    · obtain ⟨-, -, rfl, -⟩ := World.write_eq_ok.mp hwrite
      rfl
    · intro id
      rw [World.get?_write hwrite]
      simp only [List.mem_singleton]
      rfl
    · obtain ⟨-, -, -, rfl⟩ := World.write_eq_ok.mp hwrite
      rw [runs?_of_busy hstatus]
      rfl
  · have hstill : s.world.Stills [actor] s.world := by
      refine ⟨.refl _, rfl, fun id => ?_⟩
      split
      · rename_i hid
        rw [List.mem_singleton.mp hid]
        cases ha : s.world.store.get? actor with
        | none => rfl
        | some a =>
          simp only [World.status?, ha, Option.map_some, reduceCtorEq, Option.some.injEq,
            false_or] at hstatus
          rw [Option.map_some, Actor.stilled_of_idle hstatus]
      · rfl
    have hsilent : Signal.events ([] : List (Signal α)) =
        if s.runs? actor then [Engine.farewell actor] else [] := by
      simp [runs?_of_idle hstatus, Signal.events]
    cases he : s.engines.lookup (.player actor) with
    | none =>
      refine ⟨s.world, s.engines, [], ?_, hstill, .inl rfl, hsilent⟩
      simp only [settle, engine?, he]
    | some e =>
      obtain ⟨outcome, rfl⟩ := hengine e he
      refine ⟨s.world, _, [], ?_, hstill, .inr ⟨.ended actor outcome, rfl⟩, hsilent⟩
      simp only [settle, engine?, he, Engine.settle_ended]
      rfl

/-- Settling the engines of some actors, one after the other, stops exactly these actors. -/
theorem cancelEach_spec {actors : List Int} {s : Stage α} (hnodup : actors.Nodup)
    (h : ∀ actor ∈ actors, s.Agrees actor) :
    ∃ w engines out,
      cancelEach (actors.map .player) s = ({ s with world := w, engines }, out) ∧
      s.world.Stills actors w ∧
      (∀ keep : EngineId → Bool, (∀ actor ∈ actors, keep (.player actor) = false) →
        engines.filter (keep ·.1) = s.engines.filter (keep ·.1)) ∧
      Signal.events out = (actors.filter s.runs?).map Engine.farewell := by
  induction actors generalizing s with
  | nil => exact ⟨_, _, _, rfl, .nil _, fun _ _ => rfl, rfl⟩
  | cons actor actors ih =>
    obtain ⟨hfresh, hnodup⟩ := List.nodup_cons.mp hnodup
    obtain ⟨w₁, engines₁, out₁, hsettle, hstill, hengines, hsaid⟩ := settle_agrees (h actor (by simp))
    -- The others are as before, so the induction goes on from the stage after the first.
    have hrecord : ∀ id ∈ actors, w₁.store.get? id = s.world.store.get? id := by
      intro id hid
      have hne : id ≠ actor := fun heq => hfresh (heq ▸ hid)
      simp [hstill.record, hne]
    have hrest : ∀ id ∈ actors, ({ s with world := w₁, engines := engines₁ } : Stage α).Agrees id := by
      intro id hid
      have hne : EngineId.player id ≠ .player actor := by
        intro heq
        exact hfresh (EngineId.player.inj heq ▸ hid)
      have hlookup : engines₁.lookup (.player id) = s.engines.lookup (.player id) := by
        rcases hengines with rfl | ⟨e, rfl⟩
        · rfl
        · rw [lookup_setEntry, if_neg hne]
      have hagrees := h id (by simp [hid])
      simp only [Agrees, World.status?, hrecord id hid, hlookup] at hagrees ⊢
      exact hagrees
    obtain ⟨w₂, engines₂, out₂, hcancel, hstill', hkeep, hsaid'⟩ := ih hnodup hrest
    refine ⟨w₂, engines₂, out₁ ++ out₂, ?_, hstill.cons hstill', ?_, ?_⟩
    · simp only [List.map_cons, cancelEach, hsettle, hcancel]
    · intro keep hgone
      rw [hkeep keep fun id hid => hgone id (by simp [hid])]
      rcases hengines with rfl | ⟨e, rfl⟩
      · rfl
      · exact filter_setEntry (hgone actor (by simp)) s.engines e
    · have hruns : actors.filter ({ s with world := w₁, engines := engines₁ } : Stage α).runs? =
          actors.filter s.runs? := by
        apply List.filter_congr
        intro id hid
        simp only [runs?, store, hrecord id hid]
      rw [Signal.events_append, hsaid, hsaid', hruns]
      by_cases hbusy : s.runs? actor <;> simp [hbusy]

omit [Scalar α] in
theorem stopOrder_perm {s : Stage α} (h : s.Orderly) {ids : List EngineId} (hids : ids.Nodup) :
    (s.stopOrder ids).Perm ids := by
  unfold stopOrder
  dsimp only
  set waiting := (s.ready.filter _).map (·.engine) with hwaiting
  set asleep := s.sleepers.map (·.task.engine)
  have hnodup : waiting.Nodup := by
    have hready : (s.ready.map (·.engine)).Nodup := by
      have hlive := h.single
      simp only [live, List.map_append] at hlive
      exact hlive.of_append_left
    exact (List.filter_sublist.map _).nodup hready
  have hfirst : (waiting.filter ids.contains).Perm (ids.filter waiting.contains) := by
    rw [List.perm_ext_iff_of_nodup (hnodup.filter _) (hids.filter _)]
    intro id
    simp [and_comm]
  have hrest := List.filter_append_perm (fun id => asleep.contains id) (ids.filter (!waiting.contains ·))
  simp only [List.filter_filter] at hrest
  rw [List.append_assoc]
  exact (hfirst.append hrest).trans (List.filter_append_perm _ ids)

theorem stop_spec {s : Stage α} (h : s.Orderly) {actors : List Int} (hnodup : actors.Nodup)
    (hsome : actors.filter s.players.contains ≠ []) :
    ∃ w out,
      s.stop actors =
        ⟨{ (s.discard ((actors.filter s.players.contains).map .player)).retire with world := w },
          out ++ [.notice (.stopped (actors.filter s.players.contains))], ()⟩ ∧
      s.world.Stills (actors.filter s.players.contains) w ∧
      (Signal.events out).Perm
        (((actors.filter s.players.contains).filter s.runs?).map Engine.farewell) := by
  have hchosen := hnodup.filter s.players.contains
  unfold stop
  dsimp only
  generalize actors.filter s.players.contains = chosen at hsome hchosen ⊢
  have hids : (chosen.map EngineId.player).Nodup :=
    hchosen.map fun _ _ heq => EngineId.player.inj heq
  have hperm := stopOrder_perm h hids
  have horder : ∀ id ∈ s.stopOrder (chosen.map .player), ∃ actor, id = .player actor := by
    intro id hid
    obtain ⟨actor, -, rfl⟩ := List.mem_map.mp (hperm.mem_iff.mp hid)
    exact ⟨actor, rfl⟩
  have hactors := hperm.filterMap EngineId.actor?
  rw [filterMap_map_player] at hactors
  rw [← map_player_filterMap horder]
  generalize (s.stopOrder (chosen.map .player)).filterMap EngineId.actor? = ordered at hactors ⊢
  obtain ⟨w, engines, out, hcancel, hstill, hkeep, hsaid⟩ :=
    cancelEach_spec (hactors.nodup_iff.mpr hchosen) fun actor _ => h.agrees actor
  refine ⟨w, out, ?_, ⟨hstill.frame, hstill.touching, ?_⟩, ?_⟩
  · have hengines := hkeep (fun id => !(chosen.map EngineId.player).contains id) (by
      intro actor hactor
      simpa using hactors.mem_iff.mp hactor)
    have hempty : chosen.isEmpty = false := by simpa using hsome
    simp only [hempty, Bool.false_eq_true, if_false, hcancel, discard, hengines]
    rfl
  · intro id
    rw [hstill.record]
    simp only [hactors.mem_iff]
  · rw [hsaid]
    exact (hactors.filter _).map _

theorem stop_of_none {s : Stage α} {actors : List Int} (h : actors.filter s.players.contains = []) :
    s.stop actors = s.reply () := by
  unfold stop
  simp [h]

omit [Scalar α] in
theorem Orderly.retire {s : Stage α} (h : s.Orderly) : s.retire.Orderly :=
  Roster.dismiss h (!isOver ·) fun _ => rfl

theorem Orderly.stop {s : Stage α} (h : s.Orderly) {actors : List Int} (hnodup : actors.Nodup) :
    (s.stop actors).stage.Orderly := by
  by_cases hsome : actors.filter s.players.contains = []
  · rw [stop_of_none hsome]
    exact h
  · obtain ⟨w, out, hstop, hstill, -⟩ := stop_spec h hnodup hsome
    rw [hstop]
    generalize actors.filter s.players.contains = chosen at hstill ⊢
    have hstopped := Roster.dismiss (Roster.stopped h hstill) (!isOver ·) fun _ => rfl
    have hlive : (s.discard (chosen.map .player)).live =
        s.live.filter fun t => !(chosen.map .player).contains t.engine := by
      simp only [live, discard, List.filter_append, List.filter_map]
      rfl
    rw [← hlive] at hstopped
    exact hstopped

omit [Scalar α] in
theorem Orderly.map_players {s : Stage α} (h : s.Orderly) :
    s.players.map .player = s.engines.map (·.1) := by
  have hplayers : s.players = (s.engines.map (·.1)).filterMap EngineId.actor? := by
    simp only [players, List.filterMap_map]
    congr 1
    funext entry
    obtain ⟨id, e⟩ := entry
    cases id <;> rfl
  rw [hplayers]
  exact map_player_filterMap h.players

omit [Scalar α] in
theorem Orderly.players_nodup {s : Stage α} (h : s.Orderly) : s.players.Nodup := by
  apply List.Nodup.of_map EngineId.player
  rw [h.map_players]
  exact h.names

omit [Scalar α] in
theorem Orderly.mem_players {s : Stage α} (h : s.Orderly) {actor : Int} {index : Int}
    {message : Value α} (hbusy : s.world.status? actor = some (.busy index message)) :
    actor ∈ s.players := by
  cases h.standing actor with
  | idle status _ _ => simp [hbusy, Status.busy, Status.idle] at status
  | busy _ engine _ _ _ =>
    have hname : EngineId.player actor ∈ s.players.map EngineId.player := by
      rw [h.map_players]
      exact List.mem_map_of_mem (mem_of_lookup engine)
    obtain ⟨j, hj, heq⟩ := List.mem_map.mp hname
    exact EngineId.player.inj heq ▸ hj

omit [Scalar α] in
theorem Orderly.idle_of_players_nil {s : Stage α} (h : s.Orderly) (hnone : s.players = []) :
    s.engines = [] ∧ s.live = [] ∧
      ∀ actor, s.world.status? actor = none ∨ s.world.status? actor = some .idle := by
  have hengines : s.engines = [] := by
    have hmap := h.map_players
    rw [hnone] at hmap
    simpa using hmap.symm
  refine ⟨hengines, ?_, ?_⟩
  · apply List.eq_nil_iff_forall_not_mem.mpr
    intro t ht
    obtain ⟨⟨actor, hown⟩, -⟩ := h.tasks t ht
    obtain ⟨_, _, -, hengine, -⟩ := h.busy_of_task ht hown
    simp [hengines] at hengine
  · intro actor
    cases h.standing actor with
    | idle status _ _ => exact status
    | busy _ engine _ _ _ => simp [hengines] at engine

/-- Stopping everybody leaves no engine and no task, and a world in which all actors are stopped. -/
theorem stopAll_spec {s : Stage α} (h : s.Orderly) :
    s.stopAll.stage =
        { s with world := s.world.stilled, engines := [], ready := [], sleepers := [] } ∧
      (Signal.events s.stopAll.out).Perm ((s.players.filter s.runs?).map Engine.farewell) := by
  have hall : s.players.filter s.players.contains = s.players := by
    rw [List.filter_eq_self]
    intro actor hactor
    simpa using hactor
  by_cases hnone : s.players = []
  · obtain ⟨hengines, hlive, hidle⟩ := h.idle_of_players_nil hnone
    obtain ⟨hready, hsleepers⟩ := List.append_eq_nil_iff.mp hlive
    have hworld : s.world = s.world.stilled :=
      (World.Stills.nil s.world).eq_stilled h.ascending fun id _ => hidle id
    have hstop : s.stopAll = s.reply () := stop_of_none (by rw [hall, hnone])
    rw [hstop]
    refine ⟨?_, by simp [reply, hnone, Signal.events]⟩
    rw [← hworld]
    have hasleep := List.map_eq_nil_iff.mp hsleepers
    cases s
    subst hengines hready hasleep
    rfl
  · obtain ⟨w, out, hstop, hstill, hsaid⟩ := stop_spec h h.players_nodup (by rwa [hall])
    rw [hall] at hstop hstill hsaid
    have hworld : w = s.world.stilled := by
      apply hstill.eq_stilled h.ascending
      intro actor hactor
      cases h.standing actor with
      | idle status _ _ => exact status
      | busy status _ _ _ _ => exact absurd (h.mem_players status) hactor
    have hdiscard : s.discard (s.players.map .player) =
        { s with engines := [], ready := [], sleepers := [] } := by
      have hgone : ∀ t ∈ s.live, t.engine ∈ s.players.map .player := by
        intro t ht
        obtain ⟨⟨actor, hown⟩, -⟩ := h.tasks t ht
        obtain ⟨_, _, hstatus, -, -⟩ := h.busy_of_task ht hown
        rw [hown]
        exact List.mem_map_of_mem (h.mem_players hstatus)
      have hengines : s.engines.filter (fun entry => !(s.players.map .player).contains entry.1) = [] := by
        rw [h.map_players, List.filter_eq_nil_iff]
        intro entry hentry
        have hmem : entry.1 ∈ s.engines.map (·.1) := List.mem_map_of_mem hentry
        simpa using hmem
      have hready : s.ready.filter (fun t => !(s.players.map .player).contains t.engine) = [] := by
        rw [List.filter_eq_nil_iff]
        intro t ht
        simpa using hgone t (by simp [live, ht])
      have hsleepers :
          s.sleepers.filter (fun x => !(s.players.map .player).contains x.task.engine) = [] := by
        rw [List.filter_eq_nil_iff]
        intro x hx
        simpa using hgone x.task (by simp only [live, List.mem_append]; exact .inr (List.mem_map_of_mem hx))
      simp only [discard, hengines, hready, hsleepers]
    have hstage : s.stopAll = s.stop s.players := rfl
    rw [hstage, hstop, hworld, hdiscard]
    have hsilent : Signal.events [.notice (.stopped s.players)] = ([] : List (Event α)) := rfl
    refine ⟨rfl, ?_⟩
    rw [Signal.events_append, hsilent, List.append_nil]
    exact hsaid

end Stage

end SpriteStage
