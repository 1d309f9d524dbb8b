import Mathlib.Data.List.Nodup
import SpriteStage.Proofs.Checkpoints
import SpriteStage.Proofs.Course
/-!
# The roster

Three places know that an actor runs: its record, the list of engines and the tasks. Every actor
is either idle, with an idle record, no task and at most an engine whose run is over, or busy,
with a busy record, one engine under way and one task.
-/
namespace SpriteStage

/-- The engine of an actor in play whose run goes on. -/
def Engine.underWay (actor : Int) : Engine := { actor, phase := .running, runs := 1 }

/-- The same engine once it is settled, before the outcome is noted. -/
def Engine.settled (actor : Int) : Engine := { actor, runs := 1 }

/-- The engine of an actor in play whose run has ended. -/
def Engine.ended (actor : Int) (outcome : Phase) : Engine :=
  { actor, runs := 1, outcome := some outcome }

section Lookup

variable {β : Type}

theorem lookup_eq_none {l : List (EngineId × β)} {id : EngineId} :
    l.lookup id = none ↔ id ∉ l.map (·.1) := by
  rw [List.lookup_eq_none_iff]
  simp only [List.mem_map, not_exists, not_and, bne_iff_ne]
  constructor
  · intro h p hp hid
    exact h p hp hid.symm
  · intro h p hp hid
    exact h p hp hid.symm

theorem mem_of_lookup {l : List (EngineId × β)} {id : EngineId} {x : β}
    (h : l.lookup id = some x) : (id, x) ∈ l := by
  obtain ⟨before, after, rfl, -⟩ := List.lookup_eq_some_iff.mp h
  simp

theorem lookup_of_mem {l : List (EngineId × β)} (h : (l.map (·.1)).Nodup) {id : EngineId} {x : β}
    (hx : (id, x) ∈ l) : l.lookup id = some x := by
  induction l with
  | nil => simp at hx
  | cons p l ih =>
    simp only [List.map_cons, List.nodup_cons] at h
    rcases List.mem_cons.mp hx with rfl | hx
    · simp
    · have hmem : id ∈ l.map (·.1) := List.mem_map.mpr ⟨_, hx, rfl⟩
      have hne : id ≠ p.1 := fun heq => h.1 (heq ▸ hmem)
      rw [List.lookup_cons, beq_false_of_ne hne]
      exact ih h.2 hx

def setEntry (l : List (EngineId × β)) (id : EngineId) (x : β) : List (EngineId × β) :=
  l.map fun (i, old) => (i, if i = id then x else old)

private theorem names_setEntry (l : List (EngineId × β)) (id : EngineId) (x : β) :
    (setEntry l id x).map (·.1) = l.map (·.1) := by
  simp [setEntry, List.map_map, Function.comp_def]

theorem setEntry_setEntry (l : List (EngineId × β)) (id : EngineId) (x y : β) :
    setEntry (setEntry l id x) id y = setEntry l id y := by
  simp only [setEntry, List.map_map]
  apply List.map_congr_left
  intro entry _
  by_cases h : entry.1 = id <;> simp [h]

theorem lookup_setEntry (l : List (EngineId × β)) (id j : EngineId) (x : β) :
    (setEntry l id x).lookup j = if j = id then (l.lookup j).map fun _ => x else l.lookup j := by
  induction l with
  | nil => simp [setEntry]
  | cons p l ih =>
    obtain ⟨i, old⟩ := p
    simp only [setEntry, List.map_cons, List.lookup_cons] at ih ⊢
    by_cases hj : j = i
    · subst hj
      by_cases hp : j = id <;> simp [hp]
    · simp only [beq_false_of_ne hj]
      exact ih

theorem lookup_filter {l : List (EngineId × β)} (h : (l.map (·.1)).Nodup) (keep : EngineId × β → Bool)
    (id : EngineId) :
    (l.filter keep).lookup id = (l.lookup id).filter fun x => keep (id, x) := by
  cases hx : l.lookup id with
  | none =>
    rw [Option.filter_none, lookup_eq_none]
    intro hmem
    apply lookup_eq_none.mp hx
    exact (List.filter_sublist.map _).subset hmem
  | some x =>
    by_cases hk : keep (id, x)
    · rw [Option.filter_some, if_pos hk]
      apply lookup_of_mem ((List.filter_sublist.map _).nodup h)
      exact List.mem_filter.mpr ⟨mem_of_lookup hx, hk⟩
    · rw [Option.filter_some, if_neg hk, lookup_eq_none]
      intro hmem
      obtain ⟨⟨i, y⟩, hy, rfl⟩ := List.mem_map.mp hmem
      obtain ⟨hyl, hky⟩ := List.mem_filter.mp hy
      have hxy := lookup_of_mem h hyl
      rw [hx] at hxy
      cases hxy
      exact hk hky

end Lookup

variable {α : Type}

/-- How an actor stands: what its record, the engines and the tasks say about it. -/
inductive Standing (w : World α) (engines : List (EngineId × Engine)) (live : List (Task α))
    (actor : Int) : Prop where
  | idle (status : w.status? actor = none ∨ w.status? actor = some .idle)
      (engine : ∀ e, engines.lookup (.player actor) = some e → ∃ outcome, e = .ended actor outcome)
      (tasks : ∀ t ∈ live, t.engine ≠ .player actor)
  | busy {index : Int} {message : Value α} {t : Task α}
      (status : w.status? actor = some (.busy index message))
      (engine : engines.lookup (.player actor) = some (.underWay actor))
      (task : t ∈ live) (own : t.engine = .player actor)
      (shown : message = .null ∨ t.place.bubbles)

/-- The records, the engines and the tasks agree about all actors. -/
structure Roster (w : World α) (engines : List (EngineId × Engine)) (live : List (Task α)) :
    Prop where
  ascending : w.store.Ascending
  players : ∀ id ∈ engines.map (·.1), ∃ actor, id = .player actor
  names : (engines.map (·.1)).Nodup
  tasks : ∀ t ∈ live, (∃ actor, t.engine = .player actor) ∧ t.run = 1
  single : (live.map (·.engine)).Nodup
  standing : ∀ actor, Standing w engines live actor

namespace Standing

variable {w w' : World α} {engines engines' : List (EngineId × Engine)} {live live' : List (Task α)}
  {actor : Int}

theorem congr (h : Standing w engines live actor) (hstatus : w'.status? actor = w.status? actor)
    (hengine : engines'.lookup (.player actor) = engines.lookup (.player actor))
    (htasks : ∀ t, t.engine = .player actor → (t ∈ live' ↔ t ∈ live)) :
    Standing w' engines' live' actor := by
  cases h with
  | idle status engine tasks =>
    refine .idle (hstatus ▸ status) (hengine ▸ engine) ?_
    intro t ht hown
    exact tasks t ((htasks t hown).mp ht) hown
  | busy status engine task own shown =>
    exact .busy (hstatus ▸ status) (hengine ▸ engine) ((htasks _ own).mpr task) own shown

end Standing

namespace Roster

variable {w w' : World α} {engines : List (EngineId × Engine)} {live live' : List (Task α)}

theorem perm (h : Roster w engines live) (hp : live.Perm live') : Roster w engines live' where
  ascending := h.ascending
  players := h.players
  names := h.names
  tasks t ht := h.tasks t (hp.mem_iff.mpr ht)
  single := (hp.map _).nodup_iff.mp h.single
  standing actor := (h.standing actor).congr rfl rfl fun _ _ => hp.symm.mem_iff

/-- Another world in which everyone who was busy is still so, and the others are idle or not there. -/
theorem withWorld (h : Roster w engines live) (hasc : w'.store.Ascending)
    (hstatus : ∀ actor, w'.status? actor = w.status? actor ∨
      (w.status? actor = none ∨ w.status? actor = some .idle) ∧
        (w'.status? actor = none ∨ w'.status? actor = some .idle)) :
    Roster w' engines live where
  ascending := hasc
  players := h.players
  names := h.names
  tasks := h.tasks
  single := h.single
  standing actor := by
    rcases hstatus actor with hsame | ⟨hwas, his⟩
    · exact (h.standing actor).congr hsame rfl fun _ _ => Iff.rfl
    · cases h.standing actor with
      | idle _ engine tasks => exact .idle his engine tasks
      | busy status _ _ _ _ =>
        rw [status] at hwas
        simp [Status.busy, Status.idle] at hwas

theorem busy_of_task (h : Roster w engines live) {t : Task α} (ht : t ∈ live) {actor : Int}
    (hown : t.engine = .player actor) :
    ∃ index message, w.status? actor = some (.busy index message) ∧
      engines.lookup (.player actor) = some (.underWay actor) ∧
      (message = .null ∨ t.place.bubbles) := by
  cases h.standing actor with
  | idle _ _ tasks => exact absurd hown (tasks t ht)
  | busy status engine task own shown =>
    rename_i index message t'
    have hsame : t' = t := by
      have hinj := List.inj_on_of_nodup_map h.single
      exact hinj task ht (own.trans hown.symm)
    subst hsame
    exact ⟨index, message, status, engine, shown⟩

theorem elsewhere {t : Task α} {others : List (Task α)} (h : Roster w engines (t :: others))
    {actor : Int} (hown : t.engine = .player actor) : ∀ x ∈ others, x.engine ≠ .player actor := by
  have hsingle := h.single
  simp only [List.map_cons, List.nodup_cons] at hsingle
  intro x hx hxown
  apply hsingle.1
  rw [hown, ← hxown]
  exact List.mem_map_of_mem hx

private theorem mem_others (t t' : Task α) (htt' : t'.engine = t.engine) {actor : Int}
    (hactor : t.engine ≠ .player actor) (others : List (Task α)) (x : Task α)
    (hx : x.engine = .player actor) : x ∈ t' :: others ↔ x ∈ t :: others := by
  have hxt : x ≠ t := fun heq => hactor (heq ▸ hx)
  have hxt' : x ≠ t' := fun heq => hactor (htt' ▸ heq ▸ hx)
  simp [hxt, hxt']

/-- A task that is suspended again at another place. -/
theorem resumed {t : Task α} {others : List (Task α)} (h : Roster w engines (t :: others))
    {actor : Int} (hown : t.engine = .player actor) (place : Place α)
    (hframe : World.SameFrame w w') {index : Int} {message : Value α}
    (hbusy : w'.status? actor = some (.busy index message))
    (hshown : message = .null ∨ place.bubbles)
    (hothers : ∀ id, id ≠ actor → w'.status? id = w.status? id) :
    Roster w' engines ({ t with place } :: others) where
  ascending := h.ascending.congr hframe.ids hframe.nextId
  players := h.players
  names := h.names
  tasks := by
    intro x hx
    rcases List.mem_cons.mp hx with rfl | hx
    · exact h.tasks t (by simp)
    · exact h.tasks x (by simp [hx])
  single := h.single
  standing j := by
    by_cases hj : j = actor
    · subst hj
      obtain ⟨_, _, _, hengine, _⟩ := h.busy_of_task (by simp : t ∈ t :: others) hown
      exact .busy hbusy hengine (List.mem_cons_self) hown hshown
    · have hne : t.engine ≠ .player j := by
        rw [hown]
        intro heq
        exact hj (EngineId.player.inj heq).symm
      apply (h.standing j).congr (hothers j hj) rfl
      exact mem_others t { t with place } rfl hne others

/-- A task whose run has ended. -/
theorem finished {t : Task α} {others : List (Task α)} (h : Roster w engines (t :: others))
    {actor : Int} (hown : t.engine = .player actor) (outcome : Phase)
    (hframe : World.SameFrame w w') (hidle : w'.status? actor = some .idle)
    (hothers : ∀ id, id ≠ actor → w'.status? id = w.status? id) :
    Roster w' (setEntry engines (.player actor) (.ended actor outcome)) others := by
  have hsingle := h.single
  simp only [List.map_cons, List.nodup_cons] at hsingle
  refine ⟨h.ascending.congr hframe.ids hframe.nextId, ?_, ?_, ?_, hsingle.2, ?_⟩
  · rw [names_setEntry]
    exact h.players
  · rw [names_setEntry]
    exact h.names
  · intro x hx
    exact h.tasks x (by simp [hx])
  · intro j
    by_cases hj : j = actor
    · subst hj
      refine .idle (.inr hidle) ?_ ?_
      · intro e he
        rw [lookup_setEntry, if_pos rfl] at he
        obtain ⟨-, -, rfl⟩ := Option.map_eq_some_iff.mp he
        exact ⟨outcome, rfl⟩
      · exact h.elsewhere hown
    · have hne : EngineId.player j ≠ .player actor := by
        intro heq
        exact hj (EngineId.player.inj heq)
      apply (h.standing j).congr (hothers j hj)
      · rw [lookup_setEntry, if_neg hne]
      · intro x hx
        have hxt : x ≠ t := by
          rintro rfl
          exact hne (hx.symm.trans hown)
        simp [hxt]

/-- Engines may leave as long as those under way stay. -/
theorem dismiss (h : Roster w engines live) (keep : EngineId × Engine → Bool)
    (hkeep : ∀ actor, keep (.player actor, .underWay actor) = true) :
    Roster w (engines.filter keep) live where
  ascending := h.ascending
  players id hid := h.players id ((List.filter_sublist.map _).subset hid)
  names := (List.filter_sublist.map _).nodup h.names
  tasks := h.tasks
  single := h.single
  standing actor := by
    cases h.standing actor with
    | idle status engine tasks =>
      refine .idle status ?_ tasks
      intro e he
      rw [lookup_filter h.names] at he
      exact engine e (Option.filter_eq_some_iff.mp he).1
    | busy status engine task own shown =>
      refine .busy status ?_ task own shown
      rw [lookup_filter h.names, engine, Option.filter_some, if_pos (hkeep actor)]

end Roster

variable [Scalar α]

private theorem Engine.settle_underWay {w w' : World α} {actor : Int} {outcome : Phase}
    {said : List (Signal α)} (h : w.write actor (terminal outcome) = .ok (w', said)) :
    (underWay actor).settle w outcome =
      (settled actor, w', said ++ [.notice (.settled actor outcome)]) := by
  by_cases hc : outcome = .completed
  · simp only [settle, underWay, hc, if_true, Phase.fire?] at h ⊢
    rw [h]
    rfl
  · simp only [settle, underWay, hc, if_false, Phase.fire?] at h ⊢
    rw [h]
    rfl

theorem Engine.settle_ended (w : World α) (actor : Int) (was outcome : Phase) :
    (ended actor was).settle w outcome = (ended actor was, w, []) := by
  by_cases hc : outcome = .completed
  · simp [settle, ended, hc, Phase.fire?]
  · simp [settle, ended, hc, Phase.fire?]

omit [Scalar α] in
/-- The end of a run makes its actor idle, because a message is left only by a run that fails. -/
theorem Engine.onStatus_terminal {outcome : Phase} {index : Int} {message : Value α}
    (h : message = .null ∨ outcome = .cancelled) :
    (terminal outcome : Patch α).onStatus (.busy index message) = .idle := by
  rcases h with rfl | rfl
  · by_cases hc : outcome = .cancelled <;> simp [terminal, Patch.onStatus, Status.busy, Status.idle, hc]
  · rfl

theorem World.write_of_status? {w : World α} {actor : Int} {x : Status α}
    (h : w.status? actor = some x) (p : Patch α) : ∃ w' said, w.write actor p = .ok (w', said) := by
  obtain ⟨a, ha, -⟩ := Option.map_eq_some_iff.mp h
  exact ⟨_, _, World.write_of_get? ha p⟩

namespace Stage

/-- All tasks of a stage, ready or asleep. -/
def live (s : Stage α) : List (Task α) := s.ready ++ s.sleepers.map (·.task)

/-- The records, the engines and the tasks of the stage agree about all actors. -/
def Orderly (s : Stage α) : Prop := Roster s.world s.engines s.live

theorem settle_underWay {s : Stage α} {id : EngineId} {actor : Int} {outcome : Phase} {w' : World α}
    {said : List (Signal α)} (he : s.engines.lookup id = some (.underWay actor))
    (hw : s.world.write actor (Engine.terminal outcome) = .ok (w', said)) :
    s.settle id outcome =
      ({ s with
          world := w'
          engines := setEntry s.engines id (.settled actor) },
        said ++ [.notice (.settled actor outcome)]) := by
  simp only [settle, engine?, he, Engine.settle_underWay hw]
  rfl

theorem finish_underWay {s : Stage α} {t : Task α} {actor : Int} {outcome : Phase} {w' : World α}
    {said : List (Signal α)} (hrun : t.run = 1)
    (he : s.engines.lookup t.engine = some (.underWay actor))
    (hw : s.world.write actor (Engine.terminal outcome) = .ok (w', said)) :
    s.finish t outcome =
      ({ s with
          world := w'
          engines := setEntry s.engines t.engine (.ended actor outcome) },
        said ++ [.notice (.settled actor outcome)]) := by
  have hfound : (setEntry s.engines t.engine (.settled actor)).lookup t.engine =
      some (.settled actor) := by
    rw [lookup_setEntry, if_pos rfl, he]
    rfl
  have hruns : (Engine.settled actor).runs = t.run := hrun.symm
  unfold finish
  rw [settle_underWay he hw]
  simp only [engine?, hfound]
  rw [if_pos hruns,
    ← setEntry_setEntry s.engines t.engine (.settled actor) (.ended actor outcome)]
  rfl

/-- Everything that can come of a turn of an engine under way whose actor stays on the stage: it sleeps, waits for
another turn, or its run ends. -/
theorem turn_cases {s : Stage α} {t : Task α} {actor : Int} (hengine : s.engine? t.engine = some (.underWay actor))
    (hrun : t.run = 1) {a : Activity α} (ha : t.place.resume s.now actor s.world = a)
    (hthere : (a.world.store.get? actor).isSome) :
    (∃ seconds place, a.halt = .sleep seconds place ∧ s.resume t =
      ({ s with
          world := a.world
          sleepers := s.sleepers ++ [⟨wakeTime s.now seconds, { t with place }⟩] }, a.out)) ∨
    (∃ place, a.halt = .pass place ∧
      s.resume t = ({ s with world := a.world, ready := s.ready ++ [{ t with place }] }, a.out)) ∨
    (∃ outcome w said, a.halt = .done outcome ∧
      a.world.write actor (Engine.terminal outcome) = .ok (w, said) ∧ s.resume t =
        ({ s with
            world := w
            engines := setEntry s.engines t.engine (.ended actor outcome) },
          a.out ++ (said ++ [.notice (.settled actor outcome)]))) := by
  have hactivity : (Engine.underWay actor).resume s.world s.now t.place = a :=
    (Engine.resume_eq _ _ _ _).trans ha
  unfold resume
  simp only [hengine, hactivity]
  cases hhalt : a.halt with
  | sleep seconds place => exact .inl ⟨seconds, place, rfl, rfl⟩
  | pass place => exact .inr (.inl ⟨place, rfl, rfl⟩)
  | done outcome =>
    obtain ⟨b, hb⟩ := Option.isSome_iff_exists.mp hthere
    have hwrite := World.write_of_get? hb (Engine.terminal outcome)
    refine .inr (.inr ⟨outcome, _, _, rfl, hwrite, ?_⟩)
    dsimp only
    rw [finish_underWay (s := { s with world := a.world }) hrun hengine hwrite]

theorem resume_cases {s : Stage α} {t : Task α} {actor : Int} (h : Roster s.world s.engines (t :: s.live))
    (hown : t.engine = .player actor) {a : Activity α} (ha : t.place.resume s.now actor s.world = a) :
    (∃ seconds place, a.halt = .sleep seconds place ∧ s.resume t =
      ({ s with
          world := a.world
          sleepers := s.sleepers ++ [⟨wakeTime s.now seconds, { t with place }⟩] }, a.out)) ∨
    (∃ place, a.halt = .pass place ∧
      s.resume t = ({ s with world := a.world, ready := s.ready ++ [{ t with place }] }, a.out)) ∨
    (∃ outcome w said, a.halt = .done outcome ∧
      a.world.write actor (Engine.terminal outcome) = .ok (w, said) ∧ s.resume t =
        ({ s with
            world := w
            engines := setEntry s.engines (.player actor) (.ended actor outcome) },
          a.out ++ (said ++ [.notice (.settled actor outcome)]))) := by
  obtain ⟨-, hrun⟩ := h.tasks t (by simp)
  obtain ⟨index, message, hstatus, hengine, hshown⟩ := h.busy_of_task (by simp) hown
  obtain ⟨index', message', hthere, -⟩ := (Place.resume_busy s.now hstatus hshown).own
  obtain ⟨b, hb, -⟩ := Option.map_eq_some_iff.mp hthere
  rw [← hown] at hengine ⊢
  exact turn_cases hengine hrun ha (by rw [← ha, hb, Option.isSome_some])

omit [Scalar α] in
theorem Orderly.atTurn {s : Stage α} (h : s.Orderly) {t : Task α} {rest : List (Task α)}
    (hready : s.ready = t :: rest) :
    Roster s.world s.engines (t :: ({ s with ready := rest } : Stage α).live) := by
  simp only [Orderly, live, hready] at h
  exact h

theorem resume_orderly {s : Stage α} {t : Task α} (h : Roster s.world s.engines (t :: s.live)) :
    (s.resume t).1.Orderly := by
  obtain ⟨⟨actor, hown⟩, -⟩ := h.tasks t (by simp)
  obtain ⟨index, message, hstatus, -, hshown⟩ := h.busy_of_task (by simp) hown
  have hbusy := Place.resume_busy s.now hstatus hshown
  obtain ⟨index', message', hstatus', hshown'⟩ := hbusy.own
  rcases resume_cases h hown rfl with
    ⟨seconds, place, hhalt, hs⟩ | ⟨place, hhalt, hs⟩ | ⟨outcome, w, said, hhalt, hwrite, hs⟩
  · simp only [hhalt, Halt.bubbles, reduceCtorEq, or_false] at hshown'
    have hroster := h.resumed hown place hbusy.frame hstatus' hshown' hbusy.others
    rw [hs]
    apply hroster.perm
    simp only [live, List.map_append, List.map_cons, List.map_nil, ← List.append_assoc]
    exact (List.perm_append_singleton _ _).symm
  · simp only [hhalt, Halt.bubbles, reduceCtorEq, or_false] at hshown'
    have hroster := h.resumed hown place hbusy.frame hstatus' (.inl hshown') hbusy.others
    rw [hs]
    apply hroster.perm
    simp only [live, List.append_assoc, List.singleton_append]
    exact List.perm_middle.symm
  · simp only [hhalt, Halt.bubbles, Halt.done.injEq, false_or] at hshown'
    rw [hs]
    apply h.finished hown outcome (hbusy.frame.trans (World.frame_write hwrite))
    · rw [World.status?_write hwrite, if_pos rfl, hstatus', Option.map_some,
        Engine.onStatus_terminal hshown']
    · intro id hid
      rw [World.status?_write hwrite, if_neg hid, hbusy.others id hid]

end Stage

end SpriteStage
