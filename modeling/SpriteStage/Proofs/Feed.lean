import SpriteStage.Proofs.Conservation
import SpriteStage.Proofs.Rendering
/-! # The event feed -/
namespace SpriteStage

variable {α : Type} [Scalar α]

def Settings.trailLimit (s : Settings α) : Nat := (max 1 s.maxTrail).toNat

namespace Scene

private theorem Shows.updates {s : Settings α} {scene : Scene α} {st st' : Store α} {out : List (Signal α)}
    (h : scene.Shows s.trailLimit st) (hupdates : Store.Updates s st out st') :
    (scene.follow (Signal.events out)).Shows s.trailLimit st' := by
  have hlimit : s.trailLimit = (s.maxTrail - 1).toNat + 1 := by
    unfold Settings.trailLimit
    omega
  induction hupdates generalizing scene with
  | nil st => exact h
  | tell x aside _ ih =>
    rw [Signal.events, List.filterMap_cons, aside]
    exact ih h
  | @write st st₁ st' out id p e plain written rest ih =>
    obtain ⟨a, ha, hdone⟩ := bind_eq_ok written
    cases hdone
    exact ih (h.write (Store.get_eq_ok.mp ha) plain.finite plain.trail)
  | @move st st₁ st' out id e point glided rest ih =>
    obtain ⟨a, ha, hdone⟩ := bind_eq_ok glided
    cases hdone
    apply ih
    rw [hlimit] at h ⊢
    exact h.move (Store.get_eq_ok.mp ha) (s.confine point) point

/-- Programs that can be told are told when they are dealt out. -/
theorem Shows.deals {limit : Nat} {pool : Program α → Prop} {scene : Scene α} {st st' : Store α}
    {out : List (Signal α)} (h : scene.Shows limit st) (hpool : ∀ p, pool p → p.Tellable)
    (hdeals : Store.Deals pool st out st') : (scene.follow (Signal.events out)).Shows limit st' := by
  induction hdeals generalizing scene with
  | nil st => exact h
  | notice n _ ih => exact ih h
  | @told st st' out id a p found known tellable rest ih =>
    exact ih (h.give found p)
  | untold _ known flawed _ _ => exact absurd (hpool _ known) flawed

private theorem Shows.played {s : Settings α} {through : Prop} {scene : Scene α} {st st' : Store α}
    {out : List (Signal α)} (h : scene.Shows s.trailLimit st) (htellable : ∀ p ∈ st.programs, p.Tellable)
    (hplayed : Store.Played s through st out st') :
    (scene.follow (Signal.events out)).Shows s.trailLimit st' := by
  cases hplayed with
  | intro deals _ updates events =>
    rw [events, follow_append]
    exact (h.deals htellable deals).updates updates

private theorem Shows.edited {limit : Nat} {scene : Scene α} {s s' : Stage α} {out : List (Signal α)}
    (h : scene.Shows limit s.store) (hasc : s.store.Ascending) (hedited : s.Edited s' out)
    (htellable : ∀ p ∈ s'.store.programs, p.Tellable) :
    (scene.follow (Signal.events out)).Shows limit s'.store := by
  cases hedited with
  | nothing world names told =>
    subst told
    have hsame : s'.store = s.store := congrArg World.store world
    rw [hsame]
    exact h
  | skipped world names told =>
    subst told
    rw [Stage.store_of_world world]
    exact h.congr fun _ => rfl
  | added a newcomer world names told =>
    subst told
    rw [Stage.store_of_world world]
    exact h.add hasc newcomer.id newcomer.trail _
  | deleted actor world names told =>
    subst told
    rw [Stage.store_of_world world]
    exact h.delete actor
  | revised actor a p found world revision told =>
    have hgiven : s'.store.program? actor = some p := by
      rw [Stage.store_of_world world, Store.program?_replace found, if_pos rfl]
    rw [told, if_pos (htellable p (Store.mem_programs_of_program? hgiven)), Stage.store_of_world world]
    exact h.give found p

end Scene

namespace Stage

omit [Scalar α] in
/-- Whether every program on the stage can be told. -/
def tellable (s : Stage α) : Bool := s.store.programs.all fun p => decide p.Tellable

def staysTellable : Stage α → List (Act α) → Bool
  | s, [] => s.tellable
  | s, a :: acts => s.tellable && (s.perform a).1.staysTellable acts

omit [Scalar α] in
theorem tellable_iff {s : Stage α} : s.tellable = true ↔ ∀ p ∈ s.store.programs, p.Tellable := by
  simp [tellable]

private theorem tellable_of_stays {s : Stage α} {acts : List (Act α)} (h : s.staysTellable acts = true) :
    s.tellable = true := by
  cases acts with
  | nil => exact h
  | cons a acts => exact (Bool.and_eq_true_iff.mp h).1

private theorem perform_shows {s : Stage α} (h : s.Orderly) {a : Act α} (hreset : a ≠ .reset)
    (hbefore : s.tellable = true) (hafter : (s.perform a).1.tellable = true) {scene : Scene α}
    (hshows : scene.Shows s.settings.trailLimit s.store) :
    (scene.follow (Signal.events (s.perform a).2)).Shows s.settings.trailLimit (s.perform a).1.store := by
  rcases Act.cases a with hedit | hfree | rfl
  · exact hshows.edited h.ascending (perform_edited s hedit) (tellable_iff.mp hafter)
  · exact hshows.played (tellable_iff.mp hbefore) (perform_plays s hfree).store
  · exact absurd rfl hreset

private theorem enact_shows {s : Stage α} (h : Reachable s) {acts : List (Act α)} (hacts : ∀ a ∈ acts, a ≠ .reset)
    (htellable : s.staysTellable acts = true) {scene : Scene α}
    (hshows : scene.Shows s.settings.trailLimit s.store) :
    (scene.follow (Signal.events (s.enact acts).2)).Shows s.settings.trailLimit (s.enact acts).1.store := by
  induction acts generalizing s scene with
  | nil => exact hshows
  | cons a acts ih =>
    obtain ⟨ha, hrest⟩ := List.forall_mem_cons.mp hacts
    obtain ⟨hnow, hlater⟩ := Bool.and_eq_true_iff.mp htellable
    have hsettings : (s.perform a).1.settings = s.settings := (perform_inherits s a).settings
    have hact := perform_shows h.orderly ha hnow (tellable_of_stays hlater) hshows
    rw [← hsettings] at hact ⊢
    rw [enact, Signal.events_append, Scene.follow_append]
    exact ih (h.act a) hrest hlater hact

/-- From the events since the stage was empty, a renderer knows the actors on the stage and all fields of their
records, and the trail of a record is the newest part of the points that were collected for it. -/
theorem feed_shows_stage {s : Stage α} (h : s.IsEmpty) {acts : List (Act α)} (hacts : ∀ a ∈ acts, a ≠ .reset)
    (htellable : s.staysTellable acts = true) :
    (∀ id, (Scene.empty.follow (Signal.events (s.enact acts).2) id).isSome ↔
      id ∈ (s.enact acts).1.store.ids) ∧
    ∀ a ∈ (s.enact acts).1.store.actors, ∃ (fs : Fields α) (points : List (Point α)),
      Scene.empty.follow (Signal.events (s.enact acts).2) a.id = some fs ∧
      (∀ name, name ≠ "trail" → fs.get? name = a.view.get? name) ∧
      (∀ b, a.document = .ok b → b = a) ∧
      fs.get? "trail" = some (.list (points.map Point.view)) ∧
      a.trail = Store.newest (max 1 s.settings.maxTrail).toNat points := by
  have hreachable : Reachable s := .empty h
  have hstart : Scene.empty.Shows s.settings.trailLimit s.store := by
    rw [h.store]
    exact Scene.empty_shows _
  have hshows := enact_shows hreachable hacts htellable hstart
  generalize Scene.empty.follow (Signal.events (s.enact acts).2) = scene at hshows ⊢
  constructor
  · intro id
    rw [← Store.isSome_get?]
    have hthis := hshows id
    cases hget : (s.enact acts).1.store.get? id <;> cases hscene : scene id <;> rw [hget, hscene] at hthis
    · rfl
    · cases hthis
    · cases hthis
    · simp
  · intro a ha
    have hget : (s.enact acts).1.store.get? a.id = some a :=
      Store.get?_of_mem (hreachable.enact acts).orderly.ascending ha
    have hthis := hshows a.id
    rw [hget] at hthis
    cases hscene : scene a.id with
    | none =>
      rw [hscene] at hthis
      cases hthis
    | some fs =>
      rw [hscene] at hthis
      cases hthis with
      | some hdepicts =>
        obtain ⟨points, hpoints, hnewest⟩ := hdepicts.trail
        obtain ⟨x, hsize⟩ := (hreachable.enact acts).sized a.id a hget
        refine ⟨fs, points, rfl, ?_, fun b hb => Actor.document_eq hsize hb, hpoints, hnewest⟩
        intro name hname
        rw [Actor.get?_view]
        exact hdepicts.fields name hname

/-- One actor turns and says something while the other leaves. -/
def errand : List (Act Float) :=
  [.init, .addActor { x := .int 300, y := .int 300 }, .submit 1 "turn" [("degrees", .int 0)] none,
    .submit 1 "say" [("message", .text "done"), ("duration", .int 5)] none, .playAll, .deleteActor 2,
    .beat .turn, .beat .turn]

theorem errand_shown :
    Scene.empty.follow (Signal.events ((new Settings.standard ⟨[], 0⟩).enact errand).2) 2 = none ∧
      ∃ fs : Fields Float,
        Scene.empty.follow (Signal.events ((new Settings.standard ⟨[], 0⟩).enact errand).2) 1 = some fs ∧
        (fs.get? "message").bind Value.text? = some "done" := by
  obtain ⟨hids, hfigures⟩ := feed_shows_stage (new_isEmpty Settings.standard ⟨[], 0⟩)
    (show ∀ a ∈ errand, a ≠ .reset by simp [errand]) (by decide +kernel)
  have hthere : ((new Settings.standard ⟨[], 0⟩).enact errand).1.store.actors.map
      (fun a => (a.id, (a.view.get? "message").bind Value.text?)) = [(1, some "done")] := by decide +kernel
  constructor
  · have hgone : 2 ∉ ((new Settings.standard ⟨[], 0⟩).enact errand).1.store.ids := by decide +kernel
    rw [← hids 2] at hgone
    simpa using hgone
  · obtain ⟨a, ha, hmessage⟩ : ∃ a ∈ ((new Settings.standard ⟨[], 0⟩).enact errand).1.store.actors,
        (a.id, (a.view.get? "message").bind Value.text?) = (1, some "done") := by
      rw [← List.mem_map, hthere]
      exact List.mem_singleton_self _
    obtain ⟨fs, points, hfs, hfields, -⟩ := hfigures a ha
    obtain ⟨hid, htext⟩ := Prod.mk.inj hmessage
    rw [hid] at hfs
    exact ⟨fs, hfs, by rw [hfields "message" (by decide), htext]⟩

/-- An actor is given a message that is nested too deep to be told. -/
def mumble : List (Act Float) :=
  [.init, .submit 1 "say" [("message", crate 254), ("duration", .int 0)] none]

/-- A program that cannot be told is on the stage, but not in the document that a renderer has. -/
theorem untold_program :
    ∃ acts : List (Act Float), (∀ a ∈ acts, a ≠ .reset) ∧
      ∃ a ∈ ((new Settings.standard ⟨[], 0⟩).enact acts).1.store.actors,
        (Scene.empty.follow (Signal.events ((new Settings.standard ⟨[], 0⟩).enact acts).2) a.id).bind
          (·.get? "program") ≠ a.view.get? "program" := by
  have hshown : ((Scene.empty.follow (Signal.events ((new Settings.standard ⟨[], 0⟩).enact mumble).2) 1).bind
      (·.get? "program")).map Value.isGiven = some false := by decide +kernel
  have hstored : ((new Settings.standard ⟨[], 0⟩).enact mumble).1.store.actors.map
      (fun a => (a.id, (a.view.get? "program").map Value.isGiven)) = [(1, some true)] := by decide +kernel
  obtain ⟨a, ha, hprogram⟩ : ∃ a ∈ ((new Settings.standard ⟨[], 0⟩).enact mumble).1.store.actors,
      (a.id, (a.view.get? "program").map Value.isGiven) = (1, some true) := by
    rw [← List.mem_map, hstored]
    exact List.mem_singleton_self _
  obtain ⟨hid, hgiven⟩ := Prod.mk.inj hprogram
  refine ⟨mumble, by simp [mumble], a, ha, ?_⟩
  intro hsame
  rw [hid] at hsame
  rw [hsame, hgiven] at hshown
  cases hshown

end Stage

end SpriteStage
