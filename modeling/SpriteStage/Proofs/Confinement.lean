import SpriteStage.Proofs.BinaryTime
import SpriteStage.Proofs.Heritage
import SpriteStage.Proofs.Requests
/-!
# Confinement

A position is brought onto the stage before it is stored, wherever it comes from, and a position
is told as it is stored. Bringing a coordinate between two numbers asks first whether it lies
below the upper one, so that what compares false with everything ends at the upper edge.
-/
namespace SpriteStage

/-! ## Numbers with an order -/

/-- Numbers that are compared as the members of a linear order are, infinite ones included. What has no rank is
no number and compares false with everything. -/
class Ranked (α : Type) [Scalar α] where
  Rank : Type
  order : LinearOrder Rank
  rank : α → Option Rank
  lt_iff : ∀ a b : α, Scalar.lt a b = true ↔ ∃ r s, rank a = some r ∧ rank b = some s ∧ r < s
  eq_iff : ∀ a b : α, Scalar.eq a b = true ↔ ∃ r, rank a = some r ∧ rank b = some r
  zero : ∃ r, rank (Scalar.zero : α) = some r

attribute [reducible, instance] Ranked.order

namespace Ranked

variable {α : Type} [Scalar α] [Ranked α] {a b low high : α}

private theorem eq_self_iff : Scalar.eq a a = true ↔ ∃ r, rank a = some r := by
  simp [eq_iff]

private theorem le_iff : Scalar.le a b = true ↔ ∃ r s, rank a = some r ∧ rank b = some s ∧ r ≤ s := by
  rw [Scalar.le, Bool.or_eq_true, lt_iff, eq_iff]
  constructor
  · rintro (⟨r, s, ha, hb, hlt⟩ | ⟨r, ha, hb⟩)
    · exact ⟨r, s, ha, hb, hlt.le⟩
    · exact ⟨r, r, ha, hb, le_refl r⟩
  · rintro ⟨r, s, ha, hb, hle⟩
    rcases hle.lt_or_eq with hlt | rfl
    · exact .inl ⟨r, s, ha, hb, hlt⟩
    · exact .inr ⟨r, ha, hb⟩

private theorem le_of_not_lt (ha : Scalar.eq a a = true) (hb : Scalar.eq b b = true) (h : Scalar.lt b a = false) :
    Scalar.le a b = true := by
  obtain ⟨r, hr⟩ := eq_self_iff.mp ha
  obtain ⟨s, hs⟩ := eq_self_iff.mp hb
  refine le_iff.mpr ⟨r, s, hr, hs, ?_⟩
  by_contra hgt
  have hlt : Scalar.lt b a = true := (lt_iff b a).mpr ⟨s, r, hs, hr, not_le.mp hgt⟩
  rw [h] at hlt
  cases hlt

private theorem isNumber_of_le (h : Scalar.le a b = true) : Scalar.eq a a = true ∧ Scalar.eq b b = true := by
  obtain ⟨r, s, ha, hb, -⟩ := le_iff.mp h
  exact ⟨eq_self_iff.mpr ⟨r, ha⟩, eq_self_iff.mpr ⟨s, hb⟩⟩

omit [Ranked α] in
theorem le_refl_of_number (h : Scalar.eq a a = true) : Scalar.le a a = true := by
  simp [Scalar.le, h]

private theorem clamp_between (h : Scalar.le low high = true) (x : α) :
    Scalar.le low (Scalar.clamp low high x) = true ∧ Scalar.le (Scalar.clamp low high x) high = true := by
  obtain ⟨hlow, hhigh⟩ := isNumber_of_le h
  -- What is no number is not below `high`, and then `high` itself is kept.
  have hleast : Scalar.le (Scalar.least high x) high = true := by
    unfold Scalar.least
    split
    · rename_i hlt
      simp [Scalar.le, hlt]
    · exact le_refl_of_number hhigh
  unfold Scalar.clamp Scalar.greatest
  split
  · rename_i hlt
    exact ⟨by simp [Scalar.le, hlt], hleast⟩
  · exact ⟨le_refl_of_number hlow, h⟩

end Ranked

namespace Binary64

open Float.Model (UnpackedFloat)

def rank? (x : Float) : Option Int :=
  match x.toModel.unpack with
  | .notANumber => none
  | u => some (measure u)

private theorem rank?_eq_some {x : Float} {r : Int} :
    rank? x = some r ↔ x.toModel.unpack ≠ .notANumber ∧ measure x.toModel.unpack = r := by
  unfold rank?
  cases x.toModel.unpack <;> simp

private theorem compare_eq_some {x y : Float} {o : Ordering} :
    x.toModel.unpack.compare y.toModel.unpack = some o ↔
      ∃ r s, rank? x = some r ∧ rank? y = some s ∧ compare r s = o := by
  simp only [rank?_eq_some]
  by_cases hx : x.toModel.unpack = .notANumber
  · simp [hx, UnpackedFloat.compare]
  · by_cases hy : y.toModel.unpack = .notANumber
    · cases hx' : x.toModel.unpack <;> simp [hy, UnpackedFloat.compare]
    · rw [compare_measure (stored_unpack _) (stored_unpack _) hx hy]
      simp [hx, hy]

end Binary64

open Binary64 in
instance : Ranked Float where
  Rank := Int
  order := inferInstance
  rank := rank?
  lt_iff x y := by
    rw [lt_eq_compare, beq_iff_eq, compare_eq_some]
    simp only [compare_lt_iff_lt]
  eq_iff x y := by
    change (x.toModel.unpack.compare y.toModel.unpack == some .eq) = true ↔ _
    rw [beq_iff_eq, compare_eq_some]
    simp only [compare_eq_iff_eq]
    constructor
    · rintro ⟨r, s, hx, hy, rfl⟩
      exact ⟨r, hx, hy⟩
    · rintro ⟨r, hx, hy⟩
      exact ⟨r, r, hx, hy, rfl⟩
  zero := ⟨0, by decide +kernel⟩

variable {α : Type} [Scalar α]

namespace Settings

/-- A stage whose measures are numbers and not negative. They may be infinite. -/
structure Spacious (s : Settings α) : Prop where
  width : Scalar.eq s.width s.width = true ∧ Scalar.lt s.width Scalar.zero = false
  height : Scalar.eq s.height s.height = true ∧ Scalar.lt s.height Scalar.zero = false

/-- Whether a point lies on the stage. -/
structure Holds (s : Settings α) (p : Point α) : Prop where
  left : Scalar.le Scalar.zero p.x = true
  right : Scalar.le p.x s.width = true
  bottom : Scalar.le Scalar.zero p.y = true
  top : Scalar.le p.y s.height = true

def Confining (s : Settings α) : Prop := ∀ p, s.Holds (s.confine p)

private theorem Spacious.confining [Ranked α] {s : Settings α} (h : s.Spacious) : s.Confining := by
  have hzero : Scalar.eq (Scalar.zero : α) Scalar.zero = true := Ranked.eq_self_iff.mpr Ranked.zero
  have hwidth := Ranked.le_of_not_lt hzero h.width.1 h.width.2
  have hheight := Ranked.le_of_not_lt hzero h.height.1 h.height.2
  intro p
  obtain ⟨hleft, hright⟩ := Ranked.clamp_between hwidth p.x
  obtain ⟨hbottom, htop⟩ := Ranked.clamp_between hheight p.y
  exact ⟨hleft, hright, hbottom, htop⟩

end Settings

def Event.position? (e : Event α) : Option (Point α) :=
  match e.change with
  | .added a => some a.position
  | .deleted => none
  | .wrote p _ => p.position

def Event.Inside (s : Settings α) (e : Event α) : Prop := ∀ p, e.position? = some p → s.Holds p

namespace Store

def Inside (s : Settings α) (st : Store α) : Prop := ∀ a ∈ st.actors, s.Holds a.position

/-- What happens to a store leaves nobody outside and tells no position outside. -/
structure Confines (s : Settings α) (st : Store α) (out : List (Signal α)) (st' : Store α) : Prop where
  stored : st.Inside s → st'.Inside s
  told : ∀ e ∈ Signal.events out, e.Inside s

namespace Confines

variable {s : Settings α} {st st₁ st' : Store α} {out more : List (Signal α)}

private theorem quiet (h : st.Inside s → st'.Inside s) : Confines s st [] st' := ⟨h, by simp [Signal.events]⟩

private theorem refl (st : Store α) : Confines s st [] st := quiet id

private theorem append (h : Confines s st out st₁) (h' : Confines s st₁ more st') :
    Confines s st (out ++ more) st' where
  stored hinside := h'.stored (h.stored hinside)
  told := by
    intro e he
    rw [Signal.events_append, List.mem_append] at he
    rcases he with he | he
    · exact h.told e he
    · exact h'.told e he

private theorem aside (x : Signal α) (hx : x.event? = none) (h : Confines s st out st') :
    Confines s st (x :: out) st' where
  stored := h.stored
  told := by
    rw [Signal.events, List.filterMap_cons, hx]
    exact h.told

end Confines

variable {s : Settings α} {st st' : Store α} {out : List (Signal α)}

private theorem replace_inside (hs : s.Confining) (hinside : st.Inside s) {id : Int} {a b : Actor α}
    (ha : st.get? id = some a) {p : Option (Point α)} (hb : b.position = (p.map s.confine).getD a.position) :
    (st.replace b).Inside s := by
  intro x hx
  obtain ⟨c, hc, rfl⟩ := List.mem_map.mp hx
  split
  · rw [hb]
    cases p with
    | none => exact hinside a (mem_of_get? ha)
    | some point => exact hs point
  · exact hinside c hc

private theorem replace_confines (hs : s.Confining) {id : Int} {a b : Actor α} (ha : st.get? id = some a)
    {p : Option (Point α)} (hb : b.position = (p.map s.confine).getD a.position) {e : Event α}
    (he : e.position? = p.map s.confine) : Confines s st [.event e] (st.replace b) := by
  refine ⟨fun hinside => replace_inside hs hinside ha hb, ?_⟩
  intro x hx point hpoint
  cases List.mem_singleton.mp hx
  rw [he] at hpoint
  obtain ⟨q, -, rfl⟩ := Option.map_eq_some_iff.mp hpoint
  exact hs q

private theorem write_confines (hs : s.Confining) {id : Int} {p : Patch α} {e : Event α}
    (h : st.write s id p = .ok (st', e)) : Confines s st [.event e] st' := by
  obtain ⟨a, ha, hdone⟩ := bind_eq_ok h
  cases hdone
  exact replace_confines hs (get_eq_ok.mp ha) (p := p.position) rfl rfl

private theorem extendTrail_confines (hs : s.Confining) {id : Int} {point : Point α} {p : Patch α} {e : Event α}
    (h : st.extendTrail s id point p = .ok (st', e)) : Confines s st [.event e] st' := by
  obtain ⟨a, ha, hdone⟩ := bind_eq_ok h
  cases hdone
  exact replace_confines hs (get_eq_ok.mp ha) (p := p.position) rfl rfl

private theorem publish_confines (room : Nat) {written : Except Error (Store α × Event α)}
    (h : ∀ st' e, written = .ok (st', e) → Confines s st [.event e] st') :
    Confines s st (st.publish room written).out (st.publish room written).store := by
  unfold publish
  split
  · exact .refl st
  · rename_i st' e
    split
    · exact .quiet (h st' e rfl).stored
    · exact h st' e rfl

private theorem Updates.confines (hs : s.Confining) (h : Updates s st out st') : Confines s st out st' := by
  induction h with
  | nil st => exact .refl st
  | tell x aside _ ih => exact ih.aside x aside
  | write plain written _ ih => exact (write_confines hs written).append ih
  | move point glided _ ih => exact (extendTrail_confines hs glided).append ih

private theorem Deals.confines (hs : s.Confining) {pool : Program α → Prop} (h : Deals pool st out st') :
    Confines s st out st' := by
  induction h with
  | nil st => exact .refl st
  | notice n _ ih => exact ih.aside _ rfl
  | @told st _ _ id a p found _ _ _ ih =>
    have hgiven : Confines s st [.event ⟨id, .wrote { program := some p } none⟩]
        (st.replace { a with program := p }) :=
      replace_confines hs found (b := { a with program := p }) (p := none) rfl rfl
    exact hgiven.append ih
  | @untold st _ _ id a p found _ _ _ ih =>
    have hgiven : Confines s st [] (st.replace { a with program := p }) :=
      .quiet fun hinside => replace_inside hs hinside found (b := { a with program := p }) (p := none) rfl
    exact hgiven.append ih

private theorem Played.confines (hs : s.Confining) {through : Prop} (h : Played s through st out st') :
    Confines s st out st' := by
  cases h with
  | intro deals _ updates events =>
    have hall := (deals.confines hs).append (updates.confines hs)
    refine ⟨hall.stored, ?_⟩
    rw [events, ← Signal.events_append]
    exact hall.told

private theorem cast_confines (hs : s.Confining) (st : Store α) (d : Draws α) (c : Casting α) :
    (st.Inside s → (st.cast s d c).1.Inside s) ∧
      ∀ a, (st.cast s d c).2.2 = .ok a → s.Holds a.position := by
  unfold cast
  dsimp only
  split
  · exact ⟨id, fun a ha => nomatch ha⟩
  · rename_i p hp
    split
    · exact ⟨id, fun a ha => nomatch ha⟩
    · rename_i a ha
      have hposition : a.position = s.confine p := by
        unfold Actor.check at ha
        split at ha
        · cases ha
          rfl
        · cases ha
      have hholds : s.Holds a.position := hposition ▸ hs p
      refine ⟨?_, ?_⟩
      · intro hinside b hb
        rcases List.mem_append.mp hb with hb | hb
        · exact hinside b hb
        · rw [List.mem_singleton.mp hb]
          exact hholds
      · intro b hb
        cases hb
        exact hholds

end Store

private theorem World.write_confines {w w' : World α} (hs : w.settings.Confining) {actor : Int} {p : Patch α}
    {out : List (Signal α)} (h : w.write actor p = .ok (w', out)) :
    Store.Confines w.settings w.store out w'.store := by
  obtain ⟨⟨st, e⟩, hwrite, hdone⟩ := bind_eq_ok h
  cases hdone
  exact Store.write_confines hs hwrite

namespace Stage

/-- What happens on a stage leaves nobody outside, tells no position outside and does not move the edges. -/
structure Confines (s : Stage α) (out : List (Signal α)) (s' : Stage α) : Prop where
  settings : s'.settings = s.settings
  store : Store.Confines s.settings s.store out s'.store

namespace Confines

variable {s s₁ s' : Stage α} {out more : List (Signal α)}

private theorem sameWorld (h : s'.world = s.world) : Confines s [] s' where
  settings := congrArg World.settings h
  store := by
    have hstore : s'.store = s.store := congrArg World.store h
    rw [hstore]
    exact .refl _

private theorem refl (s : Stage α) : Confines s [] s := sameWorld rfl

private theorem trans (h : Confines s out s₁) (h' : Confines s₁ more s') : Confines s (out ++ more) s' where
  settings := h'.settings.trans h.settings
  store := by
    have hmore := h'.store
    rw [h.settings] at hmore
    exact h.store.append hmore

private theorem before (hworld : s₁.world = s.world) (h : Confines s₁ out s') : Confines s out s' :=
  (sameWorld hworld).trans h

end Confines

private theorem Updated.confines {s s' : Stage α} (hs : s.settings.Confining) {out : List (Signal α)}
    (h : Updated s out s') : Confines s out s' :=
  ⟨h.frame.settings, h.store.confines hs⟩

private theorem Plays.confines {s s' : Stage α} (hs : s.settings.Confining) {through : Prop}
    {out : List (Signal α)}
    (h : Plays through s out s') : Confines s out s' :=
  ⟨h.frame.settings, h.store.confines hs⟩

/-! ## Edits and writes -/

private theorem tell_confines {β : Type} {s : Stage α} {written : Except Error (Store α × Event α)}
    (h : ∀ st e, written = .ok (st, e) → Store.Confines s.settings s.store [.event e] st)
    (result : Store α → Except Error β) : Confines s (s.tell written result).out (s.tell written result).stage :=
  ⟨rfl, Store.publish_confines _ h⟩

private theorem editProgram_confines {β : Type} {s : Stage α} (hs : s.settings.Confining) (actor : Int)
    (f : Program α → Except Error (Program α × β)) :
    Confines s (s.editProgram actor f).out (s.editProgram actor f).stage := by
  unfold editProgram
  split
  · exact .refl s
  · exact tell_confines (fun _ _ hwrite => Store.write_confines hs hwrite) _

private theorem cast_confines {s : Stage α} (hs : s.settings.Confining) (c : Casting α) :
    Confines s (s.cast c).out (s.cast c).stage := by
  obtain ⟨hstored, hnew⟩ := Store.cast_confines hs s.store s.draws c
  unfold cast
  generalize s.store.cast s.settings s.draws c = done at hstored hnew
  obtain ⟨store, draws, result⟩ := done
  cases result with
  | error cause => exact ⟨rfl, .quiet hstored⟩
  | ok a =>
    refine ⟨rfl, hstored, ?_⟩
    intro e he point hpoint
    cases List.mem_singleton.mp he
    cases hpoint
    exact hnew a rfl

private theorem addActor_confines {s : Stage α} (hs : s.settings.Confining) (c : Casting α) :
    Confines s (s.addActor c).out (s.addActor c).stage := by
  have hcast := cast_confines hs c
  unfold addActor
  dsimp only
  split
  · exact hcast
  · exact ⟨hcast.settings, hcast.store⟩

private theorem seed_confines {s : Stage α} (hs : s.settings.Confining) : Confines s s.seed.out s.seed.stage := by
  unfold seed
  split
  · exact cast_confines hs _
  · exact .refl s

private theorem init_confines {s : Stage α} (hs : s.settings.Confining) : Confines s s.init.out s.init.stage := by
  have hseed := seed_confines hs
  unfold init
  dsimp only
  split
  · exact hseed
  · exact ⟨hseed.settings, hseed.store⟩

private theorem update_confines {s : Stage α} (hs : s.settings.Confining) (actor : Int) (fs : Fields α) :
    Confines s (s.update actor fs).out (s.update actor fs).stage := by
  unfold update
  split
  · rename_i s₁ cause hread
    exact .sameWorld (congrArg (·.1.world) hread.symm)
  · rename_i s₁ r hread
    have hworld : s₁.world = s.world := congrArg (·.1.world) hread.symm
    have hs₁ : s₁.settings.Confining := by rwa [settings, hworld]
    refine .before hworld (tell_confines ?_ _)
    intro st e hupdate
    obtain ⟨-, -, hrest⟩ := bind_eq_ok hupdate
    obtain ⟨p, -, hwrite⟩ := bind_eq_ok hrest
    exact Store.write_confines hs₁ hwrite

private theorem updateTrail_confines {s : Stage α} (hs : s.settings.Confining) (actor : Int) (point : Value α)
    (fs : Fields α) :
    Confines s (s.updateTrail actor point fs).out (s.updateTrail actor point fs).stage := by
  unfold updateTrail
  split
  · exact .refl s
  · split
    · rename_i s₁ cause hread
      exact .sameWorld (congrArg (·.1.world) hread.symm)
    · rename_i s₁ r hread
      have hworld : s₁.world = s.world := congrArg (·.1.world) hread.symm
      have hs₁ : s₁.settings.Confining := by rwa [settings, hworld]
      refine .before hworld (tell_confines ?_ _)
      intro st e hupdate
      obtain ⟨-, -, hrest⟩ := bind_eq_ok hupdate
      obtain ⟨p, -, hextend⟩ := bind_eq_ok hrest
      exact Store.extendTrail_confines hs₁ hextend

/-! ## Acts and requests -/

private theorem perform_confines {s : Stage α} (hs : s.settings.Confining) (a : Act α) :
    Confines s (s.perform a).2 (s.perform a).1 := by
  rcases Act.cases a with hedit | hfree | rfl
  · cases a with
    | init => exact init_confines hs
    | addActor casting => exact addActor_confines hs casting
    | deleteActor actor =>
      simp only [perform, Reply.effect, deleteActor]
      split
      · exact .refl s
      · refine ⟨rfl, ?_, ?_⟩
        · intro hinside a ha
          exact hinside a (List.mem_filter.mp ha).1
        · intro e he point hpoint
          cases List.mem_singleton.mp he
          cases hpoint
    | selectActor actor =>
      simp only [perform, Reply.effect, selectActor]
      split
      · exact .refl s
      · exact .sameWorld rfl
    | submit actor typeId inputs parent =>
      simp only [perform, Reply.effect, submit]
      split
      · exact .refl s
      · refine .before ?_ (editProgram_confines (s := { s with nextBlock := s.nextBlock + 1 }) hs actor _)
        rfl
    | editInput actor block name value => exact editProgram_confines hs actor _
    | reorder actor source target => exact editProgram_confines hs actor _
    | removeBlock actor block => exact editProgram_confines hs actor _
    | duplicate actor block =>
      simp only [perform, Reply.effect, duplicate]
      split
      · exact .refl s
      · rename_i q clone next _
        refine .before ?_ (tell_confines (s := { s with nextBlock := next })
          (fun _ _ hwrite => Store.write_confines hs hwrite) _)
        rfl
    | clearProgram actor => exact editProgram_confines hs actor _
    | reset | playAll | playActor _ | stopAll | stopActor _ | beat _ => simp [Act.isEdit] at hedit
  · -- The positions of frames come through writes of a run like any others.
    exact (perform_plays s hfree).confines hs
  · have hstop := (stop_updated s s.players).confines hs
    exact ⟨hstop.settings, fun _ a ha => (List.not_mem_nil ha).elim, hstop.store.told⟩

private theorem elapses_confines {s s' : Stage α} (hs : s.settings.Confining) {out : List (Signal α)}
    (h : Elapses s out s') : Confines s out s' := by
  obtain ⟨beats, rfl, rfl⟩ := h
  induction beats generalizing s with
  | nil => exact Confines.refl s
  | cons b beats ih =>
    have hbeat : Confines s (s.beat b).2 (s.beat b).1 := perform_confines hs (.beat b)
    have hrest := ih (s := (s.beat b).1) (by rwa [hbeat.settings])
    simp only [follow, List.map_append, List.map_map, Function.comp_def, List.map_id']
    exact hbeat.trans hrest

private theorem collide_confines {s : Stage α} (hs : s.settings.Confining) :
    Confines s s.collide.out s.collide.stage := by
  have hall : s.world.store.Within fun _ => True := fun _ _ => trivial
  exact ⟨(s.world.frame_collide _).settings, (World.collide_deals hall _).confines hs⟩

private theorem beginEngine_confines {s : Stage α} (hs : s.settings.Confining) (id : EngineId) :
    Confines s (s.beginEngine id).out (s.beginEngine id).stage := by
  unfold beginEngine
  split
  · exact .refl s
  · rename_i e _
    cases hphase : e.phase.fire? .begin with
    | none =>
      simp only [Engine.begin, hphase]
      exact .sameWorld rfl
    | some phase =>
      simp only [Engine.begin, hphase]
      cases hwrite : s.world.write e.actor { isRunning := some (.bool true), stepIndex := some (.int 0) } with
      | error cause => exact .sameWorld rfl
      | ok done =>
        have hbegun := World.write_confines hs hwrite
        exact ⟨(World.frame_write hwrite).settings, hbegun.append (.aside _ rfl (.refl _))⟩

private theorem ask_confines {s : Stage α} (hs : s.settings.Confining) (r : Request α) :
    Confines s (s.ask r).out (s.ask r).stage := by
  cases r with
  | act a =>
    have hact := perform_confines hs a
    rw [← s.answer_effect a] at hact
    exact hact
  | turns n => exact elapses_confines hs (turns_elapses n s)
  | drain fuel => exact elapses_confines hs (drain_elapses fuel s)
  | advance fuel seconds => exact elapses_confines hs (advance_elapses fuel s seconds)
  | run fuel => exact elapses_confines hs (run_elapses fuel s)
  | awaitIdle fuel => exact elapses_confines hs (awaitIdle_elapses fuel s)
  | look => exact .refl s
  | find actor => exact .refl s
  | update actor fields => exact update_confines hs actor fields
  | updateTrail actor point fields => exact updateTrail_confines hs actor point fields
  | collide => exact collide_confines hs
  | seed => exact seed_confines hs
  | clearStore => exact ⟨rfl, .quiet fun _ a ha => (List.not_mem_nil ha).elim⟩
  | clearTouching => exact ⟨rfl, .refl _⟩
  | registerType type =>
    simp only [ask, registerType]
    split
    · exact .refl s
    · exact ⟨rfl, .refl _⟩
  | newEngine actor => exact .sameWorld rfl
  | beginEngine id => exact beginEngine_confines hs id
  | runEngine id =>
    simp only [ask, runEngine]
    split
    · exact .refl s
    · exact .sameWorld rfl
  | cancelEngine id =>
    simp only [ask, cancelEngine]
    split
    · exact .refl s
    · exact .sameWorld rfl
  | settleEngine id outcome =>
    simp only [ask, settleEngine]
    split
    · exact .refl s
    · exact (settle_updated s id _).confines hs

end Stage

namespace House

/-- Calls leave the edges of the stage where they are, leave nobody outside and tell no position outside. -/
theorem serve_confines {h : House α} (hs : h.stage.settings.Confining) (calls : List (Call α)) :
    (serve calls h).1.stage.settings = h.stage.settings ∧
      (h.stage.store.Inside h.stage.settings → (serve calls h).1.stage.store.Inside h.stage.settings) ∧
      ∀ receipt ∈ (serve calls h).2, ∀ e ∈ Signal.events receipt.out, e.Inside h.stage.settings := by
  induction calls generalizing h with
  | nil => exact ⟨rfl, id, by simp [serve]⟩
  | cons call calls ih =>
    cases call with
    | subscribe l => exact ih (h := { h with feed := h.feed.subscribe l }) hs
    | unsubscribe l => exact ih (h := { h with feed := h.feed.unsubscribe l }) hs
    | request r =>
      have hask := Stage.ask_confines hs r
      have hsettings : (h.ask r).1.stage.settings = h.stage.settings := hask.settings
      obtain ⟨hsame, hinside, htold⟩ := ih (h := (h.ask r).1) (by rwa [hsettings])
      rw [hsettings] at hsame hinside htold
      refine ⟨hsame, fun hbefore => hinside (hask.store.stored hbefore), ?_⟩
      intro receipt hreceipt
      rcases List.mem_cons.mp hreceipt with rfl | hreceipt
      · intro e he
        change e ∈ Signal.events (h.feed.relay (h.stage.ask r).out).2 at he
        rw [Feed.events_relay] at he
        exact hask.store.told e he
      · exact htold receipt hreceipt

end House

private theorem Settings.Holds.isNumber [Ranked α] {s : Settings α} {p : Point α} (h : s.Holds p) :
    Scalar.eq p.x p.x = true ∧ Scalar.eq p.y p.y = true :=
  ⟨(Ranked.isNumber_of_le h.left).2, (Ranked.isNumber_of_le h.bottom).2⟩

namespace Stage

/-- If the measures of a stage are numbers and not negative, then whatever is asked for, with whatever
coordinates, and whatever the arithmetic makes of them, every stored position lies on the stage and so does
every position that is told. In particular their coordinates are numbers. -/
theorem positions_stay_on_stage [Ranked α] {h : House α} (hempty : h.stage.IsEmpty)
    (hspacious : h.stage.settings.Spacious) (calls : List (House.Call α)) :
    (∀ a ∈ (House.serve calls h).1.stage.store.actors, h.stage.settings.Holds a.position ∧
      Scalar.eq a.position.x a.position.x = true ∧ Scalar.eq a.position.y a.position.y = true) ∧
    ∀ receipt ∈ (House.serve calls h).2, ∀ e ∈ Signal.events receipt.out, ∀ p, e.position? = some p →
      h.stage.settings.Holds p ∧ Scalar.eq p.x p.x = true ∧ Scalar.eq p.y p.y = true := by
  have hstart : h.stage.store.Inside h.stage.settings := by
    rw [hempty.store]
    exact fun a ha => (List.not_mem_nil ha).elim
  obtain ⟨-, hinside, htold⟩ := House.serve_confines hspacious.confining calls
  refine ⟨?_, ?_⟩
  · intro a ha
    have hholds := hinside hstart a ha
    exact ⟨hholds, hholds.isNumber⟩
  · intro receipt hreceipt e he p hp
    have hholds := htold receipt hreceipt e he p hp
    exact ⟨hholds, hholds.isNumber⟩

/-- A stage without an edge on one side. -/
def openEnded : House Float := ⟨new { Settings.standard with width := Scalar.infinity } ⟨[], 0⟩, Feed.empty⟩

/-- Two actors are added and moved with coordinates that are infinite or no numbers. -/
def astray : List (House.Call Float) :=
  [.request (.act (.addActor { x := .real Scalar.nan, y := .int (-7) })),
    .request (.act (.addActor { x := .int 4, y := .real Scalar.infinity })),
    .request (.update 2 [("position", .object [("x", .real (-Scalar.infinity)), ("y", .real Scalar.nan)])]),
    .request (.updateTrail 2 (.object [("x", .real Scalar.nan), ("y", .int 3)])
      [("position", .object [("x", .int 9), ("y", .int 900)])])]

/-- The first, who stands infinitely far out, goes to a point close by, for which no number comes out. -/
def homecoming : List (House.Call Float) :=
  [.request (.act (.submit 1 "goto" [("x", .int 5), ("y", .int 6)] none)), .request (.act .playAll),
    .request (.advance 200 (Scalar.whole 60))]

theorem astray_stays :
    (House.serve astray openEnded).1.stage.store.actors.map (fun a => Scalar.isFinite a.position.x) =
        [false, true] ∧
      (House.serve astray openEnded).1.stage.store.actors.map (fun a => a.trail.any fun p => !Scalar.eq p.x p.x) =
        [false, true] ∧
      (∀ a ∈ (House.serve (astray ++ homecoming) openEnded).1.stage.store.actors,
        openEnded.stage.settings.Holds a.position) ∧
      ∀ receipt ∈ (House.serve (astray ++ homecoming) openEnded).2, ∀ e ∈ Signal.events receipt.out, ∀ p,
        e.position? = some p → openEnded.stage.settings.Holds p := by
  have hspacious : openEnded.stage.settings.Spacious :=
    ⟨⟨by decide +kernel, by decide +kernel⟩, by decide +kernel, by decide +kernel⟩
  obtain ⟨hstored, htold⟩ := positions_stay_on_stage (new_isEmpty _ _) hspacious (astray ++ homecoming)
  refine ⟨by decide +kernel, by decide +kernel, fun a ha => (hstored a ha).1, ?_⟩
  intro receipt hreceipt e he p hp
  exact (htold receipt hreceipt e he p hp).1

end Stage

end SpriteStage
