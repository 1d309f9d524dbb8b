import SpriteStage.Proofs.Doings
import SpriteStage.Proofs.Exchange
import SpriteStage.Proofs.Standstill
/-!
# What play does to the store

Everything that happens on a stage, edits apart, changes records in two ways. A collision pass
deals programs out. All else only updates records: it leaves the programs alone and adds to a
trail at most a point at a time, and each update is told as it is made.
-/
namespace SpriteStage

variable {α : Type} [Scalar α]

namespace Store

/-- Updates of records, and what is told meanwhile. -/
inductive Updates (s : Settings α) : Store α → List (Signal α) → Store α → Prop where
  | nil (st : Store α) : Updates s st [] st
  | tell {st st' : Store α} {out : List (Signal α)} (x : Signal α) (aside : x.event? = none)
      (rest : Updates s st out st') : Updates s st (x :: out) st'
  | write {st st₁ st' : Store α} {out : List (Signal α)} {id : Int} {p : Patch α} {e : Event α}
      (plain : p.Plain) (written : st.write s id p = .ok (st₁, e)) (rest : Updates s st₁ out st') :
      Updates s st (.event e :: out) st'
  | move {st st₁ st' : Store α} {out : List (Signal α)} {id : Int} {e : Event α} (point : Point α)
      (glided : st.extendTrail s id point { position := some point } = .ok (st₁, e))
      (rest : Updates s st₁ out st') : Updates s st (.event e :: out) st'

namespace Updates

variable {s : Settings α} {st st₁ st' : Store α} {out more : List (Signal α)}

theorem append (h : Updates s st out st₁) (h' : Updates s st₁ more st') :
    Updates s st (out ++ more) st' := by
  induction h with
  | nil st => exact h'
  | tell x aside _ ih => exact .tell x aside (ih h')
  | write plain written _ ih => exact .write plain written (ih h')
  | move point glided _ ih => exact .move point glided (ih h')

theorem permuted (h : Updates s st out st') : PermutedBy (Equiv.refl Int) st st' := by
  have hrecord : ∀ {st : Store α} {id : Int} {a : Actor α} {p : Patch α}, st.get? id = some a →
      p.program = none → PermutedBy (Equiv.refl Int) st (st.replace (p.apply a)) := by
    intro st id a p ha hp
    refine ⟨ids_replace _ _, nextId_replace _ _, ?_⟩
    intro j
    have hid : a.id = id := get?_id ha
    rw [program?, get?_replace, Patch.apply_id, hid]
    by_cases hj : j = id
    · subst hj
      simp [program?, ha, Patch.apply, hp]
    · simp [program?, hj]
  induction h with
  | nil st => exact .refl st
  | tell x _ _ ih => exact ih
  | write plain written _ ih =>
    obtain ⟨a, ha, hdone⟩ := bind_eq_ok written
    cases hdone
    exact (hrecord (get_eq_ok.mp ha) ((Patch.program_normalise _ s).trans plain.program)).trans ih
  | move point glided _ ih =>
    obtain ⟨a, ha, hdone⟩ := bind_eq_ok glided
    cases hdone
    exact (hrecord (get_eq_ok.mp ha) rfl).trans ih

theorem sized (h : Updates s st out st') (hst : st.Sized) : st'.Sized := by
  induction h with
  | nil st => exact hst
  | tell x _ _ ih => exact ih hst
  | write plain written _ ih =>
    obtain ⟨a, ha, hdone⟩ := bind_eq_ok written
    cases hdone
    exact ih (hst.replace (plain.sized.apply (hst _ a (get_eq_ok.mp ha))))
  | move point glided _ ih =>
    obtain ⟨a, ha, hdone⟩ := bind_eq_ok glided
    cases hdone
    exact ih (hst.replace (hst _ a (get_eq_ok.mp ha)))

end Updates

end Store

open Store (Updates Deals PermutedBy)

/-! ## Updates by an engine -/

theorem World.write_updates {w w' : World α} {actor : Int} {p : Patch α} {out : List (Signal α)}
    (plain : p.Plain) (h : w.write actor p = .ok (w', out)) : Updates w.settings w.store out w'.store := by
  obtain ⟨⟨st, e⟩, hwrite, hdone⟩ := bind_eq_ok h
  cases hdone
  exact .write plain hwrite (.nil _)

private theorem World.glide_updates {w w' : World α} {actor : Int} {point : Point α} {out : List (Signal α)}
    (h : w.glide actor point = .ok (w', out)) : Updates w.settings w.store out w'.store := by
  obtain ⟨⟨st, e⟩, hglide, hdone⟩ := bind_eq_ok h
  cases hdone
  exact .move point hglide (.nil _)

theorem Doing.updates {actor : Int} {w w' : World α} {out : List (Signal α)} (h : Doing actor w out w') :
    Updates w.settings w.store out w'.store := by
  induction h with
  | nil w => exact .nil _
  | tell x aside _ ih =>
    refine .tell x ?_ ih
    cases x with
    | event e => exact aside.elim
    | _ => rfl
  | write plain _ written _ ih =>
    rw [(World.frame_write written).settings] at ih
    exact (World.write_updates plain written).append ih
  | move point glided _ ih =>
    rw [(World.frame_glide glided).settings] at ih
    exact (World.glide_updates glided).append ih

private theorem Moment.step_updates (m : Moment α) (w : World α) :
    Updates w.settings w.store (m.step w).out (m.step w).world.store := by
  unfold step
  split
  · exact (Doing.fail w m.actor).updates
  · split
    · exact .nil _
    · split
      · exact (Doing.fail w m.actor).updates
      · rename_i w₁ out written
        have hrest := fun p => (Doing.sequence m [] w₁ p).updates
        rw [(World.frame_write written).settings] at hrest
        exact (World.write_updates (Patch.plain_stepIndex _) written).append (hrest _)

private theorem Moment.next_updates (m : Moment α) (w : World α) (loops : List (Loop α)) :
    Updates w.settings w.store (m.next w loops).out (m.next w loops).world.store := by
  unfold next
  split
  · exact step_updates _ w
  · split
    · exact (Doing.sequence m _ w _).updates
    · exact (Doing.sequence m _ w _).updates

private theorem Place.afterPass_updates (now : α) (actor : Int) (loops : List (Loop α)) (index : Nat)
    (pass : World α × List (Signal α) × Except Error (List Pair)) :
    Updates pass.1.settings pass.1.store (afterPass now actor loops index pass).out
      (afterPass now actor loops index pass).world.store := by
  unfold afterPass
  split
  · exact (Doing.fail pass.1 actor).updates
  · exact Moment.next_updates _ _ _

theorem Place.frame_resume (now : α) (actor : Int) (w : World α) (place : Place α) :
    World.SameFrame w (place.resume now actor w).world := by
  cases place with
  | fresh => exact (Moment.step_own ⟨now, actor, 0⟩ w).frame
  | asleep pause rest loops index => exact (resume_asleep_own now actor w pause rest loops index).frame
  | turn loops index =>
    rw [resume_turn]
    exact (World.frame_collide w _).trans (afterPass_own now actor loops index _).frame

theorem Engine.terminal_plain (outcome : Phase) : (terminal outcome : Patch α).Plain := by
  refine ⟨rfl, rfl, by simp [Patch.Sized, terminal], ?_⟩
  unfold terminal
  split
  · simp [Patch.Finite]
  · simp [Patch.Finite]

theorem Place.resume_updates (now : α) (actor : Int) (w : World α) {place : Place α} (h : place.PassesBy w) :
    Updates w.settings w.store (place.resume now actor w).out (place.resume now actor w).world.store := by
  cases place with
  | fresh => exact Moment.step_updates _ w
  | asleep pause rest loops index => exact (Doing.asleep now actor w pause rest loops index).updates
  | turn loops index =>
    obtain ⟨hstore, hsilent⟩ := Collision.passWith_nil h
    have hafter := afterPass_updates now actor loops index (w.collide (w.passRoom loops.length))
    rw [(w.frame_collide _).settings, show (w.collide (w.passRoom loops.length)).1.store = w.store from hstore]
      at hafter
    rw [resume_turn, show (w.collide (w.passRoom loops.length)).2.1 = [] from hsilent]
    exact .tell (.pass actor) rfl hafter

/-! ## Play -/

/-- What an act of play does to the store: programs are dealt out, then records are updated. If `through` holds
then the programs are only permuted. -/
inductive Store.Played (s : Settings α) (through : Prop) (st : Store α) (out : List (Signal α))
    (st' : Store α) : Prop where
  | intro {st₁ : Store α} {dealt updated : List (Signal α)} (deals : Deals (· ∈ st.programs) st dealt st₁)
      (permuted : through → ∃ σ, PermutedBy σ st st₁) (updates : Updates s st₁ updated st')
      (events : Signal.events out = Signal.events dealt ++ Signal.events updated)

namespace Store.Played

variable {s : Settings α} {through : Prop} {st st₁ st' : Store α} {out more : List (Signal α)}

private theorem ofUpdates (h : Updates s st out st') : Played s through st out st' :=
  .intro (.nil st) (fun _ => ⟨_, .refl st⟩) h rfl

private theorem append (h : Played s through st out st₁) (h' : Updates s st₁ more st') :
    Played s through st (out ++ more) st' := by
  cases h with
  | intro deals permuted updates events =>
    refine .intro deals permuted (updates.append h') ?_
    rw [Signal.events_append, Signal.events_append, events, List.append_assoc]

theorem sized (h : Played s through st out st') (hst : st.Sized) : st'.Sized := by
  cases h with
  | intro deals _ updates _ => exact updates.sized (deals.sized hst)

end Store.Played

open Store (Played)

/-- Whether a resumption does not fail in the collision pass with which it begins. -/
def Place.passesThrough (w : World α) : Place α → Bool
  | .turn loops _ => (w.collide (w.passRoom loops.length)).2.2.isOk
  | _ => true

private theorem Place.resume_played (now : α) (actor : Int) (w : World α) (place : Place α) :
    Played w.settings (place.passesThrough w) w.store (place.resume now actor w).out
      (place.resume now actor w).world.store := by
  cases place with
  | fresh => exact .ofUpdates (Moment.step_updates _ w)
  | asleep pause rest loops index => exact .ofUpdates (Doing.asleep now actor w pause rest loops index).updates
  | turn loops index =>
    have hafter := afterPass_updates now actor loops index (w.collide (w.passRoom loops.length))
    rw [(w.frame_collide _).settings] at hafter
    rw [resume_turn]
    refine .intro (World.collide_deals w.store.within_programs _) ?_ hafter ?_
    · intro hthrough
      simp only [passesThrough] at hthrough
      cases hresult : (w.collide (w.passRoom loops.length)).2.2 with
      | error cause =>
        rw [hresult] at hthrough
        cases hthrough
      | ok swapped => exact World.collide_permuted hresult
    · rw [← Signal.events_append]
      rfl

namespace Stage

structure Updated (s : Stage α) (out : List (Signal α)) (s' : Stage α) : Prop where
  store : Updates s.settings s.store out s'.store
  frame : World.SameFrame s.world s'.world
  nextBlock : s'.nextBlock = s.nextBlock

namespace Updated

variable {s s₁ s' : Stage α} {out more : List (Signal α)}

private theorem sameWorld (hworld : s'.world = s.world) (hnames : s'.nextBlock = s.nextBlock) :
    Updated s [] s' := by
  refine ⟨?_, ?_, hnames⟩
  · rw [Stage.store, Stage.store, hworld]
    exact .nil _
  · rw [hworld]
    exact .refl _

private theorem refl (s : Stage α) : Updated s [] s := sameWorld rfl rfl

private theorem trans (h : Updated s out s₁) (h' : Updated s₁ more s') : Updated s (out ++ more) s' where
  store := by
    have hmore := h'.store
    rw [Stage.settings, h.frame.settings] at hmore
    exact h.store.append hmore
  frame := h.frame.trans h'.frame
  nextBlock := h'.nextBlock.trans h.nextBlock

private theorem tell (h : Updated s out s') (x : Signal α) (aside : x.event? = none) :
    Updated s (out ++ [x]) s' where
  store := h.store.append (.tell x aside (.nil _))
  frame := h.frame
  nextBlock := h.nextBlock

end Updated

theorem settle_updated (s : Stage α) (id : EngineId) (outcome : Phase) :
    Updated s (s.settle id outcome).2 (s.settle id outcome).1 := by
  unfold settle
  split
  · exact .refl s
  · simp only [Engine.settle]
    split
    · exact .sameWorld rfl rfl
    · split
      · exact ⟨.tell _ rfl (.nil _), .refl _, rfl⟩
      · rename_i w out written
        have hstore := World.write_updates (Engine.terminal_plain outcome) written
        exact ⟨hstore.append (.tell _ rfl (.nil _)), World.frame_write written, rfl⟩

private theorem finish_updated (s : Stage α) (t : Task α) (outcome : Phase) :
    Updated s (s.finish t outcome).2 (s.finish t outcome).1 := by
  have hsettle := settle_updated s t.engine outcome
  unfold finish
  dsimp only
  split
  · exact hsettle
  · split
    · exact ⟨hsettle.store, hsettle.frame, hsettle.nextBlock⟩
    · exact hsettle

private theorem cancelEach_updated (ids : List EngineId) (s : Stage α) :
    Updated s (cancelEach ids s).2 (cancelEach ids s).1 := by
  induction ids generalizing s with
  | nil => exact .refl s
  | cons id ids ih => exact (settle_updated s id _).trans (ih _)

theorem stop_updated (s : Stage α) (actors : List Int) :
    Updated s (s.stop actors).out (s.stop actors).stage := by
  unfold stop
  dsimp only
  split
  · exact .refl s
  · have hcancel := cancelEach_updated (s.stopOrder ((actors.filter s.players.contains).map .player)) s
    have hstopped := hcancel.tell (.notice (.stopped (actors.filter s.players.contains))) rfl
    exact ⟨hstopped.store, hstopped.frame, hstopped.nextBlock⟩

private theorem playActor_updated (s : Stage α) (actor : Int) :
    Updated s (s.playActor actor).out (s.playActor actor).stage := by
  rcases playActor_cases s actor with hnot | ⟨a, w, said, hp, hw⟩
  · rw [(playActor_of_not hnot).2.1]
    rcases (playActor_of_not hnot).1 with hstage | hstage
    · rw [hstage]
      exact .refl s
    · rw [hstage]
      exact .sameWorld rfl rfl
  · rw [playActor_of_playable hp hw]
    have hplain : (startPatch : Patch α).Plain :=
      ⟨rfl, rfl, by simp [Patch.Sized, startPatch], by simp [Patch.Finite, startPatch]⟩
    have hstore := World.write_updates hplain hw
    exact ⟨hstore.append (.tell _ rfl (.nil _)), World.frame_write hw, rfl⟩

private theorem playEach_updated (actors : List Int) (s : Stage α) :
    Updated s (playEach actors s).out (playEach actors s).stage := by
  induction actors generalizing s with
  | nil => exact .refl s
  | cons actor actors ih => exact (playActor_updated s actor).trans (ih _)

private theorem playAll_updated (s : Stage α) : Updated s s.playAll.out s.playAll.stage := by
  have heach := playEach_updated s.store.ids s
  unfold playAll
  dsimp only
  split
  · exact heach
  · exact heach.tell _ rfl

structure Plays (through : Prop) (s : Stage α) (out : List (Signal α)) (s' : Stage α) : Prop where
  store : Played s.settings through s.store out s'.store
  frame : World.SameFrame s.world s'.world
  nextBlock : s'.nextBlock = s.nextBlock

private theorem Updated.plays {through : Prop} {s s' : Stage α} {out : List (Signal α)} (h : Updated s out s') :
    Plays through s out s' :=
  ⟨.ofUpdates h.store, h.frame, h.nextBlock⟩

private theorem Plays.sameWorld {through : Prop} {s s' : Stage α} (hworld : s'.world = s.world)
    (hnames : s'.nextBlock = s.nextBlock) : Plays through s [] s' :=
  (Updated.sameWorld hworld hnames).plays

private theorem Plays.append {through : Prop} {s s₁ s' : Stage α} {out more : List (Signal α)}
    (h : Plays through s out s₁) (h' : Updated s₁ more s') : Plays through s (out ++ more) s' where
  store := by
    have hmore := h'.store
    rw [Stage.settings, h.frame.settings] at hmore
    exact h.store.append hmore
  frame := h.frame.trans h'.frame
  nextBlock := h'.nextBlock.trans h.nextBlock

theorem resume_plays (s : Stage α) (t : Task α) :
    Plays (t.place.passesThrough s.world) s (s.resume t).2 (s.resume t).1 := by
  have hactivity : ∀ e : Engine, Plays (t.place.passesThrough s.world) s (e.resume s.world s.now t.place).out
      { s with world := (e.resume s.world s.now t.place).world } := by
    intro e
    rw [Engine.resume_eq]
    split
    · exact (Updated.refl s).plays
    · exact ⟨Place.resume_played s.now e.actor s.world t.place,
        Place.frame_resume s.now e.actor s.world t.place, rfl⟩
  unfold resume
  split
  · exact (Updated.refl s).plays
  · rename_i e _
    dsimp only
    split
    · exact ⟨(hactivity e).store, (hactivity e).frame, rfl⟩
    · exact ⟨(hactivity e).store, (hactivity e).frame, rfl⟩
    · exact (hactivity e).append (finish_updated _ t _)

/-- The acts that neither edit nor empty the stage. -/
def Act.editFree : Act α → Bool
  | .playAll | .playActor _ | .stopAll | .stopActor _ | .selectActor _ | .beat _ => true
  | _ => false

omit [Scalar α] in
theorem Act.cases (a : Act α) : a.isEdit = true ∨ a.editFree = true ∨ a = .reset := by
  cases a <;> simp [Act.isEdit, Act.editFree]

def passesThrough (s : Stage α) : Act α → Bool
  | .beat .turn =>
    match s.ready with
    | [] => true
    | t :: _ => t.place.passesThrough s.world
  | _ => true

theorem perform_plays (s : Stage α) {a : Act α} (h : a.editFree) :
    Plays (s.passesThrough a) s (s.perform a).2 (s.perform a).1 := by
  cases a with
  | playAll => exact (playAll_updated s).plays
  | playActor actor => exact (playActor_updated s actor).plays
  | stopAll => exact (stop_updated s _).plays
  | stopActor actor =>
    simp only [perform, Reply.effect, stopActor]
    split
    · exact (Updated.refl s).plays
    · exact (stop_updated s _).plays
  | selectActor actor =>
    simp only [perform, Reply.effect, selectActor]
    split
    · exact (Updated.refl s).plays
    · exact .sameWorld rfl rfl
  | beat b =>
    cases b with
    | retire => exact .sameWorld rfl rfl
    | turn =>
      cases hready : s.ready with
      | nil =>
        simp only [perform, beat, hready]
        exact (Updated.refl s).plays
      | cons t rest =>
        simp only [perform, beat, passesThrough, hready]
        have hturn := resume_plays { s with ready := rest } t
        exact ⟨hturn.store, hturn.frame, hturn.nextBlock⟩
    | wake =>
      simp only [perform, beat]
      split
      · exact .sameWorld rfl rfl
      · exact (Updated.refl s).plays
    | clock time =>
      simp only [perform, beat]
      split
      · exact .sameWorld rfl rfl
      · exact (Updated.refl s).plays
  | _ => simp [Act.editFree] at h

end Stage

end SpriteStage
