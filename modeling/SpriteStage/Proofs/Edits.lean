import SpriteStage.Proofs.Exchange
import SpriteStage.Proofs.Revision
import SpriteStage.Proofs.Standstill
/-! # Edits of the stage -/
namespace SpriteStage

variable {α : Type} [Scalar α]

omit [Scalar α] in
theorem Program.pair_eq_ok {β : Type} {x : Except Error (Program α)} {q : Program α} {r r' : β}
    (h : x.map (·, r) = .ok (q, r')) : x = .ok q := by
  cases x with
  | error cause => cases h
  | ok p =>
    cases h
    rfl

def Reply.cause? {β : Type} (r : Reply α (Except Error β)) : Option Error :=
  match r.result with
  | .error cause => some cause
  | .ok _ => none

namespace Stage

/-- Everything that an edit can do to a stage, and what it tells. -/
inductive Edited (s s' : Stage α) (out : List (Signal α)) : Prop where
  | nothing (world : s'.world = s.world) (names : s.nextBlock ≤ s'.nextBlock) (told : out = [])
  | skipped (world : s'.world = (s.withStore { s.store with nextId := s.store.nextId + 1 }).world)
      (names : s'.nextBlock = s.nextBlock) (told : out = [])
  | added (a : Actor α) (newcomer : s.store.Newcomer a)
      (world : s'.world = (s.withStore ⟨s.store.actors ++ [a], s.store.nextId + 1⟩).world)
      (names : s'.nextBlock = s.nextBlock) (told : out = Store.castSignals a)
  | deleted (actor : Int) (world : s'.world = (s.withStore (s.store.erase actor)).world)
      (names : s'.nextBlock = s.nextBlock)
      (told : out = [.notice (.actorDeleted actor), .event ⟨actor, .deleted⟩])
  | revised (actor : Int) (a : Actor α) (p : Program α) (found : s.store.get? actor = some a)
      (world : s'.world = (s.withStore (s.store.replace { a with program := p })).world)
      (revision : Program.Revises s.world.catalog s.nextBlock a.program s'.nextBlock p)
      (told : out = if p.Tellable then [.event ⟨actor, .wrote { program := some p } none⟩] else [])

omit [Scalar α] in
theorem store_of_world {s s' : Stage α} {st : Store α} (h : s'.world = (s.withStore st).world) :
    s'.store = st := congrArg World.store h

private theorem cast_edited (s : Stage α) (c : Casting α) : Edited s (s.cast c).stage (s.cast c).out := by
  unfold cast
  rcases Store.cast_cases s.settings s.store s.draws c with ⟨d, cause, hcast⟩ | ⟨d, a, hcast, hnew⟩
  · rw [hcast]
    exact .skipped rfl rfl rfl
  · rw [hcast]
    exact .added a hnew rfl rfl rfl

omit [Scalar α] in
theorem Edited.select {s s' : Stage α} {out : List (Signal α)} (h : Edited s s' out)
    (selected : Option Int) : Edited s { s' with selected } out := by
  cases h with
  | nothing world names told => exact .nothing world names told
  | skipped world names told => exact .skipped world names told
  | added a newcomer world names told => exact .added a newcomer world names told
  | deleted actor world names told => exact .deleted actor world names told
  | revised actor a p found world revision told => exact .revised actor a p found world revision told

omit [Scalar α] in
theorem Edited.refl (s : Stage α) : Edited s s [] := .nothing rfl (Nat.le_refl _) rfl

private theorem init_edited (s : Stage α) : Edited s s.init.stage s.init.out := by
  have hseed : Edited s s.seed.stage s.seed.out := by
    unfold seed
    split
    · exact cast_edited s _
    · exact .refl s
  unfold init
  dsimp only
  split
  · exact hseed
  · exact hseed.select _

private theorem addActor_edited (s : Stage α) (c : Casting α) :
    Edited s (s.addActor c).stage (s.addActor c).out := by
  have hcast := cast_edited s c
  unfold addActor
  dsimp only
  split
  · exact hcast
  · exact hcast.select _

theorem commit_eq {β : Type} {s : Stage α} {actor : Int} {a : Actor α}
    (ha : s.store.get? actor = some a) (p : Program α) (result : β) :
    (s.commit actor p result).stage = s.withStore (s.store.replace { a with program := p }) ∧
    (s.commit actor p result).out =
      if p.Tellable then [.event ⟨actor, .wrote { program := some p } none⟩] else [] := by
  unfold commit tell
  simp only [Store.publish_program s.settings ha]
  cases hflaw : Program.flaw? .record blockRoom p with
  | none =>
    have htellable : p.Tellable := hflaw
    exact ⟨rfl, (if_pos htellable).symm⟩
  | some flaw =>
    have hflawed : ¬ p.Tellable := by simp [Program.Tellable, hflaw]
    exact ⟨rfl, (if_neg hflawed).symm⟩

theorem commit_cause {β : Type} {s : Stage α} {actor : Int} {a : Actor α}
    (ha : s.store.get? actor = some a) (p : Program α) (result : β) :
    (s.commit actor p result).cause? = (Program.flaw? .record blockRoom p).map DocumentFlaw.error := by
  unfold commit tell
  simp only [Store.publish_program s.settings ha]
  cases Program.flaw? .record blockRoom p with
  | none => rfl
  | some flaw => rfl

theorem programOf_eq_ok {s : Stage α} {actor : Int} {p : Program α} (h : s.programOf actor = .ok p) :
    ∃ a, s.store.get? actor = some a ∧ a.program = p := by
  obtain ⟨a, ha, h⟩ := bind_eq_ok h
  refine ⟨a, (editable_eq_ok ha).1, ?_⟩
  unfold Program.copy at h
  split at h
  · cases h
  · exact Except.ok.inj h

/-- Editing the program of an actor, if what the edit makes of it is a revision. -/
theorem editProgram_edited {β : Type} {s s₀ : Stage α} (actor : Int)
    {f : Program α → Except Error (Program α × β)} (hworld : s.world = s₀.world)
    (hnames : s₀.nextBlock ≤ s.nextBlock)
    (h : ∀ p q r, f p = .ok (q, r) →
      Program.Revises s₀.world.catalog s₀.nextBlock p s.nextBlock q) :
    Edited s₀ (s.editProgram actor f).stage (s.editProgram actor f).out := by
  unfold editProgram
  split
  · exact .nothing hworld hnames rfl
  · rename_i q r hedit
    obtain ⟨p, hp, hf⟩ := bind_eq_ok hedit
    obtain ⟨a, ha, rfl⟩ := programOf_eq_ok hp
    obtain ⟨hstage, hout⟩ := commit_eq ha q r
    have hfound : s₀.store.get? actor = some a := by
      simpa only [store, hworld] using ha
    refine .revised actor a q hfound ?_ ?_ hout
    · rw [hstage]
      simp only [withStore, store, hworld]
    · rw [hstage]
      exact h _ _ _ hf

theorem perform_edited (s : Stage α) {a : Act α} (h : a.isEdit) :
    Edited s (s.perform a).1 (s.perform a).2 := by
  cases a with
  | init => exact init_edited s
  | addActor casting => exact addActor_edited s casting
  | deleteActor actor =>
    simp only [perform, Reply.effect, deleteActor]
    split
    · exact .refl s
    · exact .deleted actor rfl rfl rfl
  | selectActor actor =>
    simp only [perform, Reply.effect, selectActor]
    split
    · exact .refl s
    · exact (Edited.refl s).select _
  | submit actor typeId inputs parent =>
    simp only [perform, Reply.effect, submit]
    split
    · exact .refl s
    · rename_i b hb
      obtain ⟨hid, hleaf, hfits⟩ := Catalog.newBlock_fits hb
      refine editProgram_edited (s := { s with nextBlock := s.nextBlock + 1 }) actor rfl
        (Nat.le_succ _) ?_
      intro p q r hf
      exact Program.append_revises hid hleaf hfits (Program.pair_eq_ok hf)
  | editInput actor block name value =>
    exact editProgram_edited actor rfl (Nat.le_refl _) fun p q r hf => Program.setInput_revises hf
  | reorder actor source target =>
    exact editProgram_edited actor rfl (Nat.le_refl _) fun p q r hf =>
      Program.reorder_revises (Program.pair_eq_ok hf)
  | removeBlock actor block =>
    exact editProgram_edited actor rfl (Nat.le_refl _) fun p q r hf => Program.remove_revises hf
  | duplicate actor block =>
    simp only [perform, Reply.effect, duplicate]
    split
    · exact .refl s
    · rename_i q clone next hedit
      obtain ⟨p, hp, hf⟩ := bind_eq_ok hedit
      obtain ⟨a, ha, rfl⟩ := programOf_eq_ok hp
      obtain ⟨hstage, hout⟩ := commit_eq (s := { s with nextBlock := next }) ha q clone
      refine .revised actor a q ha ?_ ?_ hout
      · rw [hstage]
        rfl
      · rw [hstage]
        exact Program.duplicate_revises hf
  | clearProgram actor =>
    refine editProgram_edited actor rfl (Nat.le_refl _) ?_
    intro p q r hf
    cases hf
    exact Program.clear_revises _ _ _
  | reset | playAll | playActor _ | stopAll | stopActor _ | beat _ => simp [Act.isEdit] at h

end Stage

end SpriteStage
