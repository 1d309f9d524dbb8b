import Mathlib.Data.List.Flatten
import SpriteStage.Proofs.Conservation
/-!
# The identity of blocks

Names of blocks are given out once. Each program on a stage is made, by any number of edits, from
one that was there before or from the empty one, so whatever is found in it is from there or was
named in the meantime.
-/
namespace SpriteStage

variable {α : Type}

namespace Program

namespace Revises

variable {c : Catalog α} {n m k : Nat} {p q r : Program α}

private theorem keep (h : n ≤ m) (c : Catalog α) (p : Program α) : Revises c n p m p :=
  ⟨h, id, fun _ => Nat.le_add_right _ _⟩

private theorem trans (h : Revises c n p m q) (h' : Revises c m q k r) : Revises c n p k r where
  names := Nat.le_trans h.names h'.names
  fits hp := h'.fits (h.fits hp)
  ids name := by
    have hfirst := h.ids name
    have hsecond := h'.ids name
    rw [← issued_append h.names h'.names, List.count_append]
    omega

end Revises

end Program

namespace Store

/-- The ids of all blocks, at all depths, of all programs. -/
def blockIds (st : Store α) : List String := st.programs.flatMap Program.ids

private theorem programs_replace {st : Store α} (hasc : st.Ascending) {id : Int} {a : Actor α}
    (ha : st.get? id = some a) :
    ∃ before after, st.programs = before ++ a.program :: after ∧
      ∀ p, (st.replace { a with program := p }).programs = before ++ p :: after := by
  obtain ⟨before, after, hactors⟩ := List.append_of_mem (mem_of_get? ha)
  have hsorted := hasc.sorted
  rw [ids, hactors, List.map_append, List.map_cons, List.pairwise_append, List.pairwise_cons] at hsorted
  obtain ⟨-, ⟨hafter, -⟩, hbefore⟩ := hsorted
  have hothers : ∀ b ∈ before ++ after, b.id ≠ a.id := by
    intro b hb heq
    rcases List.mem_append.mp hb with hb | hb
    · have hlt := hbefore b.id (List.mem_map_of_mem hb) a.id List.mem_cons_self
      omega
    · have hlt := hafter b.id (List.mem_map_of_mem hb)
      omega
  refine ⟨before.map (·.program), after.map (·.program), by simp [programs, hactors], ?_⟩
  intro p
  have hkept : ∀ l : List (Actor α), (∀ b ∈ l, b.id ≠ a.id) →
      (l.map fun b => if b.id = a.id then { a with program := p } else b) = l := by
    intro l hl
    conv_rhs => rw [← List.map_id l]
    apply List.map_congr_left
    intro b hb
    exact if_neg (hl b hb)
  simp only [programs, replace, hactors, List.map_append, List.map_cons, if_true]
  rw [hkept before fun b hb => hothers b (List.mem_append_left _ hb),
    hkept after fun b hb => hothers b (List.mem_append_right _ hb)]

end Store

variable [Scalar α]

namespace Stage

/-- How the programs on a stage come from those on an earlier one. If `through` holds then the blocks of all of
them together do, too. -/
structure Descends (through : Prop) (s s' : Stage α) : Prop where
  names : s.nextBlock ≤ s'.nextBlock
  catalog : s'.world.catalog = s.world.catalog
  program : ∀ q ∈ s'.store.programs, ∃ p, (p ∈ s.store.programs ∨ p = []) ∧
    Program.Revises s.world.catalog s.nextBlock p s'.nextBlock q
  blocks : through → ∀ name, s'.store.blockIds.count name ≤
    s.store.blockIds.count name + (issued s.nextBlock s'.nextBlock).count name

namespace Descends

variable {through through' : Prop} {s s₁ s' : Stage α}

omit [Scalar α] in
theorem ofPrograms (hnames : s.nextBlock ≤ s'.nextBlock) (hcatalog : s'.world.catalog = s.world.catalog)
    (hsubset : s'.store.programs ⊆ s.store.programs)
    (hsubperm : through → s'.store.programs.Subperm s.store.programs) : Descends through s s' where
  names := hnames
  catalog := hcatalog
  program q hq := ⟨q, .inl (hsubset hq), .keep hnames _ q⟩
  blocks hthrough name := by
    obtain ⟨l, hperm, hsub⟩ := hsubperm hthrough
    have hcount := (hsub.flatMap Program.ids).count_le name
    rw [(hperm.flatMap_right Program.ids).count_eq] at hcount
    exact Nat.le_add_right_of_le hcount

omit [Scalar α] in
theorem samePrograms (hnames : s.nextBlock ≤ s'.nextBlock) (hcatalog : s'.world.catalog = s.world.catalog)
    (hsame : s'.store.programs = s.store.programs) : Descends through s s' := by
  refine ofPrograms hnames hcatalog ?_ fun _ => ?_
  · rw [hsame]
    exact List.Subset.refl _
  · rw [hsame]

omit [Scalar α] in
theorem trans (h : Descends through s s₁) (h' : Descends through' s₁ s') :
    Descends (through ∧ through') s s' where
  names := Nat.le_trans h.names h'.names
  catalog := h'.catalog.trans h.catalog
  program r hr := by
    obtain ⟨q, hq, hrevised⟩ := h'.program r hr
    rw [h.catalog] at hrevised
    rcases hq with hq | rfl
    · obtain ⟨p, hp, hrevised'⟩ := h.program q hq
      exact ⟨p, hp, hrevised'.trans hrevised⟩
    · exact ⟨[], .inr rfl, (Program.Revises.keep h.names _ []).trans hrevised⟩
  blocks hthrough name := by
    have hfirst := h.blocks hthrough.1 name
    have hsecond := h'.blocks hthrough.2 name
    rw [← issued_append h.names h'.names, List.count_append]
    omega

end Descends

omit [Scalar α] in
theorem Edited.descends {through : Prop} {s s' : Stage α} {out : List (Signal α)} (h : Edited s s' out)
    (hasc : s.store.Ascending) (hcatalog : s'.world.catalog = s.world.catalog) : Descends through s s' := by
  cases h with
  | nothing world names told =>
    have hsame : s'.store.programs = s.store.programs := by rw [store, world, store]
    exact .samePrograms names hcatalog hsame
  | skipped world names told =>
    exact .samePrograms (Nat.le_of_eq names.symm) hcatalog (by rw [store_of_world world]; rfl)
  | added a newcomer world names told =>
    have hnames : s.nextBlock ≤ s'.nextBlock := Nat.le_of_eq names.symm
    have hprograms : s'.store.programs = s.store.programs ++ [[]] := by
      rw [store_of_world world, Store.programs, List.map_append, List.map_singleton, newcomer.program]
      rfl
    refine ⟨hnames, hcatalog, ?_, ?_⟩
    · intro q hq
      rw [hprograms] at hq
      rcases List.mem_append.mp hq with hq | hq
      · exact ⟨q, .inl hq, .keep hnames _ q⟩
      · exact ⟨q, .inr (List.mem_singleton.mp hq), .keep hnames _ q⟩
    · intro _ name
      rw [Store.blockIds, hprograms, List.flatMap_append]
      simp [Program.ids_nil, Store.blockIds]
  | deleted actor world names told =>
    have hsub : s'.store.programs.Sublist s.store.programs := by
      rw [store_of_world world]
      exact List.filter_sublist.map _
    exact .ofPrograms (Nat.le_of_eq names.symm) hcatalog hsub.subset fun _ => hsub.subperm
  | revised actor a p found world revision told =>
    obtain ⟨before, after, hbefore, hafter⟩ := Store.programs_replace hasc found
    have hprograms : s'.store.programs = before ++ p :: after := by rw [store_of_world world, hafter]
    refine ⟨revision.names, hcatalog, ?_, ?_⟩
    · intro q hq
      rw [hprograms] at hq
      simp only [hbefore, List.mem_append, List.mem_cons] at hq ⊢
      rcases hq with hq | rfl | hq
      · exact ⟨q, .inl (.inl hq), .keep revision.names _ q⟩
      · exact ⟨a.program, .inl (.inr (.inl rfl)), revision⟩
      · exact ⟨q, .inl (.inr (.inr hq)), .keep revision.names _ q⟩
    · intro _ name
      have hcount := revision.ids name
      simp only [Store.blockIds, hprograms, hbefore, List.flatMap_append, List.flatMap_cons, List.count_append]
      omega

private theorem Plays.descends {through : Prop} {s s' : Stage α} {out : List (Signal α)}
    (h : Plays through s out s')
    (hasc : s.store.Ascending) (hcatalog : s'.world.catalog = s.world.catalog) : Descends through s s' := by
  refine .ofPrograms (Nat.le_of_eq h.nextBlock.symm) hcatalog (h.store.programs_subset hasc) ?_
  intro hthrough
  obtain ⟨σ, hσ⟩ := h.store.permuted hthrough
  exact (hσ.programs_perm hasc).subperm

theorem perform_descends {s : Stage α} (h : s.Orderly) (a : Act α) :
    Descends (s.passesThrough a) s (s.perform a).1 := by
  have hcatalog := (perform_inherits s a).catalog
  rcases Act.cases a with hedit | hfree | rfl
  · exact (perform_edited s hedit).descends h.ascending hcatalog
  · exact (perform_plays s hfree).descends h.ascending hcatalog
  · -- Nothing is left of the programs, but the names go on.
    have hnames : s.reset.stage.nextBlock = s.nextBlock := (stop_updated s s.players).nextBlock
    exact .ofPrograms (Nat.le_of_eq hnames.symm) hcatalog (List.nil_subset _) fun _ => List.nil_subperm

private theorem enact_descends {s : Stage α} (h : Reachable s) (acts : List (Act α)) :
    Descends (s.unbroken acts) s (s.enact acts).1 := by
  induction acts generalizing s with
  | nil => exact .samePrograms (Nat.le_refl _) rfl rfl
  | cons a acts ih =>
    have hwhole := (perform_descends h.orderly a).trans (ih (h.act a))
    rwa [← Bool.and_eq_true_iff] at hwhole

/-! ## Well-formed programs -/

omit [Scalar α] in
theorem Store.mem_blockIds {st : Store α} {id : String} :
    id ∈ st.blockIds ↔ ∃ p ∈ st.programs, id ∈ Program.ids p :=
  List.mem_flatMap

omit [Scalar α] in
/-- A block that was not there before was named in the meantime. -/
theorem Descends.named {through : Prop} {s s' : Stage α} (h : Descends through s s') {id : String}
    (hid : id ∈ s'.store.blockIds) (hnew : id ∉ s.store.blockIds) :
    id ∈ issued s.nextBlock s'.nextBlock := by
  obtain ⟨q, hq, hmem⟩ := Store.mem_blockIds.mp hid
  obtain ⟨p, hp, hrevised⟩ := h.program q hq
  have hnone : (Program.ids p).count id = 0 := by
    rw [List.count_eq_zero]
    rcases hp with hp | rfl
    · exact fun hmem' => hnew (Store.mem_blockIds.mpr ⟨p, hp, hmem'⟩)
    · exact List.not_mem_nil
  have hcount := hrevised.ids id
  have hsome := List.count_pos_iff.mpr hmem
  exact List.count_pos_iff.mp (by omega)

omit [Scalar α] in
/-- Names are given out once. -/
theorem nodup_of_issued {l : List String} {n m : Nat} (h : ∀ name, l.count name ≤ (issued n m).count name) :
    l.Nodup := by
  rw [List.nodup_iff_count_le_one]
  intro name
  exact Nat.le_trans (h name) (List.nodup_iff_count_le_one.mp (issued_nodup n m) name)

/-- In whatever way a stage was reached from an empty one, each block of its programs is of a registered type,
has the inputs that the type declares and holds blocks only if the type is a container; no block is twice in a
program, and none is twice on the stage as long as no collision pass fails half-way; and a block that has left
the stage does not come back. -/
theorem programs_wellFormed {s : Stage α} (h : s.IsEmpty) (acts : List (Act α)) :
    (∀ p ∈ (s.enact acts).1.store.programs,
      p.Fits (s.enact acts).1.world.catalog ∧ (Program.ids p).Nodup) ∧
    (s.unbroken acts = true → (s.enact acts).1.store.blockIds.Nodup) ∧
    ∀ first second third, acts = first ++ second ++ third →
      ∀ id ∈ (s.enact first).1.store.blockIds, id ∉ (s.enact (first ++ second)).1.store.blockIds →
        id ∉ (s.enact acts).1.store.blockIds := by
  have hreachable : Reachable s := .empty h
  have hnone : s.store.programs = [] := by rw [h.store]; rfl
  have hwhole := enact_descends hreachable acts
  refine ⟨?_, ?_, ?_⟩
  · intro q hq
    obtain ⟨p, hp, hrevised⟩ := hwhole.program q hq
    have hempty : p = [] := by
      rcases hp with hp | hp
      · rw [hnone] at hp
        cases hp
      · exact hp
    subst hempty
    rw [hwhole.catalog]
    refine ⟨hrevised.fits (Program.fits_nil _), ?_⟩
    apply nodup_of_issued
    intro name
    have hcount := hrevised.ids name
    rwa [Program.ids_nil, List.count_nil, Nat.zero_add] at hcount
  · intro hthrough
    apply nodup_of_issued
    intro name
    have hcount := hwhole.blocks hthrough name
    have hempty : s.store.blockIds = [] := by rw [Store.blockIds, hnone, List.flatMap_nil]
    rwa [hempty, List.count_nil, Nat.zero_add] at hcount
  · rintro first second third rfl id hthen hgone hback
    have hthere := enact_descends hreachable first
    have hlater := enact_descends (hreachable.enact first) second
    have hagain := enact_descends (hreachable.enact (first ++ second)) third
    rw [enact_append] at hback
    simp only [enact_append s first second] at hgone hback hagain
    -- The name was given out before it left, and one that comes after it left is given out later.
    have hnew : id ∉ s.store.blockIds := by simp [Store.blockIds, hnone]
    obtain ⟨i, -, hbefore, hi⟩ := mem_issued.mp (hthere.named hthen hnew)
    obtain ⟨j, hafter, -, hj⟩ := mem_issued.mp (hagain.named hback hgone)
    have hsame : i = j := blockName_injective (hi.trans hj.symm)
    have hnames := hlater.names
    omega

/-- A block with one inside it is copied and removed, and the copy is swapped away. -/
def shuffle : List (Act Float) :=
  [.init, .addActor { x := .int 110, y := .int 100 },
    .submit 1 "repeat" [("times", .int 1)] none, .submit 1 "turn" [("degrees", .int 0)] (some "b1"),
    .submit 2 "set_color" [] none, .duplicate 1 "b1", .removeBlock 1 "b1", .playAll,
    .beat .turn, .beat .turn, .beat .turn, .stopAll, .submit 1 "wait" [] none]

theorem shuffle_wellFormed :
    ((new Settings.standard ⟨[], 0⟩).enact shuffle).1.store.programs.map Program.ids =
        [["b3", "b6"], ["b4", "b5"]] ∧
      ((new Settings.standard ⟨[], 0⟩).enact shuffle).1.store.blockIds.Nodup ∧
      "b2" ∉ ((new Settings.standard ⟨[], 0⟩).enact shuffle).1.store.blockIds := by
  have hthrough : (new Settings.standard ⟨[], 0⟩ : Stage Float).unbroken shuffle = true := by decide +kernel
  obtain ⟨-, hnodup, hgone⟩ := programs_wellFormed (new_isEmpty Settings.standard ⟨[], 0⟩) shuffle
  refine ⟨by decide +kernel, hnodup hthrough, ?_⟩
  exact hgone (shuffle.take 6) [.removeBlock 1 "b1"] (shuffle.drop 7) rfl "b2" (by decide +kernel)
    (by decide +kernel)

/-- A pass that fails half-way leaves a block twice on the stage. -/
theorem jostle_doubles_block :
    ∃ acts : List (Act Float), ¬ ((new Settings.standard ⟨[], 0⟩).enact acts).1.store.blockIds.Nodup := by
  refine ⟨clogging ++ jostle, ?_⟩
  decide +kernel

end Stage

end SpriteStage
