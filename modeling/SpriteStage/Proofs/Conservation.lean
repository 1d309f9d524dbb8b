import SpriteStage.Proofs.Tour
import SpriteStage.Proofs.Updates
/-!
# Conservation of programs

While nothing is edited, no program comes onto the stage that was not there before, so every run
is bounded by the longest program that was there when the stretch began, however often programs
are swapped under it. As long as no collision pass fails half-way the programs are even permuted
among the actors: none is lost and none is there twice.
-/
namespace SpriteStage

variable {α : Type}

namespace Store

variable [Scalar α]

namespace Played

variable {s : Settings α} {through : Prop} {st st' : Store α} {out : List (Signal α)}

theorem permuted (h : Played s through st out st') (hthrough : through) : ∃ σ, PermutedBy σ st st' := by
  cases h with
  | intro deals permuted updates events =>
    obtain ⟨σ, hσ⟩ := permuted hthrough
    exact ⟨_, hσ.trans updates.permuted⟩

theorem programs_subset (h : Played s through st out st') (hasc : st.Ascending) :
    st'.programs ⊆ st.programs := by
  cases h with
  | @intro st₁ dealt updated deals permuted updates events =>
    have hasc₁ : st₁.Ascending := hasc.congr deals.ids.1 deals.ids.2
    intro p hp
    obtain ⟨a, ha, rfl⟩ := List.mem_map.mp ((updates.permuted.programs_perm hasc₁).subset hp)
    exact deals.within st.within_programs a ha

end Played

end Store

variable [Scalar α]

open Store (PermutedBy)

namespace Stage

/-- Whether none of some acts fails in a collision pass. -/
def unbroken : Stage α → List (Act α) → Bool
  | _, [] => true
  | s, a :: acts => s.passesThrough a && (s.perform a).1.unbroken acts

theorem enact_append (s : Stage α) (acts more : List (Act α)) :
    s.enact (acts ++ more) =
      (((s.enact acts).1.enact more).1, (s.enact acts).2 ++ ((s.enact acts).1.enact more).2) := by
  induction acts generalizing s with
  | nil => rfl
  | cons a acts ih => simp [enact, ih]

private theorem mem_enact {s : Stage α} {acts : List (Act α)} {x : Signal α} (h : x ∈ (s.enact acts).2) :
    ∃ before a after, acts = before ++ a :: after ∧ x ∈ ((s.enact before).1.perform a).2 := by
  induction acts generalizing s with
  | nil => cases h
  | cons a acts ih =>
    rcases List.mem_append.mp h with h | h
    · exact ⟨[], a, acts, rfl, h⟩
    · obtain ⟨before, b, after, rfl, hx⟩ := ih h
      exact ⟨a :: before, b, after, rfl, hx⟩

private theorem enact_programs_subset {s : Stage α} (h : Reachable s) {acts : List (Act α)}
    (hacts : ∀ a ∈ acts, a.editFree) : (s.enact acts).1.store.programs ⊆ s.store.programs := by
  induction acts generalizing s with
  | nil => exact List.Subset.refl _
  | cons a acts ih =>
    obtain ⟨ha, hrest⟩ := List.forall_mem_cons.mp hacts
    have hact := (perform_plays s ha).store.programs_subset h.orderly.ascending
    exact List.Subset.trans (ih (h.act a) hrest) hact

private theorem enact_permuted {s : Stage α} {acts : List (Act α)} (hacts : ∀ a ∈ acts, a.editFree)
    (hthrough : s.unbroken acts = true) : ∃ σ, PermutedBy σ s.store (s.enact acts).1.store := by
  induction acts generalizing s with
  | nil => exact ⟨_, .refl _⟩
  | cons a acts ih =>
    obtain ⟨ha, hrest⟩ := List.forall_mem_cons.mp hacts
    obtain ⟨hnow, hlater⟩ := Bool.and_eq_true_iff.mp hthrough
    obtain ⟨σ, hσ⟩ := (perform_plays s ha).store.permuted hnow
    obtain ⟨τ, hτ⟩ := ih hrest hlater
    exact ⟨_, hσ.trans hτ⟩

/-- No pass fails if every program can be handed over with the least room that a pass has. -/
theorem unbroken_of_portable {s : Stage α} (h : Reachable s) {acts : List (Act α)}
    (hacts : ∀ a ∈ acts, a.editFree) {room : Nat} (hprograms : ∀ p ∈ s.store.programs, p.Portable room)
    (hroom : ∀ before after, acts = before ++ after → ∀ t ∈ (s.enact before).1.ready,
      ∀ loops index, t.place = .turn loops index →
        room ≤ (s.enact before).1.world.passRoom loops.length) :
    s.unbroken acts = true := by
  induction acts generalizing s with
  | nil => rfl
  | cons a acts ih =>
    obtain ⟨ha, hrest⟩ := List.forall_mem_cons.mp hacts
    have hsubset := (perform_plays s ha).store.programs_subset h.orderly.ascending
    refine Bool.and_eq_true_iff.mpr ⟨?_, ih (h.act a) hrest (fun p hp => hprograms p (hsubset hp)) ?_⟩
    · unfold passesThrough
      split
      · cases hready : s.ready with
        | nil => rfl
        | cons t rest =>
          dsimp only
          unfold Place.passesThrough
          split
          · rename_i loops index hplace
            have hleast := hroom [] _ rfl t (by simp [enact, hready]) loops index hplace
            refine World.collide_isOk h.orderly.ascending h.sized fun b hb => ?_
            obtain ⟨hcopied, htold⟩ := hprograms b.program (List.mem_map_of_mem hb)
            exact ⟨Nat.le_trans hcopied (Nat.sub_le_sub_right hleast _), htold⟩
          · rfl
      · rfl
    · rintro before after rfl
      exact hroom (a :: before) after rfl

/-! ## The bound -/

omit [Scalar α] in
/-- What a tour may tell about its step if it comes to at most so many blocks. -/
def Bounded (actor : Int) (limit : Nat) (e : Event α) : Prop :=
  e = .opening actor ∨ (∃ index < limit, e = .arrival actor index) ∨ ∃ whole, e = .closing actor whole

/-- No tour comes further than the longest program that is on the stage when the stretch begins. -/
theorem tours_bounded {s : Stage α} (h : Reachable s) {before during : List (Act α)}
    (hacts : ∀ a ∈ before ++ during, a.editFree) {limit : Nat}
    (hlimit : ∀ p ∈ s.store.programs, p.length ≤ limit) {actor : Int}
    (tour : (s.enact before).1.tours actor during = true) :
    ((s.enact before).1.stops actor during).length ≤ limit ∧
      ∀ e ∈ stepEvents actor ((s.enact before).1.enact during).2, Bounded actor limit e := by
  have hsteps := tours_stepEvents (h.enact before) tour
  have harrival : ∀ index < ((s.enact before).1.stops actor during).length, index < limit := by
    intro index hindex
    have htold : .arrival actor index ∈ stepEvents actor ((s.enact before).1.enact during).2 := by
      rw [hsteps]
      apply List.mem_append_left
      exact List.mem_cons_of_mem _ (List.mem_map_of_mem (List.mem_range.mpr hindex))
    obtain ⟨first, a, rest, rfl, hsaid⟩ := mem_enact (mem_stepEvents.mp htold).1
    obtain ⟨said, more, hout⟩ := List.append_of_mem hsaid
    -- The index is that of a block of a program which was there from the start.
    obtain ⟨p, b, hp, hb, -⟩ := tours_arrival (h.enact before) tour hout
    have hfree : ∀ x ∈ before ++ (first ++ [a]), x.editFree := by
      intro x hx
      apply hacts
      simp only [List.mem_append, List.mem_cons] at hx ⊢
      tauto
    have hthen : (s.enact (before ++ (first ++ [a]))).1 = (((s.enact before).1.enact first).1.perform a).1 := by
      rw [enact_append, enact_append]
      rfl
    have hknown := enact_programs_subset h hfree
    rw [hthen] at hknown
    have hlength := hlimit p (hknown (Store.mem_programs_of_program? hp))
    have hthere := (List.getElem?_eq_some_iff.mp hb).1
    omega
  constructor
  · cases hlength : ((s.enact before).1.stops actor during).length with
    | zero => exact Nat.zero_le _
    | succ n => exact harrival n (by omega)
  · intro e he
    rw [hsteps] at he
    rcases List.mem_append.mp he with he | he
    · rcases List.mem_cons.mp he with rfl | he
      · exact .inl rfl
      · obtain ⟨index, hindex, rfl⟩ := List.mem_map.mp he
        exact .inr (.inl ⟨index, harrival index (List.mem_range.mp hindex), rfl⟩)
    · unfold ending at he
      split at he
      · cases he
      · exact .inr (.inr ⟨_, List.mem_singleton.mp he⟩)

/-- While nothing is edited, every program on the stage was there at the start, and as long as no collision pass
fails, the programs are at any time a permutation of those at the start. So no run that begins in the meantime
comes to more blocks than the longest of them has, and but for the opening no step at or above its length is
told, whatever the passes do. -/
theorem play_conserves_programs {s : Stage α} (h : Reachable s) {acts : List (Act α)}
    (hacts : ∀ a ∈ acts, a.editFree) :
    (s.enact acts).1.store.programs ⊆ s.store.programs ∧
    (s.unbroken acts = true → (s.enact acts).1.store.programs.Perm s.store.programs ∧
      ∃ σ, PermutedBy σ s.store (s.enact acts).1.store) ∧
    ∀ before during, acts = before ++ during → ∀ actor, (s.enact before).1.tours actor during = true →
      ∀ limit, (∀ p ∈ s.store.programs, p.length ≤ limit) →
        ((s.enact before).1.stops actor during).length ≤ limit ∧
          ∀ e ∈ stepEvents actor ((s.enact before).1.enact during).2, Bounded actor limit e := by
  refine ⟨enact_programs_subset h hacts, ?_, ?_⟩
  · intro hthrough
    obtain ⟨σ, hσ⟩ := enact_permuted hacts hthrough
    exact ⟨hσ.programs_perm h.orderly.ascending, σ, hσ⟩
  · rintro before during rfl actor tour limit hlimit
    exact tours_bounded h hacts hlimit tour

theorem faceOff_conserves :
    facing.unbroken faceOff = true ∧ facing.store.programs.map Program.ids = [["b1", "b2"], ["b3"]] ∧
      (facing.enact faceOff).1.store.programs.map Program.ids = [["b3"], ["b1", "b2"]] ∧
      (facing.enact faceOff).1.store.programs.Perm facing.store.programs ∧
      (facing.stops 2 faceOff).length ≤ 2 := by
  have hreachable : Reachable facing := (Reachable.empty (new_isEmpty _ _)).enact _
  have hfree : ∀ a ∈ faceOff, a.editFree := by decide
  have hthrough : facing.unbroken faceOff = true := by decide +kernel
  have hlimit : ∀ p ∈ facing.store.programs, p.length ≤ 2 := by decide +kernel
  obtain ⟨-, hperm, hbound⟩ := play_conserves_programs hreachable hfree
  refine ⟨hthrough, by decide +kernel, by decide +kernel, (hperm hthrough).1, ?_⟩
  exact (hbound [] faceOff rfl 2 (by decide +kernel) 2 hlimit).1

/-- A list with so many more lists around it. -/
def crate : Nat → Value Float
  | 0 => .list []
  | n + 1 => .list [crate n]

/-- Two actors that overlap are given a block each, the second with a message that is nested too deep to be told.
The program is kept although the edit is refused. -/
def clogging : List (Act Float) :=
  [.init, .addActor { x := .int 110, y := .int 100 }, .submit 1 "set_color" [] none,
    .submit 2 "say" [("message", crate 254), ("duration", .int 0)] none]

/-- The first actor is put into play and takes two turns, the second of which begins with a collision pass. -/
def jostle : List (Act Float) := [.playActor 1, .beat .turn, .beat .turn]

/-- A pass that fails half-way leaves one program with both actors and the other with none. -/
theorem jostle_loses_program :
    ∃ s : Stage Float, Reachable s ∧ (∀ a ∈ jostle, a.editFree) ∧
      ¬ (s.enact jostle).1.store.programs.Perm s.store.programs := by
  refine ⟨_, (Reachable.empty (new_isEmpty Settings.standard ⟨[], 0⟩)).enact clogging, by decide, ?_⟩
  intro hperm
  have hids := hperm.map Program.ids
  revert hids
  decide +kernel

end Stage

end SpriteStage
