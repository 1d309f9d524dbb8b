import SpriteStage.Proofs.Ownership
/-!
# What a run writes

Inside of a top-level block a run writes to the record of its own actor, and never to the program,
the step or the trail; the trail grows by motion only.
-/
namespace SpriteStage

variable {α : Type} [Scalar α]

@[simp] theorem Value.finite_null : (.null : Value α).finite = .null := by simp [finite]

@[simp] theorem Value.finite_bool (b : Bool) : (.bool b : Value α).finite = .bool b := by simp [finite]

@[simp] theorem Value.finite_int (n : Int) : (.int n : Value α).finite = .int n := by simp [finite]

@[simp] theorem Value.finite_text (s : String) : (.text s : Value α).finite = .text s := by simp [finite]

/-- Free values that a patch names are as documents show them. The size is left out, which a document shows as a
scalar in any case. -/
def Patch.Finite (p : Patch α) : Prop :=
  ∀ v, some v ∈ [p.name, p.look, p.isRunning, p.stepIndex, p.message] → v.finite = v

/-- A patch that leaves the program and the trail alone, gives no size but a number, and no free value but one
that is as documents show it. -/
structure Patch.Plain (p : Patch α) : Prop where
  program : p.program = none
  trail : p.trail = none
  sized : p.Sized
  finite : p.Finite

theorem Patch.plain_message {v : Value α} (h : v.finite = v) : ({ message := some v } : Patch α).Plain :=
  ⟨rfl, rfl, by simp [Sized], by simp [Finite, h]⟩

theorem Patch.plain_stepIndex (i : Int) : ({ stepIndex := some (.int i) } : Patch α).Plain :=
  ⟨rfl, rfl, by simp [Sized], by simp [Finite]⟩

/-- What a run does inside of a top-level block, and what it lets the outside see meanwhile. -/
inductive Doing (actor : Int) : World α → List (Signal α) → World α → Prop where
  | nil (w : World α) : Doing actor w [] w
  | tell {w w' : World α} {out : List (Signal α)} (x : Signal α) (aside : x.Aside actor)
      (rest : Doing actor w out w') : Doing actor w (x :: out) w'
  | write {w w₁ w' : World α} {said out : List (Signal α)} {p : Patch α} (plain : p.Plain)
      (step : p.stepIndex = none) (written : w.write actor p = .ok (w₁, said))
      (rest : Doing actor w₁ out w') : Doing actor w (said ++ out) w'
  | move {w w₁ w' : World α} {said out : List (Signal α)} (point : Point α)
      (glided : w.glide actor point = .ok (w₁, said)) (rest : Doing actor w₁ out w') :
      Doing actor w (said ++ out) w'

namespace Doing

variable {actor : Int} {w w₁ w' : World α} {out more : List (Signal α)}

private theorem append (h : Doing actor w out w₁) (h' : Doing actor w₁ more w') :
    Doing actor w (out ++ more) w' := by
  induction h with
  | nil w => exact h'
  | tell x aside _ ih => exact .tell x aside (ih h')
  | write plain step written _ ih =>
    rw [List.append_assoc]
    exact .write plain step written (ih h')
  | move point glided _ ih =>
    rw [List.append_assoc]
    exact .move point glided (ih h')

theorem frame (h : Doing actor w out w') : World.SameFrame w w' := by
  induction h with
  | nil w => exact .refl w
  | tell _ _ _ ih => exact ih
  | write _ _ written _ ih => exact (World.frame_write written).trans ih
  | move _ glided _ ih => exact (World.frame_glide glided).trans ih

theorem ofWrite {p : Patch α} (plain : p.Plain) (step : p.stepIndex = none)
    (h : w.write actor p = .ok (w', out)) : Doing actor w out w' := by
  have hdoing := Doing.write plain step h (.nil w')
  rwa [List.append_nil] at hdoing

theorem ofConduct (h : Conduct actor w out w') : Doing actor w out w' := by
  induction h with
  | nil w => exact .nil w
  | tell x aside _ ih => exact .tell x aside ih
  | change heading size look written _ ih =>
    refine .write ⟨rfl, rfl, by simp [Patch.Sized], ?_⟩ rfl written ih
    intro v hv
    cases look with
    | none => simp at hv
    | some tag =>
      obtain rfl : v = .text tag := by simpa using hv
      exact Value.finite_text tag
  | move point glided _ ih => exact .move point glided ih

private theorem ofProper {a : Activity α} (h : a.Proper actor w) : Doing actor w a.out a.world := by
  cases h with
  | plain conduct _ => exact .ofConduct conduct
  | bubble text conduct shown => exact (ofConduct conduct).append (.ofWrite (Patch.plain_message (by simp)) rfl shown)

theorem fail (w : World α) (actor : Int) : Doing actor w (Activity.fail w actor).out w :=
  .ofProper (Activity.fail_proper w actor)

theorem sequence (m : Moment α) (loops : List (Loop α)) (w : World α) (p : Program α) :
    Doing m.actor w (m.sequence loops w p).out (m.sequence loops w p).world :=
  .ofProper (Moment.sequence_proper m loops w p)

theorem ofWake {room : Nat} {now : α} {pause : Pause α} (h : Leaf.wake w room now actor pause = .finished w' out) :
    Doing actor w out w' := by
  rcases Leaf.wake_cases w room now actor pause with
    ⟨-, w₁, said, cleared, hwake⟩ | ⟨-, hwake⟩ | ⟨-, hproper, -⟩
  · cases hwake.symm.trans h
    exact .ofWrite (Patch.plain_message (by simp)) rfl cleared
  · cases hwake.symm.trans h
  · rw [h] at hproper
    exact .ofConduct hproper.conduct

theorem asleep (now : α) (actor : Int) (w : World α) (pause : Pause α) (rest : Program α)
    (loops : List (Loop α)) (index : Nat) :
    Doing actor w ((Place.asleep pause rest loops index).resume now actor w).out
      ((Place.asleep pause rest loops index).resume now actor w).world := by
  have hrest : ∀ w₁ out, Doing actor w out w₁ →
      Doing actor w ((Moment.sequence ⟨now, actor, index⟩ loops w₁ rest).after out).out
        (Moment.sequence ⟨now, actor, index⟩ loops w₁ rest).world := by
    intro w₁ out h
    exact h.append (.sequence ⟨now, actor, index⟩ loops w₁ rest)
  simp only [Place.resume]
  rcases Leaf.wake_cases w (w.roomBelow loops.length) now actor pause with
    ⟨rfl, w₁, out, cleared, hwake⟩ | ⟨rfl, hwake⟩ | ⟨-, hproper, hquiet⟩
  · rw [hwake]
    exact hrest w₁ out (.ofWrite (Patch.plain_message (by simp)) rfl cleared)
  · rw [hwake]
    exact .fail w actor
  · generalize Leaf.wake w (w.roomBelow loops.length) now actor pause = leaf at hproper hquiet
    cases leaf with
    | finished w₁ out => exact hrest w₁ out (.ofConduct hproper.conduct)
    | sleeping w₁ out seconds pause' =>
      cases pause' with
      | bubble => exact absurd rfl (hquiet w₁ out seconds)
      | rest => exact .ofConduct hproper.conduct
      | frame motion span => exact .ofConduct hproper.conduct
    | failed w₁ out => exact (ofConduct hproper.conduct).append (.fail w₁ actor)

end Doing

end SpriteStage
