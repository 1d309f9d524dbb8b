import Mathlib.Algebra.Order.Field.Rat
import SpriteStage.Proofs.Soundness
import SpriteStage.Proofs.Timing
/-! # Rational times and shares -/
namespace SpriteStage

namespace Rational

@[simp] theorem lt_eq_false {x y : ℚ} : Scalar.lt x y = false ↔ y ≤ x := by
  simp [Scalar.lt, smaller]

@[simp] theorem lt_eq_true {x y : ℚ} : Scalar.lt x y = true ↔ x < y := by
  simp [Scalar.lt, smaller]

@[simp] theorem eq_eq_true {x y : ℚ} : Scalar.eq x y = true ↔ x = y := by
  simp [Scalar.eq]

@[simp] theorem zero_eq : (Scalar.zero : ℚ) = 0 := by decide +kernel

@[simp] theorem one_eq : (Scalar.one : ℚ) = 1 := by decide +kernel

@[simp] theorem isShare_iff {x : ℚ} : IsShare x ↔ 0 ≤ x ∧ x ≤ 1 := by simp [IsShare]

end Rational

instance : Everyday ℚ := ⟨fun _ _ _ => rfl⟩

instance : Timeline ℚ where
  IsTime _ := True
  lt_asymm _ _ h := by
    rw [Rational.lt_eq_true] at h
    rw [Rational.lt_eq_false]
    exact h.le
  le_trans _ _ _ h h' := by
    rw [Rational.lt_eq_false] at h h' ⊢
    exact h.trans h'
  eq_of_le _ _ h h' := Comparable.eq_of_not_lt h h'
  eq_iff _ _ := Rational.eq_eq_true
  isTime_wakeTime _ _ := trivial
  le_wakeTime {now} seconds _ := by
    have hzero : (0 : ℚ) ≤ Scalar.greatest Scalar.zero seconds := by
      unfold Scalar.greatest
      split
      · rename_i h
        simpa using (Rational.lt_eq_true.mp h).le
      · simp
    rw [Rational.lt_eq_false, wakeTime]
    exact le_add_of_nonneg_right hzero

instance : Gradual ℚ where
  isShare_one := by simp
  quotient_not_below {start now duration} hbegun hlasts := by
    rw [Rational.lt_eq_false] at hbegun ⊢
    simp only [Scalar.le, Bool.or_eq_false_iff, Rational.lt_eq_false, Rational.zero_eq] at hlasts
    rw [Rational.zero_eq]
    exact div_nonneg (sub_nonneg.mpr hbegun) hlasts.1
  isShare_remainder {p} h := by
    rw [Rational.isShare_iff] at h ⊢
    rw [Rational.one_eq]
    exact ⟨sub_nonneg.mpr h.2, sub_le_self 1 h.1⟩

instance : Cubic ℚ := ⟨fun _ => rfl⟩

end SpriteStage
