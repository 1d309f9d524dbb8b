import Mathlib.Algebra.Order.Floor.Ring
import Mathlib.Data.Rat.Floor
import SpriteStage.Number
/-!
# What numbers are worth

An integer is compared with a scalar without making a scalar of it, through the integers on either
side of the scalar.
-/
namespace SpriteStage

/-- Scalars of which every finite one is worth a rational number. -/
class Valued (α : Type) [Scalar α] where
  value : α → ℚ
  lt_iff : ∀ {x y : α}, Scalar.isFinite x = true → Scalar.isFinite y = true →
    (Scalar.lt x y = true ↔ value x < value y)
  floor_eq : ∀ {x : α}, Scalar.isFinite x = true → Scalar.floor x = ⌊value x⌋
  isFinite_neg : ∀ {x : α}, Scalar.isFinite x = true → Scalar.isFinite (-x) = true
  value_neg : ∀ {x : α}, Scalar.isFinite x = true → value (-x) = -value x

namespace Number

variable {α : Type} [Scalar α]

/-- Neither infinite nor no number. -/
def isFinite : Number α → Bool
  | .int _ => true
  | .real x => Scalar.isFinite x

variable [Valued α]

def value : Number α → ℚ
  | .int n => n
  | .real x => Valued.value x

theorem lt_iff {m n : Number α} (hm : m.isFinite = true) (hn : n.isFinite = true) :
    m.lt n = true ↔ m.value < n.value := by
  cases m with
  | int a =>
    cases n with
    | int b => simp [lt, value]
    | real y =>
      have hy : Scalar.isFinite y = true := hn
      simp only [lt, hy, if_true, decide_eq_true_eq, value]
      rw [Valued.floor_eq (Valued.isFinite_neg hy), Valued.value_neg hy, Int.floor_neg, neg_neg, Int.lt_ceil]
  | real x =>
    have hx : Scalar.isFinite x = true := hm
    cases n with
    | int b =>
      simp only [lt, hx, if_true, decide_eq_true_eq, value]
      rw [Valued.floor_eq hx, Int.floor_lt]
    | real y => exact Valued.lt_iff hx hn

theorem not_lt_iff {m n : Number α} (hm : m.isFinite = true) (hn : n.isFinite = true) :
    m.lt n = false ↔ n.value ≤ m.value := by
  rw [← Bool.not_eq_true, lt_iff hm hn, not_lt]

end Number

end SpriteStage
