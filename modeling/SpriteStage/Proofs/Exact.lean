import Mathlib.Algebra.Order.Ring.Pow
import Mathlib.Order.Interval.Set.UnorderedInterval
import Mathlib.Tactic.Linarith
import SpriteStage.Proofs.Confinement
import SpriteStage.Proofs.RationalTime
/-!
# Exact arithmetic

On numbers that are computed with as rational numbers are, nothing that a tween does rounds.
Directions and lengths are left open, as few of them are rational.
-/
namespace SpriteStage

/-- Numbers that stand for rational ones, no two of them for the same. The arithmetic is exact, and no quotient and no
power is missing. -/
class Exact (α : Type) [Scalar α] where
  value : α → ℚ
  injective : Function.Injective value
  add : ∀ x y : α, value (x + y) = value x + value y
  sub : ∀ x y : α, value (x - y) = value x - value y
  mul : ∀ x y : α, value (x * y) = value x * value y
  div : ∀ x y : α, value (x / y) = value x / value y
  lt_iff : ∀ x y : α, Scalar.lt x y = true ↔ value x < value y
  eq_iff : ∀ x y : α, Scalar.eq x y = true ↔ value x = value y
  whole : ∀ n : Nat, value (Scalar.whole n : α) = n
  ratio : ∀ (n : Int) (d : Nat), ∃ y : α, Scalar.ofRatio? n d = some y ∧ value y = n / d
  cube : ∀ x : α, ∃ y, Scalar.cube? x = some y ∧ value y = value x ^ 3

instance : Exact ℚ where
  value := id
  injective := Function.injective_id
  add _ _ := rfl
  sub _ _ := rfl
  mul _ _ := rfl
  div _ _ := rfl
  lt_iff _ _ := Rational.lt_eq_true
  eq_iff _ _ := Rational.eq_eq_true
  whole n := by simp [Scalar.whole, Scalar.ofDecimal, Rational.tenTo]
  ratio _ _ := ⟨_, rfl, rfl⟩
  cube _ := ⟨_, rfl, rfl⟩

@[simp] theorem Rational.value_eq (x : ℚ) : Exact.value x = x := rfl

variable {α : Type} [Scalar α] [Exact α]

namespace Exact

@[simp] theorem value_zero : value (Scalar.zero : α) = 0 := (whole 0).trans Nat.cast_zero

@[simp] theorem value_one : value (Scalar.one : α) = 1 := (whole 1).trans Nat.cast_one

theorem not_lt_iff {x y : α} : Scalar.lt x y = false ↔ value y ≤ value x := by
  rw [← Bool.not_eq_true, lt_iff, not_lt]

theorem le_iff {x y : α} : Scalar.le x y = true ↔ value x ≤ value y := by
  rw [Scalar.le, Bool.or_eq_true, lt_iff, eq_iff, le_iff_lt_or_eq]

theorem not_le_iff {x y : α} : Scalar.le x y = false ↔ value y < value x := by
  rw [← Bool.not_eq_true, le_iff, not_le]

private theorem value_least (x y : α) : value (Scalar.least x y) = min (value x) (value y) := by
  unfold Scalar.least
  split
  · rename_i h
    exact (min_eq_right ((lt_iff y x).mp h).le).symm
  · rename_i h
    exact (min_eq_left (not_lt_iff.mp (Bool.eq_false_iff.mpr h))).symm

theorem value_greatest (x y : α) : value (Scalar.greatest x y) = max (value x) (value y) := by
  unfold Scalar.greatest
  split
  · rename_i h
    exact (max_eq_right ((lt_iff x y).mp h).le).symm
  · rename_i h
    exact (max_eq_left (not_lt_iff.mp (Bool.eq_false_iff.mpr h))).symm

theorem value_clamp (low high x : α) :
    value (Scalar.clamp low high x) = max (value low) (min (value high) (value x)) := by
  rw [Scalar.clamp, value_greatest, value_least]

theorem toScalar_isOk (n : Number α) : ∃ x, n.toScalar = .ok x := by
  cases n with
  | real x => exact ⟨x, rfl⟩
  | int n =>
    obtain ⟨x, hx, -⟩ := ratio (α := α) n 1
    exact ⟨x, by simp only [Number.toScalar, Scalar.ofInt?, hx]⟩

theorem isShare_iff {x : α} : IsShare x ↔ 0 ≤ value x ∧ value x ≤ 1 := by
  rw [IsShare, not_lt_iff, not_lt_iff, value_zero, value_one]

end Exact

open Exact

/-! ## Time -/

instance (priority := low) Exact.timeline : Timeline α where
  IsTime _ := True
  lt_asymm _ _ h := not_lt_iff.mpr ((lt_iff _ _).mp h).le
  le_trans _ _ _ h h' := not_lt_iff.mpr ((not_lt_iff.mp h).trans (not_lt_iff.mp h'))
  eq_of_le _ _ h h' := injective (le_antisymm (not_lt_iff.mp h') (not_lt_iff.mp h))
  eq_iff _ _ := (Exact.eq_iff _ _).trans injective.eq_iff
  isTime_wakeTime _ _ := trivial
  le_wakeTime _ _ := by
    rw [not_lt_iff, wakeTime, add, value_greatest, value_zero]
    exact le_add_of_nonneg_right (le_max_left _ _)

theorem Span.value_progress (s : Span α) (now : α) :
    value (s.progress now) = min ((value now - value s.start) / value s.duration) 1 := by
  rw [progress, value_least, div, sub, value_one]

theorem Span.progress_mono {s : Span α} (hlasts : 0 ≤ value s.duration) {now later : α}
    (h : value now ≤ value later) : value (s.progress now) ≤ value (s.progress later) := by
  rw [value_progress, value_progress]
  exact min_le_min_right _ (div_le_div_of_nonneg_right (sub_le_sub_right h _) hlasts)

/-! ## Easing -/

/-- What becomes of a share of time when nothing is rounded. -/
def Easing.curve : Easing → ℚ → ℚ
  | .linear, p => p
  | .easeOutCubic, p => 1 - (1 - p) ^ 3

namespace Easing

theorem apply_eq (easing : Easing) (p : α) :
    ∃ t, easing.apply p = .ok t ∧ value t = easing.curve (value p) := by
  cases easing with
  | linear => exact ⟨p, rfl, rfl⟩
  | easeOutCubic =>
    obtain ⟨c, hc, hvalue⟩ := cube (Scalar.one - p)
    refine ⟨Scalar.one - c, by simp only [apply, hc], ?_⟩
    rw [sub, hvalue, sub, value_one, curve]

theorem curve_mono (easing : Easing) : Monotone easing.curve := by
  cases easing with
  | linear => exact monotone_id
  | easeOutCubic =>
    have hodd : Odd 3 := by decide
    exact fun p q h => sub_le_sub_left (hodd.pow_le_pow.mpr (sub_le_sub_left h 1)) 1

@[simp] theorem curve_zero (easing : Easing) : easing.curve 0 = 0 := by
  cases easing <;> norm_num [curve]

@[simp] theorem curve_one (easing : Easing) : easing.curve 1 = 1 := by
  cases easing <;> norm_num [curve]

end Easing

/-! ## Between two numbers -/

/-- Whether a number lies between two others, whichever of these is the greater. -/
def Exact.Between (x y z : α) : Prop := value y ∈ Set.uIcc (value x) (value z)

private theorem value_lerp (start stop t : α) :
    value (lerp start stop t) = value start + (value stop - value start) * value t := by
  rw [lerp, add, mul, sub]

theorem lerp_one (start stop : α) : lerp start stop Scalar.one = stop := by
  apply injective
  rw [value_lerp, value_one]
  ring

/-- A later share of the way leads on toward the end. -/
theorem lerp_toward {start stop t u : α} (htu : value t ≤ value u) (hu : value u ≤ 1) :
    Between (lerp start stop t) (lerp start stop u) stop := by
  rw [Between, value_lerp, value_lerp]
  generalize value start = a
  generalize value stop = b
  generalize value t = t at htu
  generalize value u = u at htu hu
  rcases le_total a b with h | h
  · exact Set.mem_uIcc.mpr (.inl ⟨by nlinarith, by nlinarith⟩)
  · exact Set.mem_uIcc.mpr (.inr ⟨by nlinarith, by nlinarith⟩)

theorem lerp_between {start stop t : α} (ht : 0 ≤ value t) (ht' : value t ≤ 1) :
    Between start (lerp start stop t) stop := by
  have hstart : lerp start stop Scalar.zero = start := by
    apply injective
    rw [value_lerp, value_zero]
    ring
  have hzero : value (Scalar.zero : α) ≤ value t := by simpa using ht
  have htoward : Between (lerp start stop Scalar.zero) (lerp start stop t) stop := lerp_toward hzero ht'
  rwa [hstart] at htoward

/-! ## Points -/

structure Point.Between (p q r : Point α) : Prop where
  x : Exact.Between p.x q.x r.x
  y : Exact.Between p.y q.y r.y

namespace Settings

variable {s : Settings α} {p q r : Point α}

private theorem holds_iff : s.Holds p ↔
    (0 ≤ value p.x ∧ value p.x ≤ value s.width) ∧ 0 ≤ value p.y ∧ value p.y ≤ value s.height := by
  refine ⟨fun h => ?_, fun h => ?_⟩
  · exact ⟨⟨by simpa using le_iff.mp h.left, le_iff.mp h.right⟩, by simpa using le_iff.mp h.bottom, le_iff.mp h.top⟩
  · exact ⟨le_iff.mpr (by simpa using h.1.1), le_iff.mpr h.1.2, le_iff.mpr (by simpa using h.2.1),
      le_iff.mpr h.2.2⟩

theorem confine_of_holds (h : s.Holds p) : s.confine p = p := by
  obtain ⟨⟨hleft, hright⟩, hbottom, htop⟩ := holds_iff.mp h
  have hx : Scalar.clamp Scalar.zero s.width p.x = p.x :=
    injective (by rw [value_clamp, value_zero, min_eq_right hright, max_eq_right hleft])
  have hy : Scalar.clamp Scalar.zero s.height p.y = p.y :=
    injective (by rw [value_clamp, value_zero, min_eq_right htop, max_eq_right hbottom])
  rw [confine, hx, hy]

theorem confining_of_holds (h : s.Holds p) : s.Confining := by
  obtain ⟨⟨hleft, hright⟩, hbottom, htop⟩ := holds_iff.mp h
  intro q
  rw [holds_iff, confine, value_clamp, value_clamp, value_zero]
  exact ⟨⟨le_max_left _ _, max_le (hleft.trans hright) (min_le_left _ _)⟩, le_max_left _ _,
    max_le (hbottom.trans htop) (min_le_left _ _)⟩

theorem Holds.between (hp : s.Holds p) (hr : s.Holds r) (h : p.Between q r) : s.Holds q := by
  obtain ⟨hpx, hpy⟩ := holds_iff.mp hp
  obtain ⟨hrx, hry⟩ := holds_iff.mp hr
  exact holds_iff.mpr ⟨Set.uIcc_subset_Icc hpx hrx h.x, Set.uIcc_subset_Icc hpy hry h.y⟩

end Settings

end SpriteStage
