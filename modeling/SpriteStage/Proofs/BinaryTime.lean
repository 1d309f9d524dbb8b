import SpriteStage.Proofs.BinaryOrder
import SpriteStage.Proofs.Clock
/-! # Binary64 times -/
namespace SpriteStage.Binary64

open Float.Model (UnpackedFloat Format totalExponent)
open Float.Model.UnpackedFloat

/-! ## Rounding -/

/-- What is left of a mantissa when its last bits are shifted out; nothing is noted if they are all zero. -/
theorem shift_exact (m n : Nat) :
    ((⟨m, false, false⟩ : ExtendedMantissa) >>> n).mantissa = m / 2 ^ n ∧
      (2 ^ n ∣ m → (⟨m, false, false⟩ : ExtendedMantissa) >>> n = ⟨m / 2 ^ n, false, false⟩) := by
  induction n with
  | zero => simp [HShiftRight.hShiftRight, Nat.repeat]
  | succ n ih =>
    obtain ⟨hmantissa, hexact⟩ := ih
    have hstep : (⟨m, false, false⟩ : ExtendedMantissa) >>> (n + 1) =
        ((⟨m, false, false⟩ : ExtendedMantissa) >>> n).shiftRightOne := rfl
    have hdiv : m / 2 ^ n / 2 = m / 2 ^ (n + 1) := by rw [Nat.div_div_eq_div_mul, Nat.pow_succ]
    refine ⟨?_, ?_⟩
    · rw [hstep, ExtendedMantissa.shiftRightOne, hmantissa, hdiv]
    · rintro ⟨c, rfl⟩
      have heven : 2 ^ (n + 1) * c / 2 ^ n = 2 * c := by
        rw [Nat.pow_succ, Nat.mul_assoc, Nat.mul_div_cancel_left _ (Nat.two_pow_pos n)]
      have hmod : 2 ^ n ∣ 2 ^ (n + 1) * c := Dvd.intro (2 * c) (by rw [Nat.pow_succ, Nat.mul_assoc])
      rw [hstep, hexact hmod, ExtendedMantissa.shiftRightOne, ← hdiv, heven]
      simp

private theorem roundedMantissa_bounds (x : ExtendedMantissa) :
    x.mantissa ≤ x.roundedMantissa ∧ x.roundedMantissa ≤ x.mantissa + 1 := by
  obtain ⟨m, up, rest⟩ := x
  cases up <;> cases rest <;>
    simp only [ExtendedMantissa.roundedMantissa, ExtendedMantissa.accuracy,
      Accuracy.roundToNearestEven] <;>
    omega

/-- `r` is `n / 2 ^ k` rounded down or up: it does not pass a whole number. -/
def Nearest (n k r : Nat) : Prop := ∀ c, (c * 2 ^ k ≤ n → c ≤ r) ∧ (n ≤ c * 2 ^ k → r ≤ c)

private theorem nearest_shift (m n : Nat) :
    Nearest m n ((⟨m, false, false⟩ : ExtendedMantissa) >>> n).roundedMantissa := by
  intro c
  have hpos : 0 < 2 ^ n := Nat.two_pow_pos n
  obtain ⟨hmantissa, hexact⟩ := shift_exact m n
  obtain ⟨hlow, hhigh⟩ := roundedMantissa_bounds ((⟨m, false, false⟩ : ExtendedMantissa) >>> n)
  rw [hmantissa] at hlow hhigh
  refine ⟨?_, ?_⟩
  · intro hc
    exact ((Nat.le_div_iff_mul_le hpos).mpr hc).trans hlow
  · intro hc
    by_cases hmod : 2 ^ n ∣ m
    · rw [hexact hmod]
      exact (Nat.div_le_iff_le_mul hpos).mpr (hc.trans (by omega))
    · have hlt : m < c * 2 ^ n := by
        refine Nat.lt_of_le_of_ne hc ?_
        rintro rfl
        exact hmod (Nat.dvd_mul_left _ _)
      exact hhigh.trans ((Nat.div_lt_iff_lt_mul hpos).mpr hlt)

private theorem log2_mul_pow {n : Nat} (hn : 0 < n) (k : Nat) : (n * 2 ^ k).log2 = n.log2 + k := by
  induction k with
  | zero => simp
  | succ k ih =>
    have hne : n * 2 ^ k ≠ 0 := Nat.mul_ne_zero (by omega) (Nat.two_pow_pos k).ne'
    rw [Nat.pow_succ, ← Nat.mul_assoc, Nat.log2_eq_log_two, Nat.log_mul_base (by decide) hne,
      ← Nat.log2_eq_log_two, ih, Nat.add_assoc]

/-- A canonical number that a measure is rounded to: no other one lies between the two. -/
structure Rounded (measured m : Nat) (e : Int) : Prop where
  canonical : Canonical m e
  above : ∀ n f, Canonical n f → units n f ≤ measured → units n f ≤ units m e
  below : ∀ n f, Canonical n f → measured ≤ units n f → units m e ≤ units n f

namespace Nearest

private theorem scale {n a b k l r : Nat} (h : Nearest (n * 2 ^ a) b r) (heq : l + b = k + a) :
    Nearest (n * 2 ^ l) k r := by
  intro c
  have hleft : c * 2 ^ b * 2 ^ l = c * 2 ^ k * 2 ^ a := by
    rw [Nat.mul_assoc, Nat.mul_assoc, ← Nat.pow_add, ← Nat.pow_add, Nat.add_comm b l, heq]
  have hright : n * 2 ^ a * 2 ^ l = n * 2 ^ l * 2 ^ a := by ring
  have hpos := Nat.two_pow_pos l
  have hpos' := Nat.two_pow_pos a
  obtain ⟨hlow, hhigh⟩ := h c
  rw [← Nat.mul_le_mul_right_iff hpos, hleft, hright, Nat.mul_le_mul_right_iff hpos'] at hlow hhigh
  exact ⟨hlow, hhigh⟩

variable {n k r : Nat}

/-- If 53 bits are kept then the result has as many, or is the power of two that comes next. -/
theorem bounds (h : Nearest n k r) (hn : n ≠ 0) (hk : k = n.log2 - 52) :
    0 < r ∧ r ≤ 2 ^ 53 ∧ (k = 0 ∨ 2 ^ 52 ≤ r) := by
  have hbelow : 2 ^ n.log2 ≤ n := Nat.log2_self_le hn
  have habove : n < 2 ^ (n.log2 + 1) := Nat.lt_log2_self
  refine ⟨?_, ?_, ?_⟩
  · apply (h 1).1
    rw [Nat.one_mul]
    exact (Nat.pow_le_pow_right (by decide) (by omega)).trans hbelow
  · apply (h _).2
    rw [← Nat.pow_add]
    exact habove.le.trans (Nat.pow_le_pow_right (by decide) (by omega))
  · rcases Nat.eq_zero_or_pos k with hzero | hpos
    · exact .inl hzero
    · refine .inr ((h _).1 ?_)
      rw [← Nat.pow_add, show 52 + k = n.log2 by omega]
      exact hbelow

private theorem rounded (h : Nearest n k r) (hn : n ≠ 0) (hk : k = n.log2 - 52) {m : Nat} {e : Int}
    (hcanonical : Canonical m e) (hunits : units m e = r * 2 ^ k) : Rounded n m e := by
  have hbelow : 2 ^ n.log2 ≤ n := Nat.log2_self_le hn
  -- A canonical number is a multiple of the last place, or else too small to matter.
  have hcases : ∀ y f, Canonical y f →
      (∃ c, units y f = c * 2 ^ k) ∨ units y f < 2 ^ 52 * 2 ^ k ∧ 2 ^ 52 * 2 ^ k ≤ n := by
    intro y f hy
    by_cases hle : k ≤ (f + 1074).toNat
    · refine .inl ⟨y * 2 ^ ((f + 1074).toNat - k), ?_⟩
      rw [units, Nat.mul_assoc, ← Nat.pow_add, Nat.sub_add_cancel hle]
    · refine .inr ⟨?_, ?_⟩
      · calc units y f < 2 ^ 53 * 2 ^ (f + 1074).toNat :=
            Nat.mul_lt_mul_of_pos_right hy.short (Nat.two_pow_pos _)
          _ = 2 ^ 52 * 2 ^ ((f + 1074).toNat + 1) := by ring
          _ ≤ 2 ^ 52 * 2 ^ k := Nat.mul_le_mul_left _ (Nat.pow_le_pow_right (by decide) (by omega))
      · rw [← Nat.pow_add, show 52 + k = n.log2 by omega]
        exact hbelow
  refine ⟨hcanonical, ?_, ?_⟩
  · intro y f hy hle
    rw [hunits]
    rcases hcases y f hy with ⟨c, hc⟩ | ⟨hsmall, hlarge⟩
    · rw [hc] at hle ⊢
      exact Nat.mul_le_mul_right _ ((h c).1 hle)
    · exact hsmall.le.trans (Nat.mul_le_mul_right _ ((h _).1 hlarge))
  · intro y f hy hle
    rw [hunits]
    rcases hcases y f hy with ⟨c, hc⟩ | ⟨hsmall, hlarge⟩
    · rw [hc] at hle ⊢
      exact Nat.mul_le_mul_right _ ((h c).2 hle)
    · omega

end Nearest

private theorem targetExponent_eq (n : Nat) (e : Int) :
    Format.binary64.targetExponent (totalExponent n e) = max ((n.log2 : Int) + e - 52) (-1074) := by
  have hmin : Format.binary64.minExponent = -1074 := rfl
  have hbits : Format.binary64.mantissaBits = 53 := rfl
  simp only [Format.targetExponent, totalExponent, hmin, hbits]
  omega

private theorem carry_spec {r k : Nat} (hpos : 0 < r) (hr : r ≤ 2 ^ 53) (hfull : k = 0 ∨ 2 ^ 52 ≤ r) :
    ∃ m f, (shiftToTargetExponent .binary64 r ((k : Int) - 1074) .exact).1.mantissa = m ∧
      (shiftToTargetExponent .binary64 r ((k : Int) - 1074) .exact).2 = f ∧ 0 < m ∧ Canonical m f ∧
      units m f = r * 2 ^ k := by
  simp only [shiftToTargetExponent, shiftToExponent, ExtendedMantissa.ofMantissaAndAccuracy,
    targetExponent_eq, (shift_exact _ _).1]
  by_cases hshort : r < 2 ^ 53
  · have hlog : r.log2 < 53 := (Nat.log2_lt (by omega)).mpr hshort
    have hnone : (max ((r.log2 : Int) + ((k : Int) - 1074) - 52) (-1074) - ((k : Int) - 1074)).toNat = 0 := by
      omega
    rw [hnone]
    refine ⟨r, (k : Int) - 1074, by simp, by simp, hpos, ⟨by omega, hshort, ?_⟩, ?_⟩
    · rcases hfull with rfl | hfull
      · exact .inl rfl
      · exact .inr hfull
    · simp [units]
  · have hcarry : r = 2 ^ 53 := by omega
    subst hcarry
    have hone : (max (((2 ^ 53 : Nat).log2 : Int) + ((k : Int) - 1074) - 52) (-1074) -
        ((k : Int) - 1074)).toNat = 1 := by
      rw [Nat.log2_two_pow]
      omega
    rw [hone]
    refine ⟨2 ^ 52, (k : Int) - 1073, by decide, by omega, by decide,
      ⟨by omega, by decide, .inr (Nat.le_refl _)⟩, ?_⟩
    have hk : ((k : Int) - 1073 + 1074).toNat = k + 1 := by omega
    rw [units, hk]
    ring

/-- Rounding gives a number of the same sign that lies next to the measure. -/
theorem round_spec (s : Sign) {n : Nat} {e : Int} (hn : 0 < n) (he : -1074 ≤ e) :
    ∃ m f hm, UnpackedFloat.round .binary64 s n e = .finite s m f hm ∧ Rounded (units n e) m f := by
  have hunits : units n e ≠ 0 := (units_pos hn e).ne'
  have hlog : (units n e).log2 = n.log2 + (e + 1074).toNat := log2_mul_pow hn _
  -- The unit in the last place of the result is `2 ^ k`. The mantissa is shifted by `a` bits to the left or
  -- by `b` bits to the right.
  obtain ⟨k, hk⟩ : ∃ k, k = (units n e).log2 - 52 := ⟨_, rfl⟩
  obtain ⟨a, ha⟩ : ∃ a, a = (e - ((k : Int) - 1074)).toNat := ⟨_, rfl⟩
  obtain ⟨b, hb⟩ : ∃ b, b = ((k : Int) - 1074 - (e - a)).toNat := ⟨_, rfl⟩
  have htarget : max ((n.log2 : Int) + e - 52) (-1074) = (k : Int) - 1074 := by omega
  have htarget' : max (((n * 2 ^ a).log2 : Int) + (e - a) - 52) (-1074) = (k : Int) - 1074 := by
    rw [log2_mul_pow hn]
    omega
  have hshift : e - a + b = (k : Int) - 1074 := by omega
  have hnearest := (nearest_shift (n * 2 ^ a) b).scale (k := k) (l := (e + 1074).toNat) (by omega)
  obtain ⟨hpos, hle, hfull⟩ := hnearest.bounds hunits hk
  obtain ⟨m, f, hm, hf, hmpos, hcanonical, hvalue⟩ := carry_spec hpos hle hfull
  refine ⟨m, f, hmpos, ?_, hnearest.rounded hunits hk hcanonical hvalue⟩
  simp only [shiftToTargetExponent, shiftToExponent, targetExponent_eq,
    ExtendedMantissa.ofMantissaAndAccuracy] at hm hf
  simp only [UnpackedFloat.round, decreaseExponent, roundWithAccuracy, shiftToTargetExponent, shiftToExponent,
    targetExponent_eq, ExtendedMantissa.ofMantissaAndAccuracy, htarget, ← ha, Nat.shiftLeft_eq,
    htarget', ← hb, hshift, hm, hf]
  rw [dif_neg (by omega)]

/-! ## Sums -/

/-- Neither NaN nor minus infinity; of the two zeros the positive one. -/
def Dated : UnpackedFloat → Prop
  | .notANumber | .infinity .negative | .zero .negative => False
  | _ => True

/-- The numbers from zero on. -/
def Lasting : UnpackedFloat → Prop
  | .infinity .positive | .zero .positive | .finite .positive .. => True
  | _ => False

/-- A sum that can be packed, and whose first term is not above it. -/
structure Later (x sum : UnpackedFloat) : Prop where
  canonical : ∀ s m e hm, sum = .finite s m e hm → Canonical m e
  dated : Dated (clip sum)
  later : measure x ≤ measure (clip sum)

theorem Canonical.limit_le {m : Nat} {e : Int} (h : Canonical m e) (he : 972 ≤ e) : limit ≤ units m e := by
  have hlimit : Canonical (2 ^ 52) 972 := ⟨by decide, by decide, .inr (Nat.le_refl _)⟩
  rcases eq_or_lt_of_le he with rfl | hlt
  · exact Nat.mul_le_mul_right _ (h.full.resolve_left (by decide))
  · exact (hlimit.units_lt h hlt).le

theorem units_decrease (m : Nat) {e g : Int} (hg : -1074 ≤ g) (h : g ≤ e) :
    units (m <<< (e - g).toNat) g = units m e := by
  rw [units, units, Nat.shiftLeft_eq, Nat.mul_assoc, ← Nat.pow_add]
  congr 2
  omega

private theorem Later.of_positive {x : UnpackedFloat} {m : Nat} {e : Int} (hm : 0 < m) (h : Canonical m e)
    (hle : measure x ≤ units m e) (hlimit : measure x ≤ limit) :
    Later x (.finite .positive m e hm) := by
  refine ⟨?_, ?_, ?_⟩
  · rintro s m e hm ⟨⟩
    exact h
  · rw [clip]
    split <;> trivial
  · rw [clip]
    split
    · exact hle
    · exact hlimit

private theorem add_finite (s : Sign) {m n : Nat} {e f : Int} (hm : 0 < m) (hn : 0 < n) (h : Canonical m e)
    (he : e ≤ 971) (h' : Canonical n f) :
    Later (.finite s m e hm) (add .binary64 (.finite s m e hm) (.finite .positive n f hn)) := by
  have hleast : -1074 ≤ min e f := le_min h.least h'.least
  have hunits := units_decrease m hleast (min_le_left e f)
  have hlimit := h.units_lt_limit he
  simp only [add, decreaseExponent]
  generalize min e f = g at hleast hunits
  generalize m <<< (e - g).toNat = a at hunits
  have hpos : 0 < n <<< (f - g).toNat := by
    rw [Nat.shiftLeft_eq]
    exact Nat.mul_pos hn (Nat.two_pow_pos _)
  generalize n <<< (f - g).toNat = b at hpos
  have hab : ((a : Int) + b).toNat = a + b := by omega
  cases s with
  | positive =>
    have hgt : (0 : Int) < Sign.positive.apply a + Sign.positive.apply b := by
      simp only [Sign.apply]
      omega
    obtain ⟨r, k, hr, hround, hrounded⟩ := round_spec .positive (n := a + b) (by omega) hleast
    rw [UnpackedFloat.normalize, compare_gt_iff_gt.mpr hgt]
    simp only [Sign.apply, hab, hround]
    refine .of_positive hr hrounded.canonical ?_ ?_
    · have hle : units m e ≤ units (a + b) g := by
        rw [← hunits]
        exact Nat.mul_le_mul_right _ (Nat.le_add_right a b)
      exact Int.ofNat_le.mpr (hrounded.above m e h hle)
    · exact Int.ofNat_le.mpr hlimit.le
  | negative =>
    have hmeasure : measure (.finite .negative m e hm) ≤ 0 := by grind
    rcases lt_trichotomy a b with hlt | rfl | hgt
    · have hpositive : (0 : Int) < Sign.negative.apply a + Sign.positive.apply b := by
        simp only [Sign.apply]
        omega
      obtain ⟨r, k, hr, hround, hrounded⟩ := round_spec .positive (n := b - a) (by omega) hleast
      have hba : (-(a : Int) + b).toNat = b - a := by omega
      rw [UnpackedFloat.normalize, compare_gt_iff_gt.mpr hpositive]
      simp only [Sign.apply, hba, hround]
      exact .of_positive hr hrounded.canonical (by omega) (by omega)
    · have hzero : Sign.negative.apply a + Sign.positive.apply a = 0 := by
        simp only [Sign.apply]
        omega
      rw [UnpackedFloat.normalize, compare_eq_iff_eq.mpr hzero]
      exact ⟨by simp, trivial, hmeasure⟩
    · have hnegative : Sign.negative.apply a + Sign.positive.apply b < 0 := by
        simp only [Sign.apply]
        omega
      obtain ⟨r, k, hr, hround, hrounded⟩ := round_spec .negative (n := a - b) (by omega) hleast
      have hba : (-(-(a : Int) + b)).toNat = a - b := by omega
      have hle : units r k ≤ units m e := by
        apply hrounded.below m e h
        rw [← hunits]
        exact Nat.mul_le_mul_right _ (Nat.sub_le a b)
      have hfits : k ≤ 971 := by
        by_contra hlarge
        have hbeyond := hrounded.canonical.limit_le (by omega)
        omega
      rw [UnpackedFloat.normalize, compare_lt_iff_lt.mpr hnegative]
      simp only [Sign.apply, hba, hround]
      refine ⟨?_, ?_, ?_⟩
      · rintro s m e hm ⟨⟩
        exact hrounded.canonical
      · rw [clip, if_pos hfits]
        trivial
      · rw [clip, if_pos hfits]
        simp only [measure, Sign.apply]
        omega

private theorem Later.of_stored {x sum : UnpackedFloat} (h : Stored sum) (hdated : Dated sum)
    (hle : measure x ≤ measure sum) : Later x sum := by
  have hclip : clip sum = sum := by
    cases sum with
    | finite s m e hm => rw [clip, if_pos h.2]
    | _ => rfl
  refine ⟨?_, by rwa [hclip], by rwa [hclip]⟩
  rintro s m e hm rfl
  exact h.1

private theorem later_add {x y : UnpackedFloat} (hx : Stored x) (hy : Stored y) (hdated : Dated x)
    (hlasting : Lasting y) : Later x (add .binary64 x y) := by
  have hlimit : 0 < limit := units_pos (by decide) _
  cases y with
  | notANumber => exact hlasting.elim
  | infinity t =>
    cases t with
    | negative => exact hlasting.elim
    | positive =>
      have hle : measure x ≤ limit := by
        cases x with
        | finite s m e hm =>
          have hlt := hx.1.units_lt_limit hx.2
          cases s <;> grind
        | infinity s => cases s <;> grind
        | _ => grind
      have hsum : add .binary64 x (.infinity .positive) = .infinity .positive := by
        cases x with
        | infinity s =>
          cases s with
          | positive => rfl
          | negative => exact hdated.elim
        | notANumber => exact hdated.elim
        | _ => rfl
      rw [hsum]
      exact .of_stored trivial trivial hle
  | zero t =>
    cases t with
    | negative => exact hlasting.elim
    | positive =>
      have hsum : add .binary64 x (.zero .positive) = x := by
        cases x with
        | zero s =>
          cases s with
          | positive => rfl
          | negative => exact hdated.elim
        | _ => rfl
      rw [hsum]
      exact .of_stored hx hdated le_rfl
  | finite t n f hn =>
    cases t with
    | negative => exact hlasting.elim
    | positive =>
      cases x with
      | notANumber => exact hdated.elim
      | infinity s => exact .of_stored hx hdated le_rfl
      | zero s => exact .of_stored hy trivial (Int.natCast_nonneg _)
      | finite s m e hm => exact add_finite s hm hn hx.1 hx.2 hy.1

/-! ## The clock -/

private theorem unpack_add (x y : Float) (h : ∀ s m e hm,
      add .binary64 x.toModel.unpack y.toModel.unpack = .finite s m e hm → Canonical m e) :
    (x + y).toModel.unpack = clip (add .binary64 x.toModel.unpack y.toModel.unpack) :=
  unpack_pack h

private theorem Dated.isNumber {x : UnpackedFloat} (h : Dated x) : x ≠ .notANumber := by
  rintro rfl
  exact h

theorem lt_eq_compare (x y : Float) :
    Scalar.lt x y = (x.toModel.unpack.compare y.toModel.unpack == some .lt) := by
  change decide (Float.lt x y = true) = _
  rw [Bool.decide_eq_true]
  change decide (Float.Model.lt x.toModel y.toModel = true) = _
  rw [Bool.decide_eq_true]
  rfl

private theorem lt_iff {x y : Float} (hx : Dated x.toModel.unpack) (hy : Dated y.toModel.unpack) :
    Scalar.lt x y = true ↔ measure x.toModel.unpack < measure y.toModel.unpack := by
  rw [lt_eq_compare, compare_measure (stored_unpack _) (stored_unpack _) hx.isNumber hy.isNumber,
    beq_iff_eq, Option.some_inj, compare_lt_iff_lt]

private theorem eq_iff {x y : Float} (hx : Dated x.toModel.unpack) (hy : Dated y.toModel.unpack) :
    Scalar.eq x y = true ↔ measure x.toModel.unpack = measure y.toModel.unpack := by
  change (x.toModel.unpack.compare y.toModel.unpack == some .eq) = true ↔ _
  rw [compare_measure (stored_unpack _) (stored_unpack _) hx.isNumber hy.isNumber,
    beq_iff_eq, Option.some_inj, compare_eq_iff_eq]

private theorem Canonical.units_injective {m n : Nat} {e f : Int} (h : Canonical m e) (h' : Canonical n f)
    (heq : units m e = units n f) : m = n ∧ e = f := by
  rcases lt_trichotomy e f with hlt | rfl | hgt
  · have := h.units_lt h' hlt
    omega
  · exact ⟨Nat.eq_of_mul_eq_mul_right (Nat.two_pow_pos _) heq, rfl⟩
  · have := h'.units_lt h hgt
    omega

private theorem measure_injective {x y : UnpackedFloat} (hx : Stored x) (hy : Stored y) (hx' : Dated x)
    (hy' : Dated y) (h : measure x = measure y) : x = y := by
  have hlimit : 0 < limit := units_pos (by decide) _
  cases x with
  | notANumber => exact hx'.elim
  | infinity s =>
    cases y with
    | finite t n f hn =>
      have hlt := hy.1.units_lt_limit hy.2
      cases s <;> cases t <;> grind [Dated]
    | infinity t => cases s <;> cases t <;> grind [Dated]
    | _ => cases s <;> grind [Dated]
  | zero s =>
    cases y with
    | finite t n f hn =>
      have hpos := units_pos hn f
      cases t <;> grind
    | infinity t => cases t <;> grind
    | zero t => cases s <;> cases t <;> grind [Dated]
    | notANumber => exact hy'.elim
  | finite s m e hm =>
    have hpos := units_pos hm e
    cases y with
    | finite t n f hn =>
      have hpos' := units_pos hn f
      have hinjective := hx.1.units_injective hy.1
      cases s <;> cases t <;> grind
    | infinity t =>
      have hlt := hx.1.units_lt_limit hx.2
      cases s <;> cases t <;> grind
    | zero t => cases s <;> grind
    | notANumber => exact hy'.elim

private theorem lasting_greatest (x : Float) : Lasting (Scalar.greatest Scalar.zero x).toModel.unpack := by
  have hzero : (Scalar.zero : Float).toModel.unpack = .zero .positive := rfl
  unfold Scalar.greatest
  split
  · rename_i hlt
    rw [lt_eq_compare, hzero] at hlt
    cases hx : x.toModel.unpack with
    | notANumber => simp [hx, UnpackedFloat.compare] at hlt
    | zero s => simp [hx, UnpackedFloat.compare] at hlt
    | infinity s =>
      cases s with
      | positive => trivial
      | negative => simp [hx, UnpackedFloat.compare] at hlt
    | finite s m e hm =>
      cases s with
      | positive => trivial
      | negative => simp [hx, UnpackedFloat.compare] at hlt
  · rw [hzero]
    trivial

private theorem later_wakeTime {now : Float} (seconds : Float) (h : Dated now.toModel.unpack) :
    Dated (wakeTime now seconds).toModel.unpack ∧
      measure now.toModel.unpack ≤ measure (wakeTime now seconds).toModel.unpack := by
  have hsum := later_add (stored_unpack _) (stored_unpack _) h (lasting_greatest seconds)
  have hunpack : (wakeTime now seconds).toModel.unpack = _ := unpack_add now _ hsum.canonical
  rw [hunpack]
  exact ⟨hsum.dated, hsum.later⟩

private theorem not_lt_iff {x y : Float} (hx : Dated x.toModel.unpack) (hy : Dated y.toModel.unpack) :
    Scalar.lt x y = false ↔ measure y.toModel.unpack ≤ measure x.toModel.unpack := by
  rw [← Bool.not_eq_true, lt_iff hx hy, not_lt]

private theorem eq_of_measure {x y : Float} (hx : Dated x.toModel.unpack) (hy : Dated y.toModel.unpack)
    (h : measure x.toModel.unpack = measure y.toModel.unpack) : x = y := by
  have hunpack := measure_injective (stored_unpack _) (stored_unpack _) hx hy h
  have hmodel := unpack_injective hx.isNumber hunpack
  cases x
  cases y
  exact congrArg Float.ofModel hmodel

instance : Timeline Float where
  IsTime x := Dated x.toModel.unpack
  lt_asymm := by
    intro a b ha hb hlt
    rw [lt_iff ha hb] at hlt
    rw [not_lt_iff hb ha]
    exact hlt.le
  le_trans := by
    intro a b c ha hb hc hab hbc
    rw [not_lt_iff hb ha] at hab
    rw [not_lt_iff hc hb] at hbc
    rw [not_lt_iff hc ha]
    exact hab.trans hbc
  eq_of_le := by
    intro a b ha hb hab hba
    rw [not_lt_iff ha hb] at hab
    rw [not_lt_iff hb ha] at hba
    exact eq_of_measure ha hb (le_antisymm hba hab)
  eq_iff := by
    intro a b ha hb
    rw [eq_iff ha hb]
    exact ⟨eq_of_measure ha hb, by rintro rfl; rfl⟩
  isTime_wakeTime := by
    intro now seconds h
    exact (later_wakeTime seconds h).1
  le_wakeTime := by
    intro now seconds h
    obtain ⟨hdated, hle⟩ := later_wakeTime seconds h
    rw [not_lt_iff hdated h]
    exact hle

end SpriteStage.Binary64
