import SpriteStage.Proofs.BinaryTime
import SpriteStage.Proofs.Soundness
/-! # Binary64 shares -/
namespace SpriteStage.Binary64

open Float.Model (UnpackedFloat Format)
open Float.Model.UnpackedFloat

def Below : UnpackedFloat → Prop
  | .infinity .negative | .finite .negative .. => True
  | _ => False

private theorem zero_unpack : (Scalar.zero : Float).toModel.unpack = .zero .positive := rfl

private theorem lt_zero (x : Float) : Scalar.lt x Scalar.zero = false ↔ ¬ Below x.toModel.unpack := by
  rw [lt_eq_compare, zero_unpack]
  cases x.toModel.unpack with
  | notANumber | zero _ => simp [UnpackedFloat.compare, Below]
  | infinity s => cases s <;> simp [UnpackedFloat.compare, Below]
  | finite s m e hm => cases s <;> simp [UnpackedFloat.compare, Below]

private theorem not_lt_of_measure {x y : Float} (h : measure y.toModel.unpack ≤ measure x.toModel.unpack) :
    Scalar.lt x y = false := by
  rw [lt_eq_compare]
  by_cases hx : x.toModel.unpack = .notANumber
  · simp [hx, UnpackedFloat.compare]
  · by_cases hy : y.toModel.unpack = .notANumber
    · cases hx' : x.toModel.unpack <;> simp [hy, UnpackedFloat.compare]
    · rw [compare_measure (stored_unpack _) (stored_unpack _) hx hy, beq_eq_false_iff_ne]
      simpa [compare_lt_iff_lt] using h

/-- Two numbers of which the first is not smaller, or that cannot be compared. -/
def Ordered (x y : UnpackedFloat) : Prop := x = .notANumber ∨ y = .notANumber ∨ measure y ≤ measure x

private theorem ordered_of_not_lt {x y : Float} (h : Scalar.lt x y = false) :
    Ordered x.toModel.unpack y.toModel.unpack := by
  rw [lt_eq_compare] at h
  by_cases hx : x.toModel.unpack = .notANumber
  · exact .inl hx
  · by_cases hy : y.toModel.unpack = .notANumber
    · exact .inr (.inl hy)
    · rw [compare_measure (stored_unpack _) (stored_unpack _) hx hy, beq_eq_false_iff_ne] at h
      exact .inr (.inr (by simpa [compare_lt_iff_lt] using h))

/-! ## Signs -/

private theorem roundWithAccuracy_positive (m : Nat) (e : Int) (accuracy : Accuracy) :
    ¬ Below (roundWithAccuracy .binary64 .positive m e accuracy) := by
  simp only [roundWithAccuracy]
  split <;> simp [Below]

private theorem normalize_positive {m : Int} (h : 0 ≤ m) (e : Int) :
    ¬ Below (UnpackedFloat.normalize .binary64 m e .positive) := by
  unfold UnpackedFloat.normalize
  split
  · rename_i hlt
    rw [compare_lt_iff_lt] at hlt
    omega
  · simp [Below]
  · exact roundWithAccuracy_positive _ _ _

private theorem pack_positive {x : UnpackedFloat} (h : ¬ Below x) :
    ¬ Below (unpack .binary64 (pack .binary64 x)) := by
  have hbits : ∀ e m, ¬ Below (unpack .binary64 (packComponents .binary64 .positive e m)) := by
    intro e m
    rw [unpack_packComponents]
    unfold decode
    split
    · split <;> simp [Below]
    · split
      · split <;> simp [Below]
      · simp [Below]
  cases x with
  | notANumber | zero _ | infinity _ =>
    rw [unpack_pack (by simp)]
    exact h
  | finite s m e hm =>
    cases s with
    | negative => exact absurd trivial h
    | positive =>
      unfold pack
      dsimp only
      split
      · exact hbits _ _
      · split <;> exact hbits _ _

private theorem div_positive {x y : UnpackedFloat} (hx : ¬ Below x) (hy : ¬ Below y) (hzero : ∀ s, y ≠ .zero s) :
    ¬ Below (div .binary64 x y) := by
  cases y with
  | zero s => exact absurd rfl (hzero s)
  | notANumber => cases x <;> simp [div, Below]
  | infinity t =>
    cases t with
    | negative => exact absurd trivial hy
    | positive => cases x <;> simp [div, Below]
  | finite t n f hn =>
    cases t with
    | negative => exact absurd trivial hy
    | positive =>
      cases x with
      | notANumber | zero _ => simp [div, Below]
      | infinity s =>
        cases s with
        | negative => exact absurd trivial hx
        | positive => exact id
      | finite s m e hm =>
        cases s with
        | negative => exact absurd trivial hx
        | positive => exact roundWithAccuracy_positive _ _ _

/-! ## Differences -/

private theorem apply_mul (s : Sign) (a P : Nat) : s.apply ((a * P : Nat) : Int) = s.apply a * P := by
  cases s <;> simp [Sign.apply]

private theorem mantissa_le {s t : Sign} {m n : Nat} {e f g : Int} (hg : -1074 ≤ g) (he : g ≤ e) (hf : g ≤ f)
    (h : t.apply (units n f) ≤ s.apply (units m e)) :
    t.apply (n <<< (f - g).toNat : Nat) ≤ s.apply (m <<< (e - g).toNat : Nat) := by
  rw [← units_decrease m hg he, ← units_decrease n hg hf, units, units, apply_mul, apply_mul] at h
  exact le_of_mul_le_mul_right h (Int.natCast_pos.mpr (Nat.two_pow_pos _))

private theorem sub_positive {x y : UnpackedFloat} (hx : Stored x) (hy : Stored y) (h : Ordered x y) :
    ¬ Below (sub .binary64 x y) := by
  have hlimit : 0 < limit := units_pos (by decide) _
  rcases h with rfl | rfl | h
  · exact id
  · cases x <;> exact id
  -- Infinities and zeros are compared by their signs; only two finite numbers are subtracted.
  cases x with
  | notANumber => exact id
  | infinity s =>
    cases s with
    | positive =>
      cases y with
      | infinity t => cases t <;> exact id
      | _ => exact id
    | negative =>
      cases y with
      | notANumber => exact id
      | infinity t =>
        cases t with
        | positive => grind
        | negative => exact id
      | zero t => grind
      | finite t n f hn =>
        have hlt := hy.1.units_lt_limit hy.2
        cases t <;> grind
  | zero s =>
    cases y with
    | notANumber => exact id
    | infinity t =>
      cases t with
      | positive => grind
      | negative => exact id
    | zero t => cases s <;> cases t <;> exact id
    | finite t n f hn =>
      have hpos := units_pos hn f
      cases t with
      | positive => grind
      | negative => exact id
  | finite s m e hm =>
    cases y with
    | notANumber => exact id
    | infinity t =>
      have hlt := hx.1.units_lt_limit hx.2
      cases t with
      | positive => cases s <;> grind
      | negative => exact id
    | zero t =>
      have hpos := units_pos hm e
      cases s with
      | positive => exact id
      | negative => grind
    | finite t n f hn =>
      have hle := mantissa_le (le_min hx.1.least hy.1.least) (min_le_left e f) (min_le_right e f) h
      exact normalize_positive (sub_nonneg.mpr hle) _

/-- To take away what is not below zero does not lead above the number that it is taken from. -/
theorem measure_sub {m : Nat} {e : Int} (hm : 0 < m) (h : Canonical m e) (he : e ≤ 971) {y : UnpackedFloat}
    (hy : Stored y) (hpositive : ¬ Below y) (hordered : Ordered (.finite .positive m e hm) y) :
    measure (unpack .binary64 (pack .binary64 (sub .binary64 (.finite .positive m e hm) y))) ≤ units m e := by
  have hlimit := h.units_lt_limit he
  cases y with
  | notANumber =>
    rw [show sub .binary64 (.finite .positive m e hm) .notANumber = .notANumber from rfl, unpack_pack (by simp)]
    exact Int.natCast_nonneg _
  | infinity t =>
    cases t with
    | negative => exact absurd trivial hpositive
    | positive => grind [Ordered]
  | zero t =>
    have hsame : sub .binary64 (.finite .positive m e hm) (.zero t) = .finite .positive m e hm := rfl
    rw [hsame, unpack_pack (by rintro _ _ _ _ ⟨⟩; exact h), clip, if_pos he]
    exact le_rfl
  | finite t n f hn =>
    cases t with
    | negative => exact absurd trivial hpositive
    | positive =>
      have hg : -1074 ≤ min e f := le_min h.least hy.1.least
      have hunits := units_decrease m hg (min_le_left e f)
      have hle : Sign.positive.apply (units n f) ≤ Sign.positive.apply (units m e) := by
        rcases hordered with hnan | hnan | hle
        · cases hnan
        · cases hnan
        · exact hle
      have hmantissa := mantissa_le hg (min_le_left e f) (min_le_right e f) hle
      -- The difference is taken at the smaller exponent. Rounding does not pass the number taken from, as that is
      -- one of the format.
      simp only [sub, decreaseExponent]
      generalize m <<< (e - min e f).toNat = a at hunits hmantissa
      generalize n <<< (f - min e f).toNat = b at hmantissa
      simp only [Sign.apply] at hmantissa ⊢
      rcases eq_or_lt_of_le hmantissa with heq | hlt
      · have hzero : (a : Int) - b = 0 := by omega
        rw [UnpackedFloat.normalize, compare_eq_iff_eq.mpr hzero]
        dsimp only
        rw [unpack_pack (by simp)]
        exact Int.natCast_nonneg _
      · have hgt : (0 : Int) < (a : Int) - b := by omega
        have hdifference : ((a : Int) - b).toNat = a - b := by omega
        obtain ⟨r, k, hr, hround, hrounded⟩ := round_spec .positive (n := a - b) (by omega) hg
        rw [UnpackedFloat.normalize, compare_gt_iff_gt.mpr hgt]
        dsimp only
        rw [hdifference, hround, unpack_pack (by rintro _ _ _ _ ⟨⟩; exact hrounded.canonical)]
        have hbelow : units r k ≤ units m e := by
          apply hrounded.below m e h
          rw [← hunits]
          exact Nat.mul_le_mul_right _ (Nat.sub_le a b)
        have hfits : k ≤ 971 := by
          by_contra hlarge
          have hbeyond := hrounded.canonical.limit_le (by omega)
          omega
        rw [clip, if_pos hfits]
        exact Int.ofNat_le.mpr hbelow

/-! ## Shares -/

private theorem one_unpack :
    (Scalar.one : Float).toModel.unpack = .finite .positive (2 ^ 52) (-52) (by decide) := rfl

instance : Everyday Float where
  isSome_ofInt? n low high := by
    have hall : ∀ k : Fin 16, (Scalar.ofInt? (k.val : Int) : Option Float).isSome = true := by decide +kernel
    have hn := hall ⟨n.toNat, by omega⟩
    rwa [Int.toNat_of_nonneg low] at hn

instance : Gradual Float where
  isShare_one := by
    constructor <;> decide +kernel
  quotient_not_below {start now duration} hbegun hlasts := by
    simp only [Scalar.le, Bool.or_eq_false_iff, lt_zero] at hlasts
    have hsub : ¬ Below (now - start).toModel.unpack :=
      pack_positive (sub_positive (stored_unpack _) (stored_unpack _) (ordered_of_not_lt hbegun))
    have hzero : ∀ s, duration.toModel.unpack ≠ .zero s := by
      intro s hs
      have heq : (duration.toModel.unpack.compare (Scalar.zero : Float).toModel.unpack == some .eq) = false :=
        hlasts.2
      rw [hs, zero_unpack] at heq
      cases heq
    rw [lt_zero]
    exact pack_positive (div_positive hsub hlasts.1 hzero)
  isShare_remainder {p} h := by
    have hone : Canonical (2 ^ 52) (-52) := ⟨by decide, by decide, .inr le_rfl⟩
    have hordered := ordered_of_not_lt h.2
    constructor
    · rw [lt_zero]
      exact pack_positive (sub_positive (stored_unpack _) (stored_unpack _) hordered)
    · apply not_lt_of_measure
      rw [one_unpack] at hordered ⊢
      have hmeasure := measure_sub (by decide) hone (by decide) (stored_unpack _) ((lt_zero p).mp h.1) hordered
      rw [← one_unpack] at hmeasure
      exact hmeasure

end SpriteStage.Binary64
