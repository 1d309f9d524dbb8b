import SpriteStage.Proofs.BinaryTime
import SpriteStage.Proofs.Magnitude
/-!
# What binary64 numbers are worth

A finite number is worth the quotient of its measure and that of one.
-/
namespace SpriteStage.Binary64

open Float.Model (UnpackedFloat Format)
open Float.Model.UnpackedFloat

def worth (x : Float) : ℚ := (measure x.toModel.unpack : ℚ) / (units 1 0 : ℕ)

private theorem worth_lt_iff {x y : Float} :
    worth x < worth y ↔ measure x.toModel.unpack < measure y.toModel.unpack := by
  have hpos : (0 : ℚ) < (units 1 0 : ℕ) := Nat.cast_pos.mpr (units_pos Nat.one_pos _)
  rw [worth, worth, div_lt_div_iff_of_pos_right hpos, Int.cast_lt]

private theorem isNumber_of_isFinite {x : Float} (h : x.isFinite = true) : x.toModel.unpack ≠ .notANumber := by
  intro hnone
  change x.toModel.unpack.isFinite = true at h
  rw [hnone] at h
  cases h

private theorem finite_lt_iff {x y : Float} (hx : x.isFinite = true) (hy : y.isFinite = true) :
    Scalar.lt x y = true ↔ worth x < worth y := by
  rw [worth_lt_iff, lt_eq_compare, compare_measure (stored_unpack _) (stored_unpack _) (isNumber_of_isFinite hx)
    (isNumber_of_isFinite hy), beq_iff_eq, Option.some_inj, compare_lt_iff_lt]

/-! ## Negation -/

private theorem unpack_neg (x : Float) : (-x).toModel.unpack = x.toModel.unpack.neg := by
  have hstored := stored_unpack x.toModel
  have hpack : (-x).toModel.unpack = clip x.toModel.unpack.neg := by
    apply unpack_pack
    intro s m e hm h
    cases hx : x.toModel.unpack with
    | finite t n f hn =>
      rw [hx] at h hstored
      cases h
      exact hstored.1
    | _ =>
      rw [hx] at h
      cases h
  rw [hpack]
  cases hx : x.toModel.unpack with
  | finite t n f hn =>
    rw [hx] at hstored
    exact if_pos hstored.2
  | _ => rfl

private theorem measure_neg (u : UnpackedFloat) : measure u.neg = -measure u := by
  have hsign : ∀ (s : Sign) (n : Nat), (-s).apply n = -s.apply n := by
    intro s n
    cases s <;> simp [Sign.apply]
  cases u with
  | notANumber | zero _ => rfl
  | infinity s => exact hsign s _
  | finite s m e hm => exact hsign s _

/-! ## Integers below numbers -/

private theorem unpackSign_eq (b : BitVec Format.binary64.numBits) :
    (Sign.ofBitVec (unpackSign b) == .negative) = decide (2 ^ 63 ≤ b.toNat) := by
  have hlt : b.toNat < 2 ^ 64 := b.isLt
  have hbit : (unpackSign b).toNat = b.toNat / 2 ^ 63 % 2 := by
    simp [unpackSign, BitVec.extractLsb, Nat.shiftRight_eq_div_pow]
  by_cases hlarge : 2 ^ 63 ≤ b.toNat
  · have hone : unpackSign b = 1#1 := BitVec.eq_of_toNat_eq (hbit.trans (by simp; omega))
    rw [hone, decide_eq_true hlarge]
    rfl
  · have hzero : unpackSign b = 0#1 := BitVec.eq_of_toNat_eq (hbit.trans (by simp; omega))
    rw [hzero, decide_eq_false hlarge]
    rfl

private theorem parts_eq (x : Float) : parts x =
    match x.toModel.unpack with
    | .notANumber => .nan
    | .infinity s => .infinite (s == .negative)
    | .zero s => .finite (s == .negative) 0 (-1074)
    | .finite s m e _ => .finite (s == .negative) m e := by
  have hbits : x.toBits.toNat = x.toModel.toBits.toBitVec.toNat := rfl
  have hpow : ∀ k, Nat.pow 2 k = 2 ^ k := fun _ => rfl
  rw [Float.Model.unpack, unpack_eq_decode, parts, hbits]
  generalize x.toModel.toBits.toBitVec = b
  have hexponent : (@unpackExponent .binary64 b).toNat = b.toNat / 2 ^ 52 % 2 ^ 11 := by
    simp [unpackExponent, BitVec.extractLsb, Nat.shiftRight_eq_div_pow]
  have hmantissa : (@unpackMantissa .binary64 b).toNat = b.toNat % 2 ^ 52 := by
    simp [unpackMantissa, BitVec.extractLsb, Nat.shiftRight_eq_div_pow]
  have hsign := unpackSign_eq b
  simp only [hpow, ge_iff_le, ← hexponent, ← hmantissa, ← hsign]
  generalize Sign.ofBitVec (@unpackSign .binary64 b) = s
  generalize @unpackExponent .binary64 b = e
  generalize @unpackMantissa .binary64 b = m
  change BitVec 11 at e
  change BitVec 52 at m
  have hones : e.toNat = 2047 ↔ e = -1#11 := ⟨fun h => BitVec.eq_of_toNat_eq h, by rintro rfl; rfl⟩
  have hnothing : e.toNat = 0 ↔ e = 0#11 := ⟨fun h => BitVec.eq_of_toNat_eq h, by rintro rfl; rfl⟩
  have hempty : m.toNat = 0 ↔ m = 0#52 := ⟨fun h => BitVec.eq_of_toNat_eq h, by rintro rfl; rfl⟩
  unfold decode
  by_cases hinfinite : e = -1#11
  · rw [if_pos (hones.mpr hinfinite), if_pos hinfinite]
    by_cases hm : m = 0#52
    · rw [if_pos (hempty.mpr hm), if_pos hm]
    · rw [if_neg (mt hempty.mp hm), if_neg hm]
  · rw [if_neg (mt hones.mp hinfinite), if_neg hinfinite]
    by_cases hsmall : e = 0#11
    · rw [if_pos (hnothing.mpr hsmall), if_pos hsmall]
      by_cases hm : m = 0#52
      · rw [dif_pos hm, hempty.mpr hm]
      · rw [dif_neg hm]
    · rw [if_neg (mt hnothing.mp hsmall), if_neg hsmall, Nat.add_comm]

private theorem parts_finite {x : Float} (hx : x.isFinite = true) :
    ∃ s m e, parts x = .finite (s == .negative) m e ∧ -1074 ≤ e ∧
      measure x.toModel.unpack = Sign.apply s (units m e) := by
  have hstored := stored_unpack x.toModel
  change x.toModel.unpack.isFinite = true at hx
  rw [parts_eq]
  cases hu : x.toModel.unpack with
  | notANumber | infinity s =>
    rw [hu] at hx
    cases hx
  | zero s =>
    have hzero : ∀ e, s.apply (units 0 e) = 0 := by
      intro e
      cases s <;> simp [units, Sign.apply]
    exact ⟨s, 0, -1074, rfl, le_rfl, (hzero _).symm⟩
  | finite s m e hm =>
    rw [hu] at hstored
    exact ⟨s, m, e, rfl, hstored.1.least, rfl⟩

/-- A mantissa and its exponent are the quotient of the measure and that of one. -/
theorem scale_units {m : Nat} {e : Int} (h : -1074 ≤ e) :
    0 < (Decimal.scale 2 e m 1).2 ∧
      (Decimal.scale 2 e m 1).1 * units 1 0 = units m e * (Decimal.scale 2 e m 1).2 := by
  have hpow : ∀ k, Nat.pow 2 k = 2 ^ k := fun _ => rfl
  cases e with
  | ofNat k =>
    have hexponent : (Int.ofNat k + 1074).toNat = k + (0 + 1074 : Int).toNat := by
      rw [Int.ofNat_eq_natCast]
      omega
    refine ⟨Nat.one_pos, ?_⟩
    rw [Decimal.scale, units, units, hpow, hexponent, Nat.pow_add]
    ring
  | negSucc k =>
    have hexponent : (Int.negSucc k + 1074).toNat + (k + 1) = (0 + 1074 : Int).toNat := by omega
    refine ⟨Nat.mul_pos Nat.one_pos (Nat.two_pow_pos _), ?_⟩
    rw [Decimal.scale, units, units, hpow, ← hexponent, Nat.pow_add]
    ring

private theorem div_up {n d : Nat} (hd : 0 < d) : -(((n + d - 1) / d : Nat) : Int) = -(n : Int) / d := by
  have hd' : (0 : Int) < d := Int.natCast_pos.mpr hd
  have hmod := Nat.mod_add_div (n + d - 1) d
  have hlt := Nat.mod_lt (n + d - 1) hd
  symm
  apply ((Int.ediv_emod_unique hd' (r := (d : Int) - 1 - ((n + d - 1) % d : Nat))).mpr _).1
  refine ⟨?_, by omega, by omega⟩
  rw [Int.mul_neg, ← Int.natCast_mul]
  omega

/-- The integer below a number, taken of its mantissa and its exponent. -/
theorem floor_scaled (s : Sign) {m : Nat} {e : Int} (h : -1074 ≤ e) :
    (if (s == .negative) = true then
        -((((Decimal.scale 2 e m 1).1 + (Decimal.scale 2 e m 1).2 - 1) / (Decimal.scale 2 e m 1).2 : Nat) : Int)
      else (((Decimal.scale 2 e m 1).1 / (Decimal.scale 2 e m 1).2 : Nat) : Int)) =
      s.apply (units m e) / units 1 0 := by
  obtain ⟨hpos, hscale⟩ := scale_units (m := m) h
  have hunit : 0 < units 1 0 := units_pos Nat.one_pos _
  generalize Decimal.scale 2 e m 1 = scaled at *
  generalize units 1 0 = unit at *
  obtain ⟨n, d⟩ := scaled
  dsimp only at *
  have hquotient : ∀ sign : Int, sign * n / d = sign * units m e / unit := by
    intro sign
    have hscale' : (n * unit : ℚ) = units m e * d := by exact_mod_cast hscale
    rw [← Rat.floor_intCast_div_natCast, ← Rat.floor_intCast_div_natCast]
    congr 1
    rw [div_eq_div_iff (by exact_mod_cast hpos.ne') (by exact_mod_cast hunit.ne')]
    push_cast
    linear_combination (sign : ℚ) * hscale'
  cases s with
  | positive =>
    have hone := hquotient 1
    rw [Int.one_mul, Int.one_mul] at hone
    exact (Int.natCast_ediv n d).trans hone
  | negative =>
    have hminus := hquotient (-1)
    rw [Int.neg_one_mul, Int.neg_one_mul] at hminus
    exact (div_up hpos).trans hminus

private theorem floor_eq {x : Float} (hx : x.isFinite = true) : floor x = ⌊worth x⌋ := by
  obtain ⟨s, m, e, hparts, hleast, hmeasure⟩ := parts_finite hx
  rw [worth, Rat.floor_intCast_div_natCast, floor, hparts, hmeasure]
  exact floor_scaled s hleast

instance : Valued Float where
  value := worth
  lt_iff := finite_lt_iff
  floor_eq := floor_eq
  isFinite_neg := by
    intro x hx
    change (-x).toModel.unpack.isFinite = true
    change x.toModel.unpack.isFinite = true at hx
    rw [unpack_neg]
    cases hu : x.toModel.unpack <;> rw [hu] at hx <;> exact hx
  value_neg := by
    intro x _
    change worth (-x) = -worth x
    rw [worth, worth, unpack_neg, measure_neg, Int.cast_neg, neg_div]

end SpriteStage.Binary64
