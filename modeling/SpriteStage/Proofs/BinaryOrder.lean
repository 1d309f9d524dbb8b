import Mathlib
import SpriteStage.Scalar.Binary64
/-!
# The order of binary64 numbers

Every finite number is a multiple of the smallest positive one, so a number is measured by an
integer. Because the exponent of a number is as small as its mantissa allows, this is the order of
the measures.
-/
namespace SpriteStage.Binary64

open Float.Model (UnpackedFloat Format)
open Float.Model.UnpackedFloat

/-- The measure of a mantissa at an exponent, in multiples of the smallest positive number. -/
def units (m : Nat) (e : Int) : Nat := m * 2 ^ (e + 1074).toNat

/-- The measure from which on numbers are infinite. -/
def limit : Nat := units (2 ^ 52) 972

/-- The signed measure of a number. -/
def measure : UnpackedFloat → Int
  | .infinity s => s.apply limit
  | .notANumber => 0
  | .zero _ => 0
  | .finite s m e _ => s.apply (units m e)

attribute [grind =] measure Sign.apply

/-- A mantissa of at most 53 bits, and of less only if the exponent is the least one. -/
structure Canonical (m : Nat) (e : Int) : Prop where
  least : -1074 ≤ e
  short : m < 2 ^ 53
  full : e = -1074 ∨ 2 ^ 52 ≤ m

/-- The finite numbers are canonical, and their exponents fit into the format. -/
def Stored : UnpackedFloat → Prop
  | .finite _ m e _ => Canonical m e ∧ e ≤ 971
  | _ => True

theorem units_pos {m : Nat} (h : 0 < m) (e : Int) : 0 < units m e :=
  Nat.mul_pos h (Nat.two_pow_pos _)

namespace Canonical

variable {m n : Nat} {e f : Int}

theorem units_lt (h : Canonical m e) (h' : Canonical n f) (hlt : e < f) : units m e < units n f := by
  have hfull : 2 ^ 52 ≤ n := by
    rcases h'.full with heq | hfull
    · have hleast := h.least
      omega
    · exact hfull
  have hexponent : (e + 1074).toNat + 1 ≤ (f + 1074).toNat := by
    have hleast := h.least
    omega
  calc units m e < 2 ^ 53 * 2 ^ (e + 1074).toNat := Nat.mul_lt_mul_of_pos_right h.short (Nat.two_pow_pos _)
    _ = 2 ^ 52 * 2 ^ ((e + 1074).toNat + 1) := by ring
    _ ≤ n * 2 ^ (f + 1074).toNat :=
      Nat.mul_le_mul hfull (Nat.pow_le_pow_right (by decide) hexponent)

private theorem compare_units (h : Canonical m e) (h' : Canonical n f) :
    (compare e f).then (compare m n) = compare (units m e) (units n f) := by
  rcases lt_trichotomy e f with hlt | rfl | hgt
  · rw [compare_lt_iff_lt.mpr hlt, compare_lt_iff_lt.mpr (h.units_lt h' hlt)]
    rfl
  · have hpos : 0 < 2 ^ (e + 1074).toNat := Nat.two_pow_pos _
    have hunits : ∀ {m n}, m < n → units m e < units n e :=
      fun hlt => Nat.mul_lt_mul_of_pos_right hlt hpos
    rw [compare_eq_iff_eq.mpr rfl, Ordering.eq_then]
    rcases lt_trichotomy m n with hlt | rfl | hgt
    · rw [compare_lt_iff_lt.mpr hlt, compare_lt_iff_lt.mpr (hunits hlt)]
    · rw [compare_eq_iff_eq.mpr rfl, compare_eq_iff_eq.mpr rfl]
    · rw [compare_gt_iff_gt.mpr hgt, compare_gt_iff_gt.mpr (hunits hgt)]
  · rw [compare_gt_iff_gt.mpr hgt, compare_gt_iff_gt.mpr (h'.units_lt h hgt)]
    rfl

theorem units_lt_limit (h : Canonical m e) (he : e ≤ 971) : units m e < limit :=
  h.units_lt ⟨by decide, by decide, .inr (Nat.le_refl _)⟩ (by omega)

end Canonical

private theorem compare_apply (s : Sign) (a b : Nat) :
    compare (s.apply a) (s.apply b) =
      match s with
      | .positive => compare a b
      | .negative => (compare a b).swap := by
  cases s with
  | positive =>
    rcases lt_trichotomy a b with hlt | rfl | hgt
    · rw [compare_lt_iff_lt.mpr hlt, compare_lt_iff_lt]
      exact Int.ofNat_lt.mpr hlt
    · rw [compare_eq_iff_eq.mpr rfl, compare_eq_iff_eq.mpr rfl]
    · rw [compare_gt_iff_gt.mpr hgt, compare_gt_iff_gt]
      exact Int.ofNat_lt.mpr hgt
  | negative =>
    rcases lt_trichotomy a b with hlt | rfl | hgt
    · rw [compare_lt_iff_lt.mpr hlt, Ordering.swap_lt, compare_gt_iff_gt]
      exact Int.neg_lt_neg (Int.ofNat_lt.mpr hlt)
    · rw [compare_eq_iff_eq.mpr rfl, compare_eq_iff_eq.mpr rfl]
      rfl
    · rw [compare_gt_iff_gt.mpr hgt, Ordering.swap_gt, compare_lt_iff_lt]
      exact Int.neg_lt_neg (Int.ofNat_lt.mpr hgt)

/-- Comparing numbers is comparing their measures. -/
theorem compare_measure {x y : UnpackedFloat} (hx : Stored x) (hy : Stored y)
    (hx' : x ≠ .notANumber) (hy' : y ≠ .notANumber) :
    x.compare y = some (compare (measure x) (measure y)) := by
  have hlimit : 0 < limit := units_pos (by decide) _
  have below : ∀ {a b : Int}, a < b → some Ordering.lt = some (compare a b) :=
    fun h => congrArg some (compare_lt_iff_lt.mpr h).symm
  have above : ∀ {a b : Int}, b < a → some Ordering.gt = some (compare a b) :=
    fun h => congrArg some (compare_gt_iff_gt.mpr h).symm
  have same : ∀ {a : Int}, some Ordering.eq = some (compare a a) :=
    congrArg some (compare_eq_iff_eq.mpr rfl).symm
  cases x with
  | notANumber => exact absurd rfl hx'
  | infinity s =>
    cases y with
    | notANumber => exact absurd rfl hy'
    | infinity t =>
      cases s <;> cases t <;> first | exact same | exact below (by grind) | exact above (by grind)
    | zero t =>
      cases s <;> first | exact below (by grind) | exact above (by grind)
    | finite t n f hn =>
      have hlt := hy.1.units_lt_limit hy.2
      cases s <;> cases t <;> first | exact below (by grind) | exact above (by grind)
  | zero s =>
    cases y with
    | notANumber => exact absurd rfl hy'
    | infinity t => cases t <;> first | exact below (by grind) | exact above (by grind)
    | zero t => exact same
    | finite t n f hn =>
      have hpos := units_pos hn f
      cases t <;> first | exact below (by grind) | exact above (by grind)
  | finite s m e hm =>
    have hpos := units_pos hm e
    cases y with
    | notANumber => exact absurd rfl hy'
    | infinity t =>
      have hlt := hx.1.units_lt_limit hx.2
      cases s <;> cases t <;> first | exact below (by grind) | exact above (by grind)
    | zero t => cases s <;> first | exact below (by grind) | exact above (by grind)
    | finite t n f hn =>
      have hpos' := units_pos hn f
      have hunits := hx.1.compare_units hy.1
      cases s <;> cases t
      · simp only [measure, compare_apply, UnpackedFloat.compare, hunits]
      · exact below (by grind)
      · exact above (by grind)
      · simp only [measure, compare_apply, UnpackedFloat.compare, hunits]

/-! ## Bits -/

private theorem toNat_implicit (v : BitVec 52) : (1#1 ++ v).toNat = 2 ^ 52 + v.toNat := by
  rw [BitVec.toNat_append, ← Nat.shiftLeft_add_eq_or_of_lt v.isLt]
  simp [Nat.shiftLeft_eq]

private theorem unpackSign_packComponents {f : Format} (s : Sign) (e : BitVec f.exponentBits)
    (m : BitVec f.mantissaBitsWithoutImplicit) :
    Sign.ofBitVec (unpackSign (packComponents f s e m)) = s := by
  have hsign : unpackSign (packComponents f s e m) = s.toBitVec := by
    ext i hi
    have hzero : i = 0 := by omega
    subst hzero
    simp [unpackSign, packComponents, BitVec.getLsbD_append, BitVec.getElem_append]
  rw [hsign]
  cases s <;> rfl

private theorem packComponents_unpack {f : Format} (b : BitVec f.numBits) :
    packComponents f (Sign.ofBitVec (unpackSign b)) (unpackExponent b) (unpackMantissa b) = b := by
  have hsign : (Sign.ofBitVec (unpackSign b)).toBitVec = unpackSign b := by
    generalize unpackSign b = v
    revert v
    decide
  rw [packComponents, hsign]
  ext i hi
  have hbit : ∀ j, j = i → b.getLsbD j = b[i] := by
    rintro j rfl
    exact BitVec.getLsbD_eq_getElem hi
  simp only [unpackSign, unpackExponent, unpackMantissa, BitVec.getElem_append, BitVec.getElem_cast,
    BitVec.extractLsb, BitVec.getElem_extractLsb']
  split
  · exact hbit _ (by omega)
  · split
    · exact hbit _ (by omega)
    · exact hbit _ (by omega)

private theorem biased_exponent (e : Int) :
    (e + Format.binary64.exponentBias + (52 : Nat)).toNat = (e + 1075).toNat := by
  have hbias : (Format.binary64.exponentBias : Int) = 1023 := rfl
  rw [hbias]
  omega

private theorem Canonical.log2 {m : Nat} {e : Int} (h : Canonical m e) (hm : 0 < m) :
    m.log2 + 1 = Format.binary64.mantissaBits ↔ 2 ^ 52 ≤ m := by
  have hbits : Format.binary64.mantissaBits = 53 := rfl
  have hlt : m.log2 < 53 := (Nat.log2_lt (by omega)).mpr h.short
  rw [hbits, ← Nat.le_log2 (by omega)]
  omega

/-- What is kept of a canonical number in 64 bits. -/
def clip : UnpackedFloat → UnpackedFloat
  | .finite s m e h => if e ≤ 971 then .finite s m e h else .infinity s
  | x => x

/-- The number with the given sign, exponent bits and mantissa bits. -/
def decode (s : Sign) (e : BitVec 11) (m : BitVec 52) : UnpackedFloat :=
  if e = -1#11 then if m = 0#52 then .infinity s else .notANumber
  else if e = 0#11 then
    if h : m = 0#52 then .zero s
    else .finite s m.toNat (-1074) (by simpa [BitVec.toNat_pos, BitVec.pos_iff_ne_zero] using h)
  else .finite s (2 ^ 52 + m.toNat) (e.toNat - 1075) (by omega)

theorem unpack_eq_decode (b : BitVec Format.binary64.numBits) :
    unpack .binary64 b = decode (Sign.ofBitVec (unpackSign b)) (unpackExponent b) (unpackMantissa b) := by
  have hbias : (Format.binary64.exponentBias : Int) = 1023 := rfl
  unfold unpack decode
  dsimp only
  split
  · rfl
  · split
    · rename_i hzero
      split
      · rfl
      · congr 1
        rw [hzero, hbias]
        rfl
    · congr 1
      exact toNat_implicit _

theorem unpack_packComponents (s : Sign) (e : BitVec 11) (m : BitVec 52) :
    unpack .binary64 (packComponents .binary64 s e m) = decode s e m := by
  rw [unpack_eq_decode, unpackSign_packComponents, unpackExponent_packComponents,
    unpackMantissa_packComponents]

private theorem stored_decode (s : Sign) (e : BitVec 11) (m : BitVec 52) : Stored (decode s e m) := by
  have hm := m.isLt
  have he := e.isLt
  unfold decode
  split
  · split <;> trivial
  · rename_i hinfinite
    split
    · split
      · trivial
      · exact ⟨⟨by decide, by omega, .inl rfl⟩, by decide⟩
    · rename_i hzero
      have hpos : e.toNat ≠ 0 := fun h => hzero (BitVec.eq_of_toNat_eq h)
      have hmax : e.toNat ≠ 2047 := fun h => hinfinite (BitVec.eq_of_toNat_eq h)
      exact ⟨⟨by omega, by omega, .inr (by omega)⟩, by omega⟩

/-- Packing keeps a canonical number, unless its exponent is too large. -/
theorem unpack_pack {x : UnpackedFloat}
    (h : ∀ s m e hm, x = .finite s m e hm → Canonical m e) :
    unpack .binary64 (pack .binary64 x) = clip x := by
  cases x with
  | notANumber => exact unpack_packComponents _ _ _
  | infinity s => exact unpack_packComponents _ _ _
  | zero s => exact unpack_packComponents _ _ _
  | finite s m e hm =>
    have hcanonical := h s m e hm rfl
    have hleast := hcanonical.least
    have hshort := hcanonical.short
    simp only [pack, biased_exponent, hcanonical.log2 hm]
    by_cases hlarge : e ≤ 971
    · rw [clip, if_pos hlarge, if_neg (by omega)]
      split
      · rename_i hnormal
        have hexponent : (BitVec.ofNat 11 (e + 1075).toNat).toNat = (e + 1075).toNat := by
          rw [BitVec.toNat_ofNat]
          omega
        have hmantissa : 2 ^ 52 + (BitVec.ofNat 52 m).toNat = m := by
          rw [BitVec.toNat_ofNat]
          omega
        have hfinite : BitVec.ofNat 11 (e + 1075).toNat ≠ -1#11 := by
          intro heq
          rw [heq] at hexponent
          have hones : (-1#11).toNat = 2047 := rfl
          omega
        have hpos : BitVec.ofNat 11 (e + 1075).toNat ≠ 0#11 := by
          intro heq
          rw [heq] at hexponent
          have hzero : (0#11).toNat = 0 := rfl
          omega
        rw [unpack_packComponents, decode, if_neg hfinite, if_neg hpos]
        simp only [hmantissa, hexponent]
        congr 1
        omega
      · rename_i hnormal
        have hmantissa : (BitVec.ofNat 52 m).toNat = m := by
          rw [BitVec.toNat_ofNat]
          omega
        have hpos : BitVec.ofNat 52 m ≠ 0#52 := by
          intro heq
          rw [heq] at hmantissa
          have hzero : (0#52).toNat = 0 := rfl
          omega
        have hexponent : e = -1074 := hcanonical.full.resolve_right hnormal
        rw [unpack_packComponents, decode, if_neg (by decide), if_pos rfl, dif_neg hpos]
        simp only [hmantissa, hexponent]
    · rw [clip, if_neg hlarge, if_pos (by omega)]
      exact unpack_packComponents _ _ _

private theorem pack_decode {s : Sign} {e : BitVec 11} {m : BitVec 52} (h : decode s e m ≠ .notANumber) :
    pack .binary64 (decode s e m) = packComponents .binary64 s e m := by
  have hm := m.isLt
  have he := e.isLt
  have hstored := stored_decode s e m
  unfold decode at h hstored ⊢
  split
  · rename_i hones
    split
    · rename_i hnothing
      rw [hones, hnothing]
      rfl
    · rename_i hpayload
      simp [hones, hpayload] at h
  · rename_i hfinite
    split
    · rename_i hzero
      split
      · rename_i hnothing
        rw [hzero, hnothing]
        rfl
      · rename_i hsome
        rw [if_neg hfinite, if_pos hzero, dif_neg hsome] at hstored
        have hpos : 0 < m.toNat := Nat.pos_of_ne_zero fun heq => hsome (BitVec.eq_of_toNat_eq heq)
        simp only [pack, biased_exponent, hstored.1.log2 hpos]
        rw [if_neg (by decide), if_neg (by omega), BitVec.ofNat_toNat, BitVec.setWidth_eq, hzero]
    · rename_i hzero
      rw [if_neg hfinite, if_neg hzero] at hstored
      have hmax : e.toNat ≠ 2047 := fun heq => hfinite (BitVec.eq_of_toNat_eq heq)
      have hexponent : ((e.toNat : Int) - 1075 + 1075).toNat = e.toNat := by omega
      have hmantissa : BitVec.ofNat 52 (2 ^ 52 + m.toNat) = m := by
        apply BitVec.eq_of_toNat_eq
        rw [BitVec.toNat_ofNat]
        omega
      simp only [pack, biased_exponent, hexponent, hstored.1.log2 (by omega)]
      rw [if_neg (by omega), if_pos (by omega), BitVec.ofNat_toNat, BitVec.setWidth_eq, hmantissa]

theorem stored_unpack (x : Float.Model) : Stored x.unpack := by
  rw [Float.Model.unpack, unpack_eq_decode]
  exact stored_decode _ _ _

/-- A number is known by what it is unpacked to. -/
theorem unpack_injective {x y : Float.Model} (hx : x.unpack ≠ .notANumber) (h : x.unpack = y.unpack) :
    x = y := by
  have hpacked : ∀ z : Float.Model, z.unpack ≠ .notANumber →
      pack .binary64 z.unpack = z.toBits.toBitVec := by
    intro z hz
    rw [Float.Model.unpack, unpack_eq_decode] at hz ⊢
    rw [pack_decode hz, packComponents_unpack]
  have hbits : x.toBits = y.toBits := by
    apply UInt64.eq_of_toBitVec_eq
    rw [← hpacked x hx, h, hpacked y (h ▸ hx)]
  cases x
  cases y
  cases hbits
  rfl

end SpriteStage.Binary64
