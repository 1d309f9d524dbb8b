import SpriteStage.Proofs.Frames
import SpriteStage.Proofs.Resolution
import SpriteStage.Proofs.Tracks
/-!
# What blocks cost

A block costs the time from its start until it is through. A motion costs whole frames: as many
intervals as it takes to reach its duration, the last one counted in full. How long a motion takes
is up to where its actor is and how large, so the cost of a block is one for an actor as it is
when the block starts.
-/
namespace SpriteStage

open Exact

/-- Exact numbers whose opposites, written constants and integer parts are exact as well. -/
class Exacting (α : Type) [Scalar α] [Exact α] : Prop where
  neg : ∀ x : α, value (-x) = -value x
  decimal : ∀ mantissa places, value (Scalar.decimal mantissa places : α) = mantissa / 10 ^ places
  floor : ∀ x : α, Scalar.floor x = ⌊value x⌋

instance : Exacting ℚ where
  neg _ := rfl
  decimal mantissa places := by
    rw [Rational.value_eq]
    cases places with
    | zero => simp [Scalar.decimal, Scalar.ofDecimal, Rational.tenTo]
    | succ places =>
      have hneg : -((places + 1 : Nat) : Int) < 0 := by omega
      simp only [Scalar.decimal, Scalar.ofDecimal, Rational.tenTo, hneg, if_true, Bool.false_eq_true, if_false,
        Int.natAbs_neg, Int.natAbs_natCast]
      push_cast
      ring
  floor _ := rfl

variable {α : Type} [Scalar α] [Exact α]

def Number.amount : Number α → ℚ
  | .int n => n
  | .real x => Exact.value x

private theorem Exact.value_toScalar {n : Number α} {x : α} (h : n.toScalar = .ok x) : value x = n.amount := by
  cases n with
  | real y =>
    cases h
    rfl
  | int n =>
    obtain ⟨y, hy, hvalue⟩ := ratio (α := α) n 1
    simp only [Number.toScalar, Scalar.ofInt?, hy, Except.ok.injEq] at h
    subst h
    simpa [Number.amount] using hvalue

private theorem Number.amount_greatest_zero [Exacting α] (n : Number α) : 0 ≤ (greatest n (.int 0)).amount := by
  unfold greatest
  split
  · simp [amount]
  · rename_i hlt
    cases n with
    | int n => simpa [lt, amount] using hlt
    | real x =>
      rw [amount]
      simp only [lt] at hlt
      split at hlt
      · simpa [Exacting.floor, Int.floor_lt] using hlt
      · simpa using Exact.not_lt_iff.mp (Bool.eq_false_iff.mpr hlt)

/-! ## The cost of an instruction -/

namespace Settings

/-- The speed that counts, which lies between a tenth and five. -/
def pace (s : Settings α) : ℚ := max (1 / 10) (min 5 (value s.speed))

/-- How long some seconds last at the speed of the stage. Less than no seconds are none. -/
def lasting (s : Settings α) (seconds : ℚ) : ℚ := max 0 seconds / s.pace

/-- How long a motion of some duration is shown: whole intervals until the duration is reached, and no time at all if
it has no duration. -/
def shown (s : Settings α) (duration : ℚ) : ℚ :=
  Film.frameCount duration (value s.frameInterval) * value s.frameInterval

private theorem value_scaled [Exacting α] (s : Settings α) (seconds : α) :
    value (s.scaled seconds) = s.lasting (value seconds) := by
  have hwhole : value (Scalar.whole 5 : α) = 5 := whole 5
  have htenth : value (Scalar.decimal 1 1 : α) = 1 / 10 := by simp [Exacting.decimal]
  rw [scaled, div, value_greatest, value_zero, clampSpeed, value_clamp, hwhole, htenth, lasting, pace]

private theorem lasting_nonneg (s : Settings α) (seconds : ℚ) : 0 ≤ s.lasting seconds :=
  div_nonneg (le_max_left _ _) (le_max_of_le_left (by norm_num))

private theorem shown_of_nonpos (s : Settings α) {duration : ℚ} (hinterval : 0 < value s.frameInterval)
    (h : duration ≤ 0) : s.shown duration = 0 := by
  have hnone : Film.frameCount duration (value s.frameInterval) = 0 :=
    Nat.ceil_eq_zero.mpr (div_nonpos_of_nonpos_of_nonneg h hinterval.le)
  rw [shown, hnone, Nat.cast_zero, zero_mul]

end Settings

private theorem Exact.value_abs [Exacting α] (x : α) : value (Scalar.abs x) = |value x| := by
  unfold Scalar.abs
  split
  · rename_i hlt
    rw [lt_iff, value_zero] at hlt
    rw [Exacting.neg, abs_of_neg hlt]
  · rename_i hlt
    have hnot := not_lt_iff.mp (Bool.eq_false_iff.mpr hlt)
    rw [value_zero] at hnot
    rw [abs_of_nonneg hnot]

namespace Instruction

/-- The cost of an instruction for an actor on a stage. The distance to a point is that to where the actor comes to
stand, and the size changes within its bounds. -/
def cost (s : Settings α) (a : Actor α) (i : Instruction α) : ℚ :=
  match i with
  | .wait seconds | .say _ seconds => s.lasting seconds.amount
  | .move steps => s.shown (s.lasting (|steps.amount| * (5 / 100)))
  | .turn degrees => s.shown (s.lasting (|degrees.amount| * (1 / 100)))
  | .goto _ _ =>
    match i.aim? a with
    | some aim =>
      let target := s.confine aim
      let distance := value (Scalar.hypot (target.x - a.position.x) (target.y - a.position.y))
      s.shown (s.lasting (distance * (5 / 1000)))
    | none => 0
  | .resize change =>
    match a.extent with
    | .ok size =>
      let target := max 20 (min 100 (size.amount + change.amount))
      s.shown (s.lasting (|target - size.amount| * (1 / 100)))
    | .error _ => 0
  | .recolour _ | .loop _ => 0

theorem cost_lasting (s : Settings α) (a : Actor α) (i : Instruction α) : i.cost s a.lasting = i.cost s a := by
  cases i <;> rfl

private theorem cost_of_plan [Exacting α] {s : Settings α} {a : Actor α} {i : Instruction α} {m : Motion α}
    {seconds : α} (h : Motion.plan? s.confine a i = some (.ok (m, seconds))) :
    i.cost s a = s.shown (value (s.scaled seconds)) := by
  rw [Settings.value_scaled]
  cases i with
  | move steps =>
    obtain ⟨x, hx⟩ := toScalar_isOk steps
    simp only [Motion.plan?, hx] at h
    cases h
    rw [cost, mul, value_abs, value_toScalar hx, secondsPerStep, Exacting.decimal]
    norm_num
  | turn degrees =>
    obtain ⟨x, hx⟩ := toScalar_isOk degrees
    simp only [Motion.plan?, hx] at h
    cases h
    rw [cost, mul, value_abs, value_toScalar hx, secondsPerDegree, Exacting.decimal]
    norm_num
  | goto x y =>
    obtain ⟨u, hu⟩ := toScalar_isOk x
    obtain ⟨v, hv⟩ := toScalar_isOk y
    simp only [Motion.plan?, hu, hv] at h
    cases h
    have haim : (goto x y).aim? a = some ⟨u, v⟩ := by simp [aim?, hu, hv, Except.toOption]
    simp only [cost, haim, mul, secondsPerUnit, Exacting.decimal]
    norm_num
  | resize change =>
    obtain ⟨x, hx⟩ := toScalar_isOk change
    cases hextent : a.extent with
    | error cause =>
      simp only [Motion.plan?, hx, hextent] at h
      cases h
    | ok size =>
      obtain ⟨y, hy⟩ := toScalar_isOk size
      simp only [Motion.plan?, hx, hextent, hy, bind, Except.bind, pure, Except.pure] at h
      cases h
      have hlow : value (Scalar.whole 20 : α) = 20 := whole 20
      have hhigh : value (Scalar.whole 100 : α) = 100 := whole 100
      simp only [cost, hextent, mul, value_abs, sub, value_clamp, add, hlow, hhigh, value_toScalar hx,
        value_toScalar hy, secondsPerSize, Exacting.decimal]
      norm_num
  | wait _ | say _ _ | recolour _ | loop _ => cases h

end Instruction

/-! ## Seconds that are asked for -/

namespace Instruction

def seconds? : Instruction α → Option (Number α)
  | .wait seconds | .say _ seconds => some seconds
  | _ => none

theorem cost_of_seconds {s : Settings α} {a : Actor α} {i : Instruction α} {seconds : Number α}
    (h : i.seconds? = some seconds) : i.cost s a = s.lasting seconds.amount := by
  cases i <;> cases h <;> rfl

omit [Exact α] in
theorem ofInputs?_seconds {typeId : String} {inputs : Fields α} {i : Instruction α} {seconds : Number α}
    (h : ofInputs? typeId inputs = some i) (hseconds : i.seconds? = some seconds) :
    typeId = "wait" ∧ number? inputs "seconds" = some seconds ∨
      (typeId = "say" ∨ typeId = "think") ∧ number? inputs "duration" = some seconds := by
  cases i with
  | wait n =>
    cases hseconds
    unfold ofInputs? at h
    split at h
    case h_4 => exact .inl ⟨rfl, by simpa using h⟩
    all_goals simp [Option.bind_eq_some_iff] at h
  | say text n =>
    cases hseconds
    unfold ofInputs? at h
    split at h
    case h_5 =>
      simp only [Option.bind_eq_bind, Option.bind_eq_some_iff, Option.pure_def, Option.some.injEq, say.injEq] at h
      obtain ⟨-, -, n, hn, -, rfl⟩ := h
      exact .inr ⟨.inl rfl, hn⟩
    case h_6 =>
      simp only [Option.bind_eq_bind, Option.bind_eq_some_iff, Option.pure_def, Option.some.injEq, say.injEq] at h
      obtain ⟨-, -, n, hn, -, rfl⟩ := h
      exact .inr ⟨.inr rfl, hn⟩
    all_goals simp [Option.bind_eq_some_iff] at h
  | move _ | turn _ | goto _ _ | resize _ | recolour _ | loop _ => cases hseconds

end Instruction

private theorem BlockType.Regular.natural_amount [Exacting α] {t : BlockType α} {raw inputs : Fields α}
    (h : t.Regular)
    (hresolve : (t.resolve raw).2 = .ok inputs) {name : String} {fallback : Int}
    (hs : Catalog.natural name fallback ∈ t.inputs) {n : Number α}
    (hn : Instruction.number? inputs name = some n) : 0 ≤ n.amount := by
  have hget := resolveInto_get? h.names hresolve hs (InputSpec.resolve_natural name fallback _)
  have hgreatest := Number.amount_greatest_zero
    (((Catalog.natural name fallback).given raw).inputNumber?.getD (.int fallback))
  generalize Number.greatest (α := α) _ _ = m at hget hgreatest
  rw [Instruction.number?, show inputs.get? name = _ from hget] at hn
  cases m <;> cases hn <;> exact hgreatest

/-- No block of a type of every stage asks for less than no seconds. -/
theorem Catalog.builtIn_seconds [Exacting α] {typeId : String} {raw inputs : Fields α} {i : Instruction α}
    {seconds : Number α} (hreading : (builtIn : Catalog α).reading typeId raw = some (.ok inputs))
    (hi : Instruction.ofInputs? typeId inputs = some i) (hseconds : i.seconds? = some seconds) :
    0 ≤ seconds.amount := by
  unfold reading at hreading
  split at hreading
  · obtain ⟨t, ht, hresolve⟩ := Option.map_eq_some_iff.mp hreading
    have hregular := BlockType.builtIn_regular (List.mem_of_find?_eq_some ht)
    rcases Instruction.ofInputs?_seconds hi hseconds with ⟨rfl, hn⟩ | ⟨rfl | rfl, hn⟩
    · cases ht
      exact hregular.natural_amount hresolve (List.mem_cons_self : natural "seconds" 1 ∈ _) hn
    · cases ht
      exact hregular.natural_amount hresolve (by simp : natural "duration" 2 ∈ _) hn
    · cases ht
      exact hregular.natural_amount hresolve (by simp : natural "duration" 2 ∈ _) hn
  · cases hreading

/-! ## When a block is through -/

/-- A block whose sleep ends at some time will be through at another. After the `k`-th interval a motion is shown for
those that are left. -/
def Pause.Ends (interval wake till : ℚ) : Pause α → Prop
  | .rest | .bubble => wake = till
  | .frame _ span => 0 < value span.duration ∧ ∃ k left : Nat,
      k + left = Film.frameCount (value span.duration) interval ∧ wake = value span.start + k * interval ∧
        till = wake + left * interval

/-- A block that is through at some time, or will be after its sleep, unless it has failed. -/
def Leaf.Ends (interval : ℚ) (now : α) (till : ℚ) : Leaf α → Prop
  | .finished _ _ => value now = till
  | .sleeping _ _ seconds pause => pause.Ends interval (value (wakeTime now seconds)) till
  | .failed _ _ => True

theorem Exact.value_wakeTime (now seconds : α) :
    value (wakeTime now seconds) = value now + max 0 (value seconds) := by
  rw [wakeTime, add, value_greatest, value_zero]

namespace Leaf

variable {w : World α} {actor : Int} {a : Actor α} {now : α} {till : ℚ}

private theorem ofWrite_ends (w : World α) (written : Except Error (World α × List (Signal α))) (interval : ℚ)
    (hnow : value now = till) : (ofWrite w written).Ends interval now till := by
  cases written with
  | error cause => trivial
  | ok done => exact hnow

private theorem ofMotion_ends (hinterval : 0 < value w.settings.frameInterval) (room : Nat) (now : α) (actor : Int)
    (m : Motion α) (seconds : α) :
    (ofMotion w room now actor m seconds).Ends (value w.settings.frameInterval) now
      (value now + w.settings.shown (value seconds)) := by
  unfold ofMotion
  cases hlasts : Scalar.le seconds Scalar.zero with
  | true =>
    rw [le_iff, value_zero] at hlasts
    simp only [if_true]
    apply ofWrite_ends
    rw [w.settings.shown_of_nonpos hinterval hlasts, add_zero]
  | false =>
    rw [not_le_iff, value_zero] at hlasts
    simp only [Bool.false_eq_true, if_false]
    split
    · trivial
    · have hcount := Film.frameCount_pos hlasts hinterval
      refine ⟨hlasts, 1, Film.frameCount (value seconds) (value w.settings.frameInterval) - 1,
        Nat.add_sub_cancel' hcount, ?_, ?_⟩
      · rw [value_wakeTime, max_eq_right hinterval.le, Nat.cast_one, one_mul]
      · rw [value_wakeTime, max_eq_right hinterval.le, Settings.shown, Nat.cast_pred hcount]
        ring

/-- A block is through after its cost. -/
theorem begin_ends [Exacting α] (hinterval : 0 < value w.settings.frameInterval) (ha : w.store.get? actor = some a)
    (room : Nat) (now : α) {i : Instruction α} (noLoop : ∀ times, i ≠ .loop times) :
    (begin w room now actor i).Ends (value w.settings.frameInterval) now (value now + i.cost w.settings a) := by
  have hsleep : ∀ {seconds : Number α} {x : α}, seconds.toScalar = .ok x →
      value (wakeTime now (w.settings.scaled x)) = value now + w.settings.lasting seconds.amount := by
    intro seconds x hx
    rw [value_wakeTime, Settings.value_scaled, value_toScalar hx, max_eq_right (w.settings.lasting_nonneg _)]
  have hstart : ∀ leaf, start w room now a i = .ok leaf →
      leaf.Ends (value w.settings.frameInterval) now (value now + i.cost w.settings a) := by
    intro leaf h
    cases hplan : Motion.plan? w.settings.confine a i with
    | some plan =>
      rw [start_plan hplan] at h
      cases plan with
      | error cause => cases h
      | ok p =>
        cases h
        rw [Instruction.cost_of_plan hplan]
        exact ofMotion_ends hinterval room now a.id p.1 _
    | none =>
      cases i with
      | wait seconds =>
        obtain ⟨-, -, h⟩ := bind_eq_ok h
        obtain ⟨x, hx, h⟩ := bind_eq_ok h
        cases h
        exact hsleep hx
      | say message seconds =>
        obtain ⟨x, hx, h⟩ := bind_eq_ok h
        obtain ⟨-, -, h⟩ := bind_eq_ok h
        obtain ⟨⟨w', out⟩, hshown, h⟩ := bind_eq_ok h
        cases h
        rw [(World.frame_write hshown).settings]
        exact hsleep hx
      | recolour index =>
        obtain ⟨-, -, h⟩ := bind_eq_ok h
        cases h
        exact ofWrite_ends _ _ _ (add_zero _).symm
      | loop times => exact absurd rfl (noLoop times)
      | move _ | turn _ | goto _ _ | resize _ => cases hplan
  unfold begin
  dsimp only
  split
  · rename_i leaf hleaf
    split at hleaf
    · exact hstart leaf hleaf
    · obtain ⟨a', ha', h⟩ := bind_eq_ok hleaf
      cases ha.symm.trans (Store.get_eq_ok.mp ha')
      exact hstart leaf h
  · trivial

/-- A block that goes on at the very end of its sleep is through no sooner and no later than before. -/
theorem wake_ends (hinterval : 0 < value w.settings.frameInterval) (room : Nat) (actor : Int) {pause : Pause α}
    (h : pause.Ends (value w.settings.frameInterval) (value now) till) :
    (wake w room now actor pause).Ends (value w.settings.frameInterval) now till := by
  cases pause with
  | rest => exact h
  | bubble => exact ofWrite_ends _ _ _ h
  | frame m span =>
    obtain ⟨hlasts, k, left, hcount, hnow, htill⟩ := h
    have hshare : value (span.progress now) =
        min (k * value w.settings.frameInterval / value span.duration) 1 := by
      rw [Span.value_progress, hnow, add_sub_cancel_left]
    -- The clock has reached the end of the motion if and only if no frame is left.
    have hgoes : value (span.progress now) < 1 ↔
        k < Film.frameCount (value span.duration) (value w.settings.frameInterval) := by
      rw [hshare, min_lt_iff, Film.share_lt_one hlasts hinterval, or_iff_left (lt_irrefl 1)]
    unfold wake
    dsimp only
    cases hframe : m.frame w room actor (span.progress now) with
    | error cause => trivial
    | ok done =>
      have hsettings := (Motion.frame_deed hframe).conduct.frame.settings
      dsimp only
      split
      · rename_i hlt
        rw [lt_iff, value_one, hgoes] at hlt
        obtain ⟨left, rfl⟩ : ∃ rest, left = rest + 1 := ⟨left - 1, by omega⟩
        refine ⟨hlasts, k + 1, left, by omega, ?_, ?_⟩
        · rw [hsettings, value_wakeTime, max_eq_right hinterval.le, hnow]
          push_cast
          ring
        · rw [hsettings, value_wakeTime, max_eq_right hinterval.le, htill]
          push_cast
          ring
      · rename_i hlast
        rw [lt_iff, value_one, hgoes] at hlast
        obtain rfl : left = 0 := by omega
        rw [Nat.cast_zero, zero_mul, add_zero] at htill
        exact htill.symm

end Leaf

end SpriteStage
