import Mathlib.Algebra.Order.Floor.Semiring
import Mathlib.Data.Rat.Floor
import Mathlib.Tactic.FieldSimp
import Mathlib.Tactic.Ring
import SpriteStage.Proofs.Exact
/-! # Frame by frame -/
namespace SpriteStage

namespace Rational

private theorem wakeTime_of_pos {seconds : ℚ} (h : 0 < seconds) (now : ℚ) :
    wakeTime now seconds = now + seconds := by
  have hgreatest := Exact.value_greatest (Scalar.zero : ℚ) seconds
  rw [value_eq, value_eq, value_eq, zero_eq, max_eq_right h.le] at hgreatest
  rw [wakeTime, zero_eq, hgreatest]

end Rational

namespace Film

def frameCount (duration interval : ℚ) : Nat := ⌈duration / interval⌉₊

/-- What a tween shows after each of the first `k` intervals if it is not over before. -/
def framesUntil (duration interval : ℚ) (ease : ℚ → ℚ) (k : Nat) : List ℚ :=
  (List.range' 1 k).map fun i : Nat => ease (i * interval / duration)

/-- A tween after `k` intervals, when it is not over. -/
def reel (duration interval start : ℚ) (ease : ℚ → ℚ) (k : Nat) : Film ℚ where
  frames := framesUntil duration interval ease k
  sleeps := k
  now := start + k * interval

section

variable {duration interval start : ℚ} {apply : ℚ → Except Error ℚ} {ease : ℚ → ℚ} {stop : Nat → Bool} {k : Nat}

private theorem framesUntil_succ (duration interval : ℚ) (ease : ℚ → ℚ) (k : Nat) :
    framesUntil duration interval ease (k + 1) =
      framesUntil duration interval ease k ++ [ease ((k + 1 : Nat) * interval / duration)] := by
  rw [framesUntil, List.range'_concat, List.map_append, Nat.one_mul, Nat.add_comm 1 k]
  rfl

private theorem length_framesUntil (duration interval : ℚ) (ease : ℚ → ℚ) (k : Nat) :
    (framesUntil duration interval ease k).length = k := by
  rw [framesUntil, List.length_map, List.length_range']

theorem share_lt_one (hduration : 0 < duration) (hinterval : 0 < interval) :
    (k : ℚ) * interval / duration < 1 ↔ k < frameCount duration interval := by
  rw [frameCount, Nat.lt_ceil, div_lt_one hduration, lt_div_iff₀ hinterval]

theorem frameCount_pos (hduration : 0 < duration) (hinterval : 0 < interval) : 0 < frameCount duration interval :=
  Nat.ceil_pos.mpr (div_pos hduration hinterval)

/-- One turn of the loop: sleep, look whether to stop, and show the share that has passed. -/
theorem roll_reel (hinterval : 0 < interval) (happly : ∀ p, apply p = .ok (ease p)) (fuel : Nat) :
    roll ⟨start, duration⟩ interval apply stop (fuel + 1) (reel duration interval start ease k) =
      let progress : ℚ := min ((k + 1 : Nat) * interval / duration) 1
      let shown : Film ℚ :=
        ⟨framesUntil duration interval ease k ++ [ease progress], k + 1, start + (k + 1 : Nat) * interval⟩
      if stop k then .ok (some { shown with frames := framesUntil duration interval ease k })
      else if progress < 1 then roll ⟨start, duration⟩ interval apply stop fuel shown
      else .ok (some shown) := by
  have hnow : wakeTime (start + k * interval) interval = start + (k + 1 : Nat) * interval := by
    rw [Rational.wakeTime_of_pos hinterval]
    push_cast
    ring
  have hprogress : Span.progress ⟨start, duration⟩ (start + (k + 1 : Nat) * interval) =
      min ((k + 1 : Nat) * interval / duration) 1 := by
    rw [← Rational.value_eq (Span.progress _ _), Span.value_progress]
    simp only [Rational.value_eq, add_sub_cancel_left]
  have hlt : ∀ p : ℚ, (Scalar.lt p Scalar.one = true) = (p < 1) := fun p => by simp
  rw [roll]
  simp only [reel, length_framesUntil, hnow, hprogress, Film.show, happly, hlt, bind, Except.bind, pure, Except.pure]

private theorem roll_frame (hduration : 0 < duration) (hinterval : 0 < interval)
    (happly : ∀ p, apply p = .ok (ease p))
    (hgoes : stop k = false) (hk : k + 1 < frameCount duration interval) (fuel : Nat) :
    roll ⟨start, duration⟩ interval apply stop (fuel + 1) (reel duration interval start ease k) =
      roll ⟨start, duration⟩ interval apply stop fuel (reel duration interval start ease (k + 1)) := by
  have hshare := (share_lt_one hduration hinterval).mpr hk
  rw [roll_reel hinterval happly, hgoes, min_eq_left hshare.le]
  simp only [hshare, if_true, reel, framesUntil_succ, Bool.false_eq_true, if_false]

/-- As long as nothing asks to stop, a frame is shown for each interval but the last. -/
theorem roll_frames (hduration : 0 < duration) (hinterval : 0 < interval) (happly : ∀ p, apply p = .ok (ease p))
    (hgoes : ∀ m < k, stop m = false) (hk : k < frameCount duration interval) (fuel : Nat) :
    roll ⟨start, duration⟩ interval apply stop (fuel + k) (reel duration interval start ease 0) =
      roll ⟨start, duration⟩ interval apply stop fuel (reel duration interval start ease k) := by
  induction k generalizing fuel with
  | zero => rfl
  | succ k ih =>
    have hfuel : fuel + (k + 1) = (fuel + 1) + k := by omega
    rw [hfuel, ih (fun m hm => hgoes m (by omega)) (by omega) (fuel + 1),
      roll_frame hduration hinterval happly (hgoes k (Nat.lt_succ_self k)) hk]

private theorem roll_last (hduration : 0 < duration) (hinterval : 0 < interval)
    (happly : ∀ p, apply p = .ok (ease p))
    (hgoes : stop k = false) (hk : k + 1 = frameCount duration interval) (fuel : Nat) :
    roll ⟨start, duration⟩ interval apply stop (fuel + 1) (reel duration interval start ease k) =
      .ok (some ⟨framesUntil duration interval ease k ++ [ease 1], k + 1, start + (k + 1 : Nat) * interval⟩) := by
  have hshare : (1 : ℚ) ≤ (k + 1 : Nat) * interval / duration := by
    rw [← not_lt, share_lt_one hduration hinterval, hk]
    exact lt_irrefl _
  rw [roll_reel hinterval happly, hgoes, min_eq_right hshare]
  simp

private theorem roll_stopped (hinterval : 0 < interval) (happly : ∀ p, apply p = .ok (ease p))
    (hstop : stop k = true)
    (fuel : Nat) :
    roll ⟨start, duration⟩ interval apply stop (fuel + 1) (reel duration interval start ease k) =
      .ok (some ⟨framesUntil duration interval ease k, k + 1, start + (k + 1 : Nat) * interval⟩) := by
  rw [roll_reel hinterval happly, hstop]
  rfl

private theorem roll_out (hduration : 0 < duration) (hinterval : 0 < interval)
    (happly : ∀ p, apply p = .ok (ease p))
    (hgoes : ∀ m < k, stop m = false) (hk : k < frameCount duration interval) :
    roll ⟨start, duration⟩ interval apply stop k (reel duration interval start ease 0) = .ok none := by
  calc roll ⟨start, duration⟩ interval apply stop k (reel duration interval start ease 0)
      = roll ⟨start, duration⟩ interval apply stop (0 + k) (reel duration interval start ease 0) := by rw [Nat.zero_add]
    _ = roll ⟨start, duration⟩ interval apply stop 0 (reel duration interval start ease k) :=
      roll_frames hduration hinterval happly hgoes hk 0
    _ = .ok none := rfl

end

/-- A tween that is played on its own ends, with exactly the frames that there are. It sleeps as often as there are
intervals in its duration, the last one counted in full, and after the `k`-th sleep it shows the eased share of `k`
intervals; the last frame shows the whole. If it is asked to stop after `n` frames it shows these and has slept once
more. Without a duration it does not sleep and shows the whole, unless it is asked to stop before. -/
theorem play_frames {apply : ℚ → Except Error ℚ} {ease : ℚ → ℚ} (happly : ∀ p, apply p = .ok (ease p))
    (duration interval start : ℚ) (stop : Nat → Bool) :
    (0 < duration → 0 < interval → (∀ m < frameCount duration interval, stop m = false) → ∀ fuel,
      play duration interval start apply stop fuel = .ok
        (if fuel < frameCount duration interval then none
        else some
          { frames := framesUntil duration interval ease (frameCount duration interval - 1) ++ [ease 1]
            sleeps := frameCount duration interval
            now := start + frameCount duration interval * interval })) ∧
    (0 < duration → 0 < interval → ∀ n < frameCount duration interval, (∀ m < n, stop m = false) → stop n = true →
      ∀ fuel, play duration interval start apply stop fuel = .ok
        (if fuel < n + 1 then none
        else some
          { frames := framesUntil duration interval ease n
            sleeps := n + 1
            now := start + (n + 1 : Nat) * interval })) ∧
    (duration ≤ 0 → ∀ fuel, play duration interval start apply stop fuel = .ok (some
      { frames := if stop 0 then [] else [ease 1]
        sleeps := 0
        now := start })) := by
  have hplay : 0 < duration → ∀ fuel, play duration interval start apply stop fuel =
      roll ⟨start, duration⟩ interval apply stop fuel (reel duration interval start ease 0) := by
    intro hduration fuel
    have hlasts : ¬ Scalar.le duration Scalar.zero = true := by
      rw [Exact.le_iff, Exact.value_zero]
      exact not_le.mpr hduration
    have hblank : reel duration interval start ease 0 = ⟨[], 0, start⟩ := by simp [reel, framesUntil]
    rw [play, if_neg hlasts, hblank]
  refine ⟨fun hduration hinterval hgoes fuel => ?_, fun hduration hinterval n hn hgoes hstop fuel => ?_,
    fun hduration fuel => ?_⟩
  · rw [hplay hduration]
    split
    · rename_i hfuel
      exact roll_out hduration hinterval happly (fun m hm => hgoes m (hm.trans hfuel)) hfuel
    · rename_i hfuel
      have hpos := frameCount_pos hduration hinterval
      obtain ⟨k, hk⟩ : ∃ k, k + 1 = frameCount duration interval := ⟨_, Nat.sub_add_cancel hpos⟩
      obtain ⟨spare, rfl⟩ : ∃ spare, fuel = spare + 1 + k := ⟨fuel - (k + 1), by omega⟩
      rw [roll_frames hduration hinterval happly (fun m hm => hgoes m (by omega)) (by omega),
        roll_last hduration hinterval happly (hgoes k (by omega)) hk, ← hk, Nat.add_sub_cancel]
  · rw [hplay hduration]
    split
    · rename_i hfuel
      exact roll_out hduration hinterval happly (fun m hm => hgoes m (by omega)) (by omega)
    · rename_i hfuel
      obtain ⟨spare, rfl⟩ : ∃ spare, fuel = spare + 1 + n := ⟨fuel - (n + 1), by omega⟩
      rw [roll_frames hduration hinterval happly hgoes hn, roll_stopped hinterval happly hstop]
  · have hover : Scalar.le duration Scalar.zero = true := by
      rw [Exact.le_iff, Exact.value_zero]
      exact hduration
    rw [play, if_pos hover]
    cases stop 0 with
    | true => rfl
    | false =>
      simp only [Film.show, happly, Rational.one_eq]
      rfl

/-- A second and a half with four looks per second takes six frames, if it is not asked to stop after two. -/
theorem animate_six_frames : (0 : ℚ) < 3 / 2 ∧ (0 : ℚ) < 1 / 4 ∧
    (∀ p : ℚ, Easing.apply .easeOutCubic p = .ok (1 - (1 - p) ^ 3)) ∧
    animate (3 / 2 : ℚ) (1 / 4) 10 .easeOutCubic (fun _ => false) 100 = .ok (some
      { frames := [91 / 216, 19 / 27, 7 / 8, 26 / 27, 215 / 216, 1], sleeps := 6, now := 23 / 2 }) ∧
    animate (3 / 2 : ℚ) (1 / 4) 10 .easeOutCubic (fun n => decide (2 ≤ n)) 100 = .ok (some
      { frames := [91 / 216, 19 / 27], sleeps := 3, now := 43 / 4 }) ∧
    animate (-1 : ℚ) (1 / 4) 10 .easeOutCubic (fun _ => false) 100 = .ok (some
      { frames := [1], sleeps := 0, now := 10 }) := by
  have happly : ∀ p : ℚ, Easing.apply .easeOutCubic p = .ok (1 - (1 - p) ^ 3) := fun p => by
    simp [Easing.apply, Scalar.cube?]
  have hcount : frameCount (3 / 2) (1 / 4) = 6 := by
    rw [frameCount, Nat.ceil_eq_iff (by decide)]
    norm_num
  refine ⟨by norm_num, by norm_num, happly, ?_, ?_, ?_⟩
  · have hframes := (play_frames happly (3 / 2) (1 / 4) 10 fun _ => false).1 (by norm_num) (by norm_num)
      (fun _ _ => rfl) 100
    rw [animate, hframes, hcount]
    norm_num [framesUntil, List.range']
  · have hframes := (play_frames happly (3 / 2) (1 / 4) 10 fun n => decide (2 ≤ n)).2.1 (by norm_num) (by norm_num)
      2 (by rw [hcount]; decide) (fun m hm => by simpa using hm) rfl 100
    rw [animate, hframes]
    norm_num [framesUntil, List.range']
  · have hframes := (play_frames happly (-1) (1 / 4) 10 fun _ => false).2.2 (by norm_num) 100
    rw [animate, hframes]
    norm_num

end Film

end SpriteStage
