/-! # Whole square roots -/
namespace SpriteStage

/-- The steps of `wholeRoot`, at most `fuel` of them: twice the root of a quarter of `n` is the root of
`n` or one below it. -/
def wholeRoot.go : (fuel : Nat) → (n : Nat) → Nat
  | 0, n => min n 1
  | fuel + 1, n =>
    let r := 2 * go fuel (n / 4)
    if (r + 1) * (r + 1) ≤ n then r + 1 else r

/-- The greatest `r` with `r * r ≤ n`. -/
def wholeRoot (n : Nat) : Nat :=
  wholeRoot.go (n.log2 / 2) n

private theorem wholeRoot_go_bounds (fuel n : Nat) (h : n < Nat.pow 4 (fuel + 1)) :
    wholeRoot.go fuel n * wholeRoot.go fuel n ≤ n ∧
      n < (wholeRoot.go fuel n + 1) * (wholeRoot.go fuel n + 1) := by
  induction fuel generalizing n with
  | zero =>
    have : n = 0 ∨ n = 1 ∨ n = 2 ∨ n = 3 := by
      rw [Nat.pow_eq] at h
      omega
    rcases this with rfl | rfl | rfl | rfl <;> decide
  | succ fuel ih =>
    have hsmall : n / 4 < Nat.pow 4 (fuel + 1) := by
      rw [Nat.pow_eq, Nat.pow_succ] at h
      rw [Nat.pow_eq]
      omega
    have quarter := ih (n / 4) hsmall
    simp only [wholeRoot.go]
    split <;> grind

/-- A whole root is the last one whose square does not exceed the number. -/
theorem wholeRoot_bounds (n : Nat) :
    wholeRoot n * wholeRoot n ≤ n ∧ n < (wholeRoot n + 1) * (wholeRoot n + 1) := by
  apply wholeRoot_go_bounds
  calc
    n < 2 ^ (n.log2 + 1) := Nat.lt_log2_self
    _ ≤ 2 ^ (2 * (n.log2 / 2 + 1)) := Nat.pow_le_pow_right (by omega) (by omega)
    _ = 4 ^ (n.log2 / 2 + 1) := by rw [Nat.pow_mul]

end SpriteStage
