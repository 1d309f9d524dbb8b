/-!
# Rounding a quotient

One rule serves every place where an exact quotient becomes a whole count of units: the nearest
count, and the even one of two that are equally near.
-/
namespace SpriteStage.Decimal

/-- The whole number nearest to `n / d`; a half goes to the even neighbour. -/
def roundDiv (n d : Nat) : Nat :=
  let q := n / d
  let r := n % d
  if 2 * r < d then q
  else if d < 2 * r then q + 1
  else if q % 2 = 0 then q
  else q + 1

/-- `n * base ^ e` over `d * base ^ (-e)`, whichever of the two powers is whole. -/
def scale (base : Nat) (e : Int) (n d : Nat) : Nat × Nat :=
  match e with
  | .ofNat k => (n * Nat.pow base k, d)
  | .negSucc k => (n, d * Nat.pow base (k + 1))

end SpriteStage.Decimal
