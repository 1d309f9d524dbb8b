import Mathlib.Data.Rat.Sqrt
import SpriteStage.Scalar
/-!
# Rational scalars

The exact numbers that a stage can be computed with. A direction is rational only for quarter
turns, so other headings go the way of the quarter turn below; a length is exact where it is
rational.
-/
namespace SpriteStage.Rational

def smaller (x y : ℚ) : Bool := decide (x < y)

def tenTo (exponent : Int) : ℚ :=
  if exponent < 0 then 1 / (10 ^ exponent.natAbs : Nat) else (10 ^ exponent.natAbs : Nat)

/-- The heading that points the same way and lies within one turn. -/
def withinTurn (heading : ℚ) : ℚ := heading - 360 * (heading / 360).floor

/-- The unit step of the quarter turn below a heading. -/
def quarter (heading : ℚ) : ℚ × ℚ :=
  match (heading / 90).floor % 4 with
  | 0 => (1, 0)
  | 1 => (0, 1)
  | 2 => (-1, 0)
  | _ => (0, -1)

instance : Scalar ℚ where
  lt := smaller
  eq x y := decide (x = y)
  ofDecimal negative mantissa exponent :=
    if negative then -(mantissa * tenTo exponent) else mantissa * tenTo exponent
  ofRatio? n d := some (n / d)
  infinity := 0
  nan := 0
  isFinite _ := true
  floor := Rat.floor
  cube? x := some (x ^ 3)
  wrap := withinTurn
  direction := quarter
  hypot x y := Rat.sqrt (x * x + y * y)
  text x := if x.den = 1 then toString x.num else toString x.num ++ "/" ++ toString x.den

end SpriteStage.Rational
