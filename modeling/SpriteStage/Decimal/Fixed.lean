import SpriteStage.Decimal.Rounding
import SpriteStage.Decimal.Layout
/-!
# A fixed number of places

Readings of the stage are written with a fixed number of digits after the point, rounded from the
exact quotient, a half to the even neighbour.
-/
namespace SpriteStage.Decimal

/-- `± n / d` with `places` digits after the point. -/
def fixed (places : Nat) (negative : Bool) (n d : Nat) : String :=
  let units := roundDiv (n * Nat.pow 10 places) d
  let unit := Nat.pow 10 places
  let sign := if negative && units ≠ 0 then "-" else ""
  sign ++ digitsText (units / unit) ++ "." ++ padded places (units % unit)

end SpriteStage.Decimal
