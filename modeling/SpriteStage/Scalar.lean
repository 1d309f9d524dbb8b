/-!
# Scalars

Positions, headings, sizes and times on a stage are numbers of one type, left open here.
Comparisons are Boolean, so that a value that compares false with everything (a NaN) is an
ordinary inhabitant.
-/
namespace SpriteStage

/-- The arithmetic that a stage needs from its numbers. -/
class Scalar (α : Type) extends Add α, Sub α, Mul α, Div α, Neg α where
  /-- Strictly smaller; false as soon as one side is not a number. -/
  lt : α → α → Bool
  /-- Equal as numbers; false as soon as one side is not a number. -/
  eq : α → α → Bool
  /-- The number nearest to `± mantissa * 10 ^ exponent`. -/
  ofDecimal : (negative : Bool) → (mantissa : Nat) → (exponent : Int) → α
  /-- The number nearest to a quotient, or none if it lies beyond the largest one. -/
  ofRatio? : Int → Nat → Option α
  /-- What the text `inf` stands for. -/
  infinity : α
  /-- What the text `nan` stands for. -/
  nan : α
  isFinite : α → Bool
  /-- The greatest integer not above a finite number. -/
  floor : α → Int
  cube? : α → Option α
  /-- A heading in degrees brought into one turn. -/
  wrap : α → α
  /-- The unit step in the direction of a heading in degrees. -/
  direction : α → α × α
  hypot : α → α → α
  /-- The shortest text that reads back as the number. -/
  text : α → String

namespace Scalar

variable {α : Type} [Scalar α]

/-- `mantissa / 10 ^ places`, the form in which constants are written down. -/
def decimal (mantissa places : Nat) : α :=
  ofDecimal false mantissa (-(places : Int))

def whole (n : Nat) : α :=
  ofDecimal false n 0

/-- The number nearest to an integer, or none if it lies beyond the largest one. -/
def ofInt? (n : Int) : Option α :=
  ofRatio? n 1

def zero : α := whole 0

def one : α := whole 1

/-- Smaller or equal; false as soon as one side is not a number. -/
def le (a b : α) : Bool :=
  lt a b || eq a b

/-- The smaller of two numbers; `a` unless `b` is strictly smaller. -/
def least (a b : α) : α :=
  if lt b a then b else a

/-- The greater of two numbers; `a` unless `b` is strictly greater. -/
def greatest (a b : α) : α :=
  if lt a b then b else a

/-- `x` brought into `[low, high]`; a value that compares false with everything becomes `high`. -/
def clamp (low high x : α) : α :=
  greatest low (least high x)

def abs (x : α) : α :=
  if lt x zero then -x else x

def truncate (x : α) : Int :=
  if lt x zero then -(floor (-x)) else floor x

def isWhole (x : α) : Bool :=
  isFinite x && (floor x == -(floor (-x)))

end Scalar

end SpriteStage
