import SpriteStage.Error
import SpriteStage.Scalar
/-!
# Numbers

A number is an integer of any size or a scalar. Integers stay exact among themselves; where an
integer meets a scalar it becomes the nearest scalar, and fails if there is none.
-/
namespace SpriteStage

/-- An integer of any size or a scalar. -/
inductive Number (α : Type) where
  | int (n : Int)
  | real (x : α)
deriving Repr

namespace Number

variable {α : Type} [Scalar α]

/-- Exact comparison, also between an integer and a scalar. -/
def lt : Number α → Number α → Bool
  | .int a, .int b => decide (a < b)
  | .real x, .real y => Scalar.lt x y
  | .int a, .real y =>
    if Scalar.isFinite y then decide (a < -(Scalar.floor (-y))) else Scalar.lt Scalar.zero y
  | .real x, .int b =>
    if Scalar.isFinite x then decide (Scalar.floor x < b) else Scalar.lt x Scalar.zero

/-- Exact equality, also between an integer and a scalar. -/
def eq : Number α → Number α → Bool
  | .int a, .int b => a == b
  | .real x, .real y => Scalar.eq x y
  | .int a, .real y => Scalar.isWhole y && Scalar.floor y == a
  | .real x, .int b => Scalar.isWhole x && Scalar.floor x == b

/-- The smaller of two numbers; `a` unless `b` is strictly smaller. -/
def least (a b : Number α) : Number α :=
  if lt b a then b else a

/-- The greater of two numbers; `a` unless `b` is strictly greater. -/
def greatest (a b : Number α) : Number α :=
  if lt a b then b else a

@[simp]
theorem greatest_real (a b : α) :
    greatest (.real a) (.real b) = .real (Scalar.greatest a b) := by
  simp only [greatest, lt, Scalar.greatest]
  split <;> simp_all

/-- The nearest scalar; an integer beyond the largest scalar has none. -/
def toScalar : Number α → Except Error α
  | .real x => .ok x
  | .int n =>
    match Scalar.ofInt? n with
    | some x => .ok x
    | none => .error .integerTooLarge

/-- The integer part, cut toward zero. -/
def truncate : Number α → Int
  | .int n => n
  | .real x => Scalar.truncate x

/-- The sum; that of two integers is exact. -/
def add : Number α → Number α → Except Error (Number α)
  | .int m, .int n => .ok (.int (m + n))
  | a, b => do return .real ((← a.toScalar) + (← b.toScalar))

/-- Half of a number; that of an integer is rounded once. -/
def half : Number α → Except Error α
  | .real x => .ok (x / Scalar.whole 2)
  | .int n =>
    match Scalar.ofRatio? n 2 with
    | some x => .ok x
    | none => .error .quotientTooLarge

end Number

end SpriteStage
