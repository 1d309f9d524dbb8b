import SpriteStage.Scalar
import SpriteStage.Decimal.Rounding
import SpriteStage.Decimal.Shortest
import SpriteStage.Decimal.Layout
import SpriteStage.Decimal.Fixed
import SpriteStage.Scalar.Root
/-!
# Binary64 scalars

The running instance of `Scalar`. Conversions from and to integers, decimals and text go through
the exact value `± m * 2 ^ q` of a number, so they round once and only where they say so. Powers
of naturals are written `Nat.pow`, because `^` may stand for the power of another structure where
one is in scope.
-/
namespace SpriteStage.Binary64

open Decimal

inductive Parts where
  | finite (negative : Bool) (m : Nat) (q : Int)
  | infinite (negative : Bool)
  | nan

def parts (x : Float) : Parts :=
  let bits := x.toBits.toNat
  let negative := bits ≥ Nat.pow 2 63
  let exponent : Nat := bits / Nat.pow 2 52 % Nat.pow 2 11
  let fraction := bits % Nat.pow 2 52
  if exponent = 2047 then
    if fraction = 0 then .infinite negative else .nan
  else if exponent = 0 then .finite negative fraction (-1074)
  else .finite negative (fraction + Nat.pow 2 52) ((exponent : Int) - 1075)

/-- The bits of positive infinity, the first pattern above those of the finite numbers. -/
def infinityBits : Nat := 2047 * Nat.pow 2 52

/-- The bits of the number that is none. -/
def nanBits : Nat := infinityBits + Nat.pow 2 51

/-- The number with the given sign and the remaining 63 bits. -/
def ofBits (negative : Bool) (magnitude : Nat) : Float :=
  Float.ofBits (UInt64.ofNat (magnitude + (if negative then Nat.pow 2 63 else 0)))

/-- The exponent `q` for which `n / d` is between `2 ^ 52` and `2 ^ 53` units of `2 ^ q`, or the
least exponent if the quotient is smaller. -/
def unitExponent (n d : Nat) : Int :=
  let q : Int := max ((n.log2 : Int) - d.log2 - 52) (-1074)
  let (u, v) := scale 2 (-q) n d
  if u / v < Nat.pow 2 52 && -1074 < q then q - 1 else q

/-- The number nearest to `± n / d`, an exact half going to the even neighbour; infinite beyond the
largest number. -/
def ofRatio (negative : Bool) (n d : Nat) : Float :=
  if n = 0 then ofBits negative 0
  else
    let q := unitExponent n d
    let (u, v) := scale 2 (-q) n d
    -- The sum carries into the exponent when rounding reaches the next power of two.
    ofBits negative (min infinityBits ((q + 1074).toNat * Nat.pow 2 52 + roundDiv u v))

/-- The number nearest to `± m * 10 ^ e`. Exponents far out of range are decided without the power. -/
def ofDecimal (negative : Bool) (m : Nat) (e : Int) : Float :=
  if m = 0 then ofBits negative 0
  else if 400 < e then ofBits negative infinityBits
  else if (m.log2 : Int) + 1 + 3 * e < -1080 then ofBits negative 0
  else
    let (n, d) := scale 10 e m 1
    ofRatio negative n d

/-- The number nearest to a quotient, unless it rounds beyond the largest number. -/
def ofRatio? (n : Int) (d : Nat) : Option Float :=
  let x := ofRatio (decide (n < 0)) n.natAbs d
  if x.isInf then none else some x

def cube? (x : Float) : Option Float :=
  let y := Float.pow x (ofRatio false 3 1)
  if x.isFinite && y.isInf then none else some y

/-- The greatest integer not above a finite number; zero for all others. -/
def floor (x : Float) : Int :=
  match parts x with
  | .finite negative m q =>
    let (n, d) := scale 2 q m 1
    if negative then -(((n + d - 1) / d : Nat) : Int) else ((n / d : Nat) : Int)
  | _ => 0

/-- The remainder of a heading by a full turn, taken exactly and then lifted by a turn if it is
negative; the lift may round up to the full turn. -/
def wrap (x : Float) : Float :=
  match parts x with
  | .finite negative m q =>
    let (n, d) := scale 2 q m 1
    let r := n % (360 * d)
    if r = 0 then ofBits false 0
    else if negative then ofRatio true r d + ofRatio false 360 1
    else ofRatio false r d
  | _ => x - x

def pi : Float := ofDecimal false 3141592653589793 (-15)

def direction (heading : Float) : Float × Float :=
  let radians := heading * (pi / ofRatio false 180 1)
  (radians.cos, radians.sin)

/-- The number nearest to the square root of `s`, times `2 ^ e`. The root is cut to at least 57 bits,
and the bit after them tells whether anything was cut off, so it rounds as the exact root does. -/
def rootTimes (s : Nat) (e : Int) : Float :=
  let places := 57 - s.log2 / 2
  let root := wholeRoot (s * Nat.pow 4 places)
  let rest := if root * root = s * Nat.pow 4 places then 0 else 1
  let (n, d) := scale 2 (e - places - 1) (2 * root + rest) 1
  ofRatio false n d

/-- The length of a vector, rounded once. An infinite leg makes it infinite whatever the other is. -/
def hypot (x y : Float) : Float :=
  match parts x, parts y with
  | .infinite _, _ | _, .infinite _ => ofBits false infinityBits
  | .nan, _ | _, .nan => ofBits false nanBits
  | .finite _ m q, .finite _ k r =>
    let e := min q r
    let a := m * Nat.pow 2 (q - e).toNat
    let b := k * Nat.pow 2 (r - e).toNat
    rootTimes (a * a + b * b) e

def text (x : Float) : String :=
  match parts x with
  | .nan => "nan"
  | .infinite negative => if negative then "-inf" else "inf"
  | .finite negative m q =>
    let sign := if negative then "-" else ""
    if m = 0 then sign ++ "0.0"
    else sign ++ Layout.standard.write (shortest m q (m == Nat.pow 2 52 && -1074 < q))

def reading (x : Float) : String :=
  match parts x with
  | .nan => "nan"
  | .infinite negative => if negative then "-inf" else "inf"
  | .finite negative m q =>
    let (n, d) := scale 2 q m 1
    fixed 6 negative n d

instance : Scalar Float where
  lt a b := decide (a < b)
  eq a b := a == b
  ofDecimal := ofDecimal
  ofRatio? := ofRatio?
  infinity := ofBits false infinityBits
  nan := ofBits false nanBits
  isFinite := Float.isFinite
  floor := floor
  cube? := cube?
  wrap := wrap
  direction := direction
  hypot := hypot
  text := text

end SpriteStage.Binary64
