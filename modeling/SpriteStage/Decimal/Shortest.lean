import SpriteStage.Decimal.Rounding
/-!
# Shortest decimals

A binary number `m * 2 ^ q` owns the interval of reals that round to it. Its shortest decimal is
the one with the fewest digits inside that interval, and of two with equally many digits the
nearer one.
-/
namespace SpriteStage

/-- A positive decimal `digits * 10 ^ exponent`. -/
structure Decimal where
  digits : Nat
  exponent : Int
deriving DecidableEq, Repr

namespace Decimal

/-- The numbers that round to one value, as numerators over a common denominator. -/
structure Interval where
  low : Nat
  value : Nat
  high : Nat
  denominator : Nat
  /-- Whether the two ends round to the value as well. -/
  closed : Bool

/-- The interval of `m * 2 ^ q`. At a power of two above the least exponent the lower neighbour is
half as far away. -/
def Interval.ofBinary (m : Nat) (q : Int) (powerOfTwo : Bool) : Interval :=
  let low := if powerOfTwo then 4 * m - 1 else 4 * m - 2
  let (s, d) := scale 2 (q - 2) 1 1
  { low := low * s, value := 4 * m * s, high := (4 * m + 2) * s, denominator := d,
    closed := m % 2 == 0 }

/-- The same interval measured in units of `10 ^ t`. -/
def Interval.inUnits (i : Interval) (t : Int) : Interval :=
  let (s, d) := scale 10 (-t) 1 i.denominator
  { i with low := i.low * s, value := i.value * s, high := i.high * s, denominator := d }

def Interval.contains (i : Interval) (c : Nat) : Bool :=
  let x := c * i.denominator
  if i.closed then i.low ≤ x && x ≤ i.high else i.low < x && x < i.high

/-- The whole number nearest to the value among its two neighbours in the interval. -/
def Interval.pick (i : Interval) : Option Nat :=
  let c := i.value / i.denominator
  match i.contains c, i.contains (c + 1) with
  | true, true =>
    let below := i.value - c * i.denominator
    let above := (c + 1) * i.denominator - i.value
    if below < above || (below == above && c % 2 == 0) then some c else some (c + 1)
  | true, false => some c
  | false, true => some (c + 1)
  | false, false => none

/-- The exponent `p` with `10 ^ p ≤ n / d < 10 ^ (p + 1)`, found from a guess by at most `fuel`
steps up or down. -/
def decade (n d : Nat) : (fuel : Nat) → (guess : Int) → Int
  | 0, p => p
  | fuel + 1, p =>
    let (one, unit) := scale 10 p 1 1
    if n * unit < one * d then decade n d fuel (p - 1)
    else if 10 * one * d ≤ n * unit then decade n d fuel (p + 1)
    else p

def trim : (fuel : Nat) → Decimal → Decimal
  | 0, x => x
  | fuel + 1, x =>
    if x.digits ≠ 0 && x.digits % 10 = 0 then trim fuel ⟨x.digits / 10, x.exponent + 1⟩ else x

/-- Seventeen digits always single out a binary64 number. -/
def mostDigits : Nat := 17

/-- The shortest decimal of `m * 2 ^ q` with `m` positive. -/
def shortest (m : Nat) (q : Int) (powerOfTwo : Bool) : Decimal :=
  let i := Interval.ofBinary m q powerOfTwo
  -- 1233 / 4096 is a little below the logarithm of 2 to base 10.
  let guess := ((m.log2 : Int) + q) * 1233 / 4096
  let p := decade i.value i.denominator 8 guess
  let found := (List.range mostDigits).findSome? fun (n : Nat) =>
    let t := p - n
    (i.inUnits t).pick.map fun c => trim 20 ⟨c, t⟩
  found.getD ⟨m, q⟩

end Decimal

end SpriteStage
