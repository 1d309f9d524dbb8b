import SpriteStage.Decimal.Shortest
/-! # Laying out a decimal -/
namespace SpriteStage.Decimal

structure Layout where
  /-- The least exponent of the leading digit that is written positionally. -/
  least : Int
  /-- The first exponent of the leading digit that is no longer written positionally. -/
  bound : Int
  /-- The least number of digits of a written exponent. -/
  exponentWidth : Nat

/-- Positional from `0.0001` up to sixteen digits; exponents with a sign and two digits. -/
def Layout.standard : Layout := ⟨-4, 16, 2⟩

def digitsText (n : Nat) : String :=
  String.ofList (Nat.toDigits 10 n)

/-- The digits of `n`, filled up with zeros on the left. -/
def padded (width n : Nat) : String :=
  let ds := Nat.toDigits 10 n
  String.ofList (List.replicate (width - ds.length) '0' ++ ds)

def Layout.exponentText (l : Layout) (e : Int) : String :=
  "e" ++ (if e < 0 then "-" else "+") ++ padded l.exponentWidth e.natAbs

/-- The text of a positive decimal; a positional number keeps at least one digit after the point. -/
def Layout.write (l : Layout) (x : Decimal) : String :=
  let ds := Nat.toDigits 10 x.digits
  let lead : Int := x.exponent + ds.length - 1
  if l.least ≤ lead && lead < l.bound then
    if lead < 0 then
      "0." ++ String.ofList (List.replicate (-lead - 1).toNat '0' ++ ds)
    else
      let before := lead.toNat + 1
      let front := ds.take before ++ List.replicate (before - ds.length) '0'
      let back := ds.drop before
      String.ofList front ++ "." ++ String.ofList (if back.isEmpty then ['0'] else back)
  else
    let front := String.ofList (ds.take 1)
    let back := ds.drop 1
    front ++ (if back.isEmpty then "" else "." ++ String.ofList back) ++ l.exponentText lead

end SpriteStage.Decimal
