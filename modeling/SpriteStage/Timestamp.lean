import SpriteStage.Decimal.Layout
/-! # Timestamps -/
namespace SpriteStage

/-- A moment in universal time. -/
structure Timestamp where
  year : Nat
  month : Nat
  day : Nat
  hour : Nat := 0
  minute : Nat := 0
  second : Nat := 0
  microsecond : Nat := 0
deriving DecidableEq, Repr

def Timestamp.text (t : Timestamp) : String :=
  let two := Decimal.padded 2
  let fraction := if t.microsecond = 0 then "" else "." ++ Decimal.padded 6 t.microsecond
  Decimal.padded 4 t.year ++ "-" ++ two t.month ++ "-" ++ two t.day ++ "T" ++ two t.hour ++ ":"
    ++ two t.minute ++ ":" ++ two t.second ++ fraction ++ "+00:00"

end SpriteStage
