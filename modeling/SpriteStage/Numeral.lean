import SpriteStage.Text.Blank
import SpriteStage.Text.Digit
import SpriteStage.Scalar
/-!
# Numerals

How numbers are read from text. Digits may be of any script, single underscores may stand between
two digits, and white space may surround the whole.
-/
namespace SpriteStage

namespace Numeral

/-- Integers longer than this are not read as integers. -/
def digitLimit : Nat := 4300

/-- Digits with at most one underscore between two neighbours; at least one digit. -/
def digits? : List Char → Option (List Nat)
  | [] => none
  | [c] => (Text.digit? c).map ([·])
  | c :: d :: rest =>
    match Text.digit? c with
    | none => none
    | some n =>
      if d = '_' then (digits? rest).map (n :: ·) else (digits? (d :: rest)).map (n :: ·)

def ofDigits (ds : List Nat) : Nat :=
  ds.foldl (fun n d => 10 * n + d) 0

/-- Splits an optional sign off. -/
def sign : List Char → Bool × List Char
  | '-' :: cs => (true, cs)
  | '+' :: cs => (false, cs)
  | cs => (false, cs)

def integer? (cs : List Char) : Option Int :=
  let (negative, body) := sign cs
  match digits? body with
  | none => none
  | some ds =>
    if ds.length ≤ digitLimit then
      some (if negative then -(ofDigits ds : Int) else (ofDigits ds : Int))
    else none

end Numeral

/-- What a decimal numeral denotes before it is rounded to a scalar. -/
inductive Numeral where
  | finite (negative : Bool) (mantissa : Nat) (exponent : Int)
  | infinite (negative : Bool)
  | nan
deriving DecidableEq, Repr

namespace Numeral

abbrev DigitStyle := List Char → Option (List Nat)

def digitsOrNone? (digits : DigitStyle) : List Char → Option (List Nat)
  | [] => some []
  | cs => digits cs

/-- The characters before the first one of a class, and those after it if there is one. -/
def splitAt (p : Char → Bool) (cs : List Char) : List Char × Option (List Char) :=
  match cs.dropWhile (!p ·) with
  | [] => (cs, none)
  | _ :: rest => (cs.takeWhile (!p ·), some rest)

/-- The exponent after the mark, zero if there is no mark. -/
def exponent? (digits : DigitStyle) : Option (List Char) → Option Int
  | none => some 0
  | some cs =>
    let (negative, body) := sign cs
    (digits body).map fun ds => if negative then -(ofDigits ds : Int) else (ofDigits ds : Int)

/-- An unsigned decimal with optional point and exponent; at least one digit before the exponent. -/
def unsigned? (digits : DigitStyle) (negative : Bool) (cs : List Char) : Option Numeral :=
  let (mantissa, mark) := splitAt (fun c => c == 'e' || c == 'E') cs
  let (front, point) := splitAt (· == '.') mantissa
  match digitsOrNone? digits front, digitsOrNone? digits (point.getD []),
    exponent? digits mark with
  | some before, some after, some e =>
    if before.isEmpty && after.isEmpty then none
    else some (.finite negative (ofDigits (before ++ after)) (e - after.length))
  | _, _, _ => none

/-- A decimal numeral, spelled-out infinities and NaN included, in any case. -/
def signed? (digits : DigitStyle) (cs : List Char) : Option Numeral :=
  let (negative, body) := sign cs
  let word := String.ofList (body.map Char.toLower)
  if word = "inf" || word = "infinity" then some (.infinite negative)
  else if word = "nan" then some .nan
  else unsigned? digits negative body

def decimal? (cs : List Char) : Option Numeral :=
  signed? digits? (Text.trim Text.isSpace cs)

def toScalar {α : Type} [Scalar α] : Numeral → α
  | .finite negative m e => Scalar.ofDecimal negative m e
  | .infinite negative => if negative then -Scalar.infinity else Scalar.infinity
  | .nan => Scalar.nan

def scalar? {α : Type} [Scalar α] (s : String) : Option α :=
  (decimal? s.toList).map toScalar

end Numeral

end SpriteStage
