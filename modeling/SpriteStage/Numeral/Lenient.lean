import SpriteStage.Error
import SpriteStage.Numeral
/-!
# Lenient numerals

How a checked field reads a number from text. Only ASCII digits count here, but underscores are
read over more freely than in a numeral of the language of blocks: they may stand anywhere inside
the text, one at a time.
-/
namespace SpriteStage.Numeral

def plainDigits? : DigitStyle := fun cs =>
  if !cs.isEmpty && cs.all Char.isDigit then some (cs.map (·.toNat - 48)) else none

def hasDoubleUnderscore : List Char → Bool
  | '_' :: '_' :: _ => true
  | _ :: rest => hasDoubleUnderscore rest
  | [] => false

/-- The text without its underscores; none if it has none, one at an end or two side by side. -/
def withoutUnderscores? (cs : List Char) : Option (List Char) :=
  if cs.contains '_' && cs.head? != some '_' && cs.getLast? != some '_'
      && !hasDoubleUnderscore cs then
    some (cs.filter (· != '_'))
  else none

def lenientScalar? {α : Type} [Scalar α] (s : String) : Option α :=
  let cs := s.toList
  let direct := signed? plainDigits? (Text.trim Text.isSpace cs)
  let cleaned := (withoutUnderscores? cs).bind (signed? plainDigits?)
  (direct <|> cleaned).map toScalar

/-- What a text holds to a strict reader of integers. -/
inductive StrictInteger where
  | value (n : Int)
  | tooLong
  | malformed
deriving DecidableEq, Repr

/-- An integer as it is printed: a minus sign or none, no zero in front of other digits. -/
def strictInteger (cs : List Char) : StrictInteger :=
  let (negative, body) := match cs with
    | '-' :: rest => (true, rest)
    | _ => (false, cs)
  let ds := body.takeWhile Char.isDigit
  if ds.isEmpty then .malformed
  else if ds.head? = some '0' then
    if body.length = 1 then .value 0 else .malformed
  else if digitLimit < ds.length then .tooLong
  else if ds.length < body.length then .malformed
  else
    let n : Int := ofDigits (ds.map (·.toNat - 48))
    .value (if negative then -n else n)

/-- What follows a first zero: further zeros and underscores go, and the number starts at the first
digit or minus sign, or at the character before a point. `last` is the character before. -/
def afterZero? (last : Char) : List Char → Option (List Char)
  | [] => some [last]
  | c :: rest =>
    if c = '0' || c = '_' then afterZero? c rest
    else if c.isDigit || c = '-' then some (c :: rest)
    else if c = '.' then some (last :: c :: rest)
    else none

/-- A number without the zeros in front of it. -/
def withoutZeros? : List Char → Option (List Char)
  | [] => none
  | c :: rest =>
    if c = '0' then afterZero? c rest
    else if c.isDigit || c = '-' then some (c :: rest)
    else none

/-- A number without a point that only zeros follow. -/
def withoutPlaces (cs : List Char) : List Char :=
  match splitAt (· == '.') cs with
  | (front, some places) => if !places.isEmpty && places.all (· == '0') then front else cs
  | (_, none) => cs

/-- A number with everything taken off that a lenient reader of integers looks past. -/
def cleaned? (cs : List Char) : Option (List Char) :=
  let strip (cs : List Char) : Option (List Char) := (withoutZeros? cs).map withoutPlaces
  let stripped : Option (List Char) :=
    match Text.trim Text.isSpace cs with
    | '+' :: '-' :: _ => none
    | '+' :: rest => strip rest
    | '-' :: rest => (strip rest).map ('-' :: ·)
    | rest => strip rest
  stripped.map fun cs => (withoutUnderscores? cs).getD cs

def lenientInteger (s : String) : Except IssueKind Int :=
  match strictInteger s.toList with
  | .value n => .ok n
  | .tooLong => .error .intParsingSize
  | .malformed =>
    match (cleaned? s.toList).map strictInteger with
    | some (.value n) => .ok n
    | _ => .error .intParsing

end SpriteStage.Numeral
