import SpriteStage.Value
/-! # Writing JSON -/
namespace SpriteStage.Json

def escapeChar (c : Char) : List Char :=
  if c = Text.doubleQuote then ['\\', Text.doubleQuote]
  else if c = '\\' then ['\\', '\\']
  else if c = '\n' then ['\\', 'n']
  else if c = '\r' then ['\\', 'r']
  else if c = '\t' then ['\\', 't']
  else if c = '\x08' then ['\\', 'b']
  else if c = '\x0c' then ['\\', 'f']
  else if c.toNat < 0x20 then '\\' :: 'u' :: Text.hex 4 c.toNat
  else [c]

def writeText (s : String) : List Char :=
  Text.doubleQuote :: (s.toList.flatMap escapeChar ++ [Text.doubleQuote])

/-- Items with a comma and a gap between two neighbours. -/
def separated (gap : List Char) : List (List Char) → List Char
  | [] => []
  | [item] => item
  | item :: rest => item ++ ',' :: (gap ++ separated gap rest)

variable {α : Type} [Scalar α]

def writeScalar (x : α) : String :=
  if Scalar.isFinite x then Scalar.text x
  else if Scalar.lt Scalar.zero x then "Infinity"
  else if Scalar.lt x Scalar.zero then "-Infinity"
  else "NaN"

mutual

def write (gap : List Char) : Value α → List Char
  | .null => "null".toList
  | .bool b => (if b then "true" else "false").toList
  | .int n => (toString n).toList
  | .real x => (writeScalar x).toList
  | .text s => writeText s
  | .list items => '[' :: (separated gap (writeAll gap items) ++ [']'])
  | .object fields => '\x7b' :: (separated gap (writeFields gap fields) ++ ['\x7d'])

def writeAll (gap : List Char) : List (Value α) → List (List Char)
  | [] => []
  | v :: vs => write gap v :: writeAll gap vs

def writeFields (gap : List Char) : List (String × Value α) → List (List Char)
  | [] => []
  | (name, v) :: rest => (writeText name ++ ':' :: (gap ++ write gap v)) :: writeFields gap rest

end

end SpriteStage.Json
