import SpriteStage.Text.Utf8
import SpriteStage.Json.Reader
/-!
# Request targets

A target is a path and, after a question mark, a query. A query travels as bytes, and each byte
that is not escaped counts as the character of its number.
-/
namespace SpriteStage.Http

/-- The characters that spell the text of bytes, the last one first. -/
def ofBytes (bytes : List Nat) : List Char :=
  Text.spellAll (Text.decodeUtf8 bytes.reverse)

/-- Decodes percent signs. `bytes` holds the bytes of the current run, the last one first. -/
def unquote : List Char → (bytes : List Nat) → List Char
  | [], bytes => ofBytes bytes
  | '%' :: a :: b :: rest, bytes =>
    match Json.hexDigit? a, Json.hexDigit? b with
    | some x, some y => unquote rest ((16 * x + y) :: bytes)
    | _, _ => ofBytes bytes ++ '%' :: unquote (a :: b :: rest) []
  | c :: rest, bytes => ofBytes bytes ++ c :: unquote rest []

def unquoted (cs : List Char) : String :=
  String.ofList (unquote cs [])

def splitOn (sep : Char) : List Char → List (List Char)
  | [] => [[]]
  | c :: rest =>
    if c = sep then [] :: splitOn sep rest
    else
      match splitOn sep rest with
      | [] => [[c]]
      | part :: parts => (c :: part) :: parts

/-- A path, decoded, and the decoded parameters of a query. -/
structure Target where
  path : String
  query : List (String × String)
deriving Repr

namespace Target

/-- One parameter; without an equals sign its value is empty. -/
def parameter (cs : List Char) : String × String :=
  let blanks := cs.map fun c => if c = '+' then ' ' else c
  let (name, value) := Numeral.splitAt (· == '=') blanks
  (unquoted name, unquoted (value.getD []))

/-- The target that a text denotes, or the halves in its query, which have no bytes. -/
def ofText (s : String) : Except Text.HalfRun Target := do
  let (path, query) := Numeral.splitAt (· == '?') s.toList
  let bytes ← Text.bytes (Text.codes (query.getD []))
  let parts := (splitOn '&' (bytes.map Char.ofNat)).filter (!·.isEmpty)
  return ⟨unquoted path, parts.map parameter⟩

def last? (t : Target) (name : String) : Option String :=
  (t.query.reverse.find? (·.1 == name)).map (·.2)

def segments (path : String) : Option (List String) :=
  match path.toList with
  | '/' :: rest => some ((splitOn '/' rest).map String.ofList)
  | _ => none

end Target

end SpriteStage.Http
