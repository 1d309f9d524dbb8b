import SpriteStage.Text.Utf8
/-!
# Encodings of documents

A document travels as bytes of UTF-8, UTF-16 or UTF-32. Because it starts with an ASCII character,
the zeros among its first bytes tell which.
-/
namespace SpriteStage.Json

inductive Encoding where
  | utf8
  | utf16 (bigEndian : Bool)
  | utf32 (bigEndian : Bool)
deriving DecidableEq, Repr

namespace Encoding

def detect : List Nat → Encoding
  | [a, b] => if a = 0 then .utf16 true else if b = 0 then .utf16 false else .utf8
  | a :: b :: c :: d :: _ =>
    if a = 0 then (if b = 0 then .utf32 true else .utf16 true)
    else if b = 0 then (if c = 0 && d = 0 then .utf32 false else .utf16 false)
    else .utf8
  | _ => .utf8

def groupValue (bigEndian : Bool) (bytes : List Nat) : Nat :=
  (if bigEndian then bytes else bytes.reverse).foldl (fun n b => 256 * n + b) 0

/-- The 16-bit units of a list of bytes; none if a byte is left over. -/
def units16? (bigEndian : Bool) : List Nat → Option (List Nat)
  | [] => some []
  | a :: b :: rest => (units16? bigEndian rest).map (groupValue bigEndian [a, b] :: ·)
  | _ => none

def units32? (bigEndian : Bool) : List Nat → Option (List Nat)
  | [] => some []
  | a :: b :: c :: d :: rest =>
    (units32? bigEndian rest).map (groupValue bigEndian [a, b, c, d] :: ·)
  | _ => none

def joined : List Nat → List Nat
  | [] => []
  | [u] => [u]
  | high :: low :: rest =>
    if Text.isHighHalf high && Text.isLowHalf low then Text.joinHalves high low :: joined rest
    else high :: joined (low :: rest)

def decode? : Encoding → List Nat → Option (List Nat)
  | .utf8, bytes => some (Text.decodeUtf8 bytes)
  | .utf16 bigEndian, bytes => (units16? bigEndian bytes).map joined
  | .utf32 bigEndian, bytes =>
    match units32? bigEndian bytes with
    | some units => if units.all (· < Text.codeLimit) then some units else none
    | none => none

end Encoding

/-- The codes of a document, without the byte order mark of UTF-8 that it may start with. -/
def decode? : List Nat → Option (List Nat)
  | 0xEF :: 0xBB :: 0xBF :: rest => some (Text.decodeUtf8 rest)
  | bytes => (Encoding.detect bytes).decode? bytes

end SpriteStage.Json
