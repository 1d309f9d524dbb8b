import SpriteStage.Text.Surrogate
/-!
# UTF-8

The bytes of a text, and the codes of any list of bytes. A byte that starts no character, and the
longest beginning of a character that is not completed, each become one replacement character.
-/
namespace SpriteStage.Text

def encodeUtf8 (n : Nat) : List Nat :=
  if n < 0x80 then [n]
  else if n < 0x800 then [0xC0 + n / 64, 0x80 + n % 64]
  else if n < 0x10000 then [0xE0 + n / 4096, 0x80 + n / 64 % 64, 0x80 + n % 64]
  else [0xF0 + n / 262144, 0x80 + n / 4096 % 64, 0x80 + n / 64 % 64, 0x80 + n % 64]

/-- The bytes that codes travel as, or the first halves among them. -/
def bytes (ns : List Nat) : Except HalfRun (List Nat) :=
  match halfRun? ns with
  | some halves => .error halves
  | none => .ok (ns.flatMap encodeUtf8)

/-- What stands for bytes that are no character. -/
def replacement : Nat := 0xFFFD

/-- A character that has begun: how many bytes are missing, the bits so far, and the range that the
next byte has to lie in. -/
structure Partial where
  missing : Nat
  bits : Nat
  low : Nat
  high : Nat

/-- What a byte at the start of a character begins: a whole character, or a partial one. -/
def leadByte (b : Nat) : Nat ⊕ Partial :=
  if b < 0x80 then .inl b
  else if b < 0xC2 then .inl replacement
  else if b < 0xE0 then .inr ⟨1, b - 0xC0, 0x80, 0xBF⟩
  else if b = 0xE0 then .inr ⟨2, 0, 0xA0, 0xBF⟩
  else if b = 0xED then .inr ⟨2, 0xD, 0x80, 0x9F⟩
  else if b < 0xF0 then .inr ⟨2, b - 0xE0, 0x80, 0xBF⟩
  else if b = 0xF0 then .inr ⟨3, 0, 0x90, 0xBF⟩
  else if b < 0xF4 then .inr ⟨3, b - 0xF0, 0x80, 0xBF⟩
  else if b = 0xF4 then .inr ⟨3, 4, 0x80, 0x8F⟩
  else .inl replacement

/-- Decodes bytes after a character that may have begun. -/
def decodeFrom : Option Partial → List Nat → List Nat
  | none, [] => []
  | some _, [] => [replacement]
  | none, b :: rest =>
    match leadByte b with
    | .inl c => c :: decodeFrom none rest
    | .inr p => decodeFrom (some p) rest
  | some p, b :: rest =>
    if p.low ≤ b && b ≤ p.high then
      let bits := p.bits * 64 + (b - 0x80)
      if p.missing = 1 then bits :: decodeFrom none rest
      else decodeFrom (some ⟨p.missing - 1, bits, 0x80, 0xBF⟩) rest
    else
      match leadByte b with
      | .inl c => replacement :: c :: decodeFrom none rest
      | .inr p => replacement :: decodeFrom (some p) rest

def decodeUtf8 (bytes : List Nat) : List Nat :=
  decodeFrom none bytes

end SpriteStage.Text
