import SpriteStage.Text.Surrogate
import SpriteStage.Value
/-!
# Reading JSON

A reader of JSON documents that also takes the names `NaN`, `Infinity` and `-Infinity`. Of several
fields with one name the last value counts, in the place of the first. The first such thing in the
text decides.
-/
namespace SpriteStage.Json

inductive Flaw where
  | malformed
  | unreadable
deriving DecidableEq, Repr

/-- How many brackets may be open at a time in a document that arrives. -/
def nestingLimit : Nat := 965

/-- White space between the parts of a document. -/
def isGap (c : Char) : Bool :=
  c == ' ' || c == '\t' || c == '\n' || c == '\r'

def skip (cs : List Char) : List Char := cs.dropWhile isGap

def hexDigit? (c : Char) : Option Nat :=
  if c.isDigit then some (c.toNat - 48)
  else if 'a' ≤ c && c ≤ 'f' then some (c.toNat - 87)
  else if 'A' ≤ c && c ≤ 'F' then some (c.toNat - 55)
  else none

def unit? (a b c d : Char) : Option Nat := do
  return 4096 * (← hexDigit? a) + 256 * (← hexDigit? b) + 16 * (← hexDigit? c) + (← hexDigit? d)

def short? : Char → Option Char
  | '\x22' => some '\x22'
  | '\\' => some '\\'
  | '/' => some '/'
  | 'b' => some '\x08'
  | 'f' => some '\x0c'
  | 'n' => some '\n'
  | 'r' => some '\r'
  | 't' => some '\t'
  | _ => none

/-- Puts the characters that spell a code in front of what was read, the last one first. -/
def readCode (n : Nat) (done : List Char) : List Char :=
  (Text.spell n).reverse ++ done

/-- Reads a string after its opening quote; `done` holds what was read, the last character first. -/
def readText : (fuel : Nat) → List Char → (done : List Char) → Except Flaw (String × List Char)
  | 0, _, _ => .error .malformed
  | _ + 1, [], _ => .error .malformed
  | fuel + 1, '\\' :: 'u' :: a :: b :: c :: d :: rest, done =>
    match unit? a b c d with
    | none => .error .malformed
    | some high =>
      if Text.isHighHalf high then
        match rest with
        | '\\' :: 'u' :: a :: b :: c :: d :: rest' =>
          match unit? a b c d with
          | none => .error .malformed
          | some low =>
            if Text.isLowHalf low then readText fuel rest' (readCode (Text.joinHalves high low) done)
            else readText fuel rest (readCode high done)
        | _ => readText fuel rest (readCode high done)
      else readText fuel rest (readCode high done)
  | fuel + 1, '\\' :: c :: rest, done =>
    match short? c with
    | some c => readText fuel rest (c :: done)
    | none => .error .malformed
  | fuel + 1, c :: rest, done =>
    if c = '\x22' then .ok (String.ofList done.reverse, rest)
    else if c.toNat < 0x20 || c = '\\' then .error .malformed
    else readText fuel rest (c :: done)

def takeDigits (cs : List Char) : List Nat × List Char :=
  ((cs.takeWhile Char.isDigit).map (·.toNat - 48), cs.dropWhile Char.isDigit)

/-- The digits after a point, if there is one followed by a digit. -/
def fraction (cs : List Char) : Option (List Nat) × List Char :=
  match cs with
  | '.' :: rest =>
    match takeDigits rest with
    | ([], _) => (none, cs)
    | (ds, rest) => (some ds, rest)
  | _ => (none, cs)

/-- The exponent after its mark, if there is one followed by digits. -/
def exponent (cs : List Char) : Option Int × List Char :=
  match cs with
  | c :: rest =>
    if c = 'e' || c = 'E' then
      let (negative, body) := Numeral.sign rest
      match takeDigits body with
      | ([], _) => (none, cs)
      | (ds, rest) =>
        let n : Int := Numeral.ofDigits ds
        (some (if negative then -n else n), rest)
    else (none, cs)
  | [] => (none, cs)

variable {α : Type} [Scalar α]

/-- Reads a number; its integer part has no zero in front of other digits. An integer must not be
longer than integers are read. -/
def readNumber (cs : List Char) : Except Flaw (Value α × List Char) :=
  let (negative, body) := match cs with
    | '-' :: rest => (true, rest)
    | _ => (false, cs)
  let (whole, rest) : List Nat × List Char :=
    match body with
    | '0' :: rest => ([0], rest)
    | _ => takeDigits body
  if whole.isEmpty then .error .malformed
  else
    let (places, rest) := fraction rest
    let (e, rest) := exponent rest
    match places, e with
    | none, none =>
      if Numeral.digitLimit < whole.length then .error .unreadable
      else
        let n : Int := Numeral.ofDigits whole
        .ok (.int (if negative then -n else n), rest)
    | _, _ =>
      let ds := places.getD []
      let m := Numeral.ofDigits (whole ++ ds)
      .ok (.real (Scalar.ofDecimal negative m (e.getD 0 - ds.length)), rest)

/-- The rest of a list of characters that starts with a word. -/
def after? (word : String) (cs : List Char) : Option (List Char) :=
  if word.toList.isPrefixOf cs then some (cs.drop word.length) else none

def words : List (String × Value α) :=
  [("null", .null), ("true", .bool true), ("false", .bool false), ("NaN", .real Scalar.nan),
    ("Infinity", .real Scalar.infinity), ("-Infinity", .real (-Scalar.infinity))]

def readWord (cs : List Char) : Option (Value α × List Char) :=
  words.findSome? fun (word, v) => (after? word cs).map (v, ·)

mutual

/-- Reads a value at the start of the characters; `room` more brackets may be opened. -/
def readValue : (fuel : Nat) → (room : Nat) → List Char → Except Flaw (Value α × List Char)
  | 0, _, _ => .error .malformed
  | fuel + 1, room, cs =>
    match cs with
    | '\x22' :: rest => (readText (rest.length + 1) rest []).map fun (s, rest) => (.text s, rest)
    | '[' :: rest =>
      if room = 0 then .error .unreadable
      else
        match skip rest with
        | ']' :: rest => .ok (.list [], rest)
        | rest => readItems fuel (room - 1) rest []
    | '\x7b' :: rest =>
      if room = 0 then .error .unreadable
      else
        match skip rest with
        | '\x7d' :: rest => .ok (.object [], rest)
        | rest => readFields fuel (room - 1) rest []
    | _ =>
      match readWord cs with
      | some found => .ok found
      | none => readNumber cs

/-- Reads the items of a list up to its end; `done` holds those read, the last one first. -/
def readItems : (fuel : Nat) → (room : Nat) → List Char → (done : List (Value α)) →
    Except Flaw (Value α × List Char)
  | 0, _, _, _ => .error .malformed
  | fuel + 1, room, cs, done => do
    let (v, rest) ← readValue fuel room cs
    match skip rest with
    | ',' :: rest => readItems fuel room (skip rest) (v :: done)
    | ']' :: rest => .ok (.list (v :: done).reverse, rest)
    | _ => .error .malformed

/-- Reads the fields of an object up to its end into `done`. -/
def readFields : (fuel : Nat) → (room : Nat) → List Char → (done : Fields α) →
    Except Flaw (Value α × List Char)
  | 0, _, _, _ => .error .malformed
  | fuel + 1, room, cs, done =>
    match cs with
    | '\x22' :: rest => do
      let (name, rest) ← readText (rest.length + 1) rest []
      match skip rest with
      | ':' :: rest =>
        let (v, rest) ← readValue fuel room (skip rest)
        match skip rest with
        | ',' :: rest => readFields fuel room (skip rest) (done.put name v)
        | '\x7d' :: rest => .ok (.object (done.put name v), rest)
        | _ => .error .malformed
      | _ => .error .malformed
    | _ => .error .malformed

end

/-- The value of a whole document with at most `limit` open brackets. A bracket takes two calls to read
and everything else one, so twice the number of characters bounds the calls. -/
def read (limit : Nat) (cs : List Char) : Except Flaw (Value α) := do
  let (v, rest) ← readValue (2 * cs.length + 1) limit (skip cs)
  if (skip rest).isEmpty then .ok v else .error .malformed

end SpriteStage.Json
