import SpriteStage.Number
import SpriteStage.Numeral
import SpriteStage.Text.Quoted
/-!
# Free values

Editors may put anything into a block's inputs: the block keeps it as it came and its meaning is
decided when the block runs. A free value is what a JSON document can hold, with integers of any
size kept apart from scalars.
-/
namespace SpriteStage

/-- A value as an editor or a document gives it. Objects keep the order of their fields. -/
inductive Value (α : Type) where
  | null
  | bool (b : Bool)
  | int (n : Int)
  | real (x : α)
  | text (s : String)
  | list (items : List (Value α))
  | object (fields : List (String × Value α))
deriving Inhabited, Repr

/-- Named values in the order in which the names first came. -/
abbrev Fields (α : Type) := List (String × Value α)

namespace Fields

variable {α : Type}

def get? (fs : Fields α) (name : String) : Option (Value α) :=
  fs.lookup name

/-- Writes a value under a name, in its old place or at the end. -/
def put (fs : Fields α) (name : String) (value : Value α) : Fields α :=
  match fs with
  | [] => [(name, value)]
  | (n, v) :: rest => if n = name then (n, value) :: rest else (n, v) :: put rest name value

def names (fs : Fields α) : List String :=
  fs.map (·.1)

end Fields

namespace Number

variable {α : Type}

def toValue : Number α → Value α
  | .int n => .int n
  | .real x => .real x

end Number

namespace Value

variable {α : Type} [Scalar α]

/-- A Boolean counts as one or zero where a number is wanted. -/
def ofBool (b : Bool) : Int :=
  if b then 1 else 0

/-- The number that a value is, Booleans included. -/
def number? : Value α → Option (Number α)
  | .bool b => some (.int (ofBool b))
  | .int n => some (.int n)
  | .real x => some (.real x)
  | _ => none

def text? {α : Type} : Value α → Option String
  | .text s => some s
  | _ => none

def fields? {α : Type} : Value α → Option (Fields α)
  | .object fs => some fs
  | _ => none

mutual

/-- Equality of values: numbers by what they are, lists item by item, objects name by name. -/
def eq : Value α → Value α → Bool
  | .null, .null => true
  | .text s, .text t => s == t
  | .list xs, .list ys => eqAll xs ys
  | .object fs, .object gs => fs.length == gs.length && eqFields fs gs
  | a, b =>
    match a.number?, b.number? with
    | some m, some n => m.eq n
    | _, _ => false

def eqAll : List (Value α) → List (Value α) → Bool
  | [], [] => true
  | x :: xs, y :: ys => eq x y && eqAll xs ys
  | _, _ => false

/-- Whether each of some fields stands in an object with an equal value. -/
def eqFields : List (String × Value α) → Fields α → Bool
  | [], _ => true
  | (name, v) :: rest, gs => (gs.get? name).any (eq v ·) && eqFields rest gs

end

mutual

/-- Comparison of two numbers, two texts or two lists; other pairs do not compare. -/
def lt? : Value α → Value α → Option Bool
  | .text s, .text t => some (Text.before s t)
  | .list xs, .list ys => ltAll? xs ys
  | a, b =>
    match a.number?, b.number? with
    | some m, some n => some (m.lt n)
    | _, _ => none

/-- Comparison of two lists by the first items that differ; a list comes after its beginnings. -/
def ltAll? : List (Value α) → List (Value α) → Option Bool
  | x :: xs, y :: ys => if eq x y then ltAll? xs ys else lt? x y
  | [], ys => some (!ys.isEmpty)
  | _ :: _, [] => some false

end

/-- The scalar that a value stands for: a number, or a text that spells one. -/
def toScalar (v : Value α) : Except Error α :=
  match v with
  | .text s =>
    match Numeral.scalar? s with
    | some x => .ok x
    | none => .error (.notNumeric s)
  | v =>
    match v.number? with
    | some n => n.toScalar
    | none => .error .wrongType

/-- Whether a value counts as given: not null, false, zero or empty. -/
def isGiven : Value α → Bool
  | .null => false
  | .bool b => b
  | .int n => n != 0
  | .real x => !Scalar.eq x Scalar.zero
  | .text s => s != ""
  | .list items => !items.isEmpty
  | .object fields => !fields.isEmpty

mutual

/-- A value as it is shown inside a message: texts are quoted. -/
def quoted : Value α → String
  | .null => "None"
  | .bool b => if b then "True" else "False"
  | .int n => toString n
  | .real x => Scalar.text x
  | .text s => Text.quoted s
  | .list items => "[" ++ String.intercalate ", " (quotedAll items) ++ "]"
  | .object fields => "\x7b" ++ String.intercalate ", " (quotedFields fields) ++ "\x7d"

def quotedAll : List (Value α) → List String
  | [] => []
  | v :: vs => quoted v :: quotedAll vs

def quotedFields : List (String × Value α) → List String
  | [] => []
  | (name, v) :: rest => (Text.quoted name ++ ": " ++ quoted v) :: quotedFields rest

end

mutual

/-- Whether a value holds an integer with more digits than are ever written out. -/
def isTooLong : Value α → Bool
  | .int n => decide (10 ^ Numeral.digitLimit ≤ n.natAbs)
  | .list items => anyTooLong items
  | .object fields => anyFieldTooLong fields
  | _ => false

def anyTooLong : List (Value α) → Bool
  | [] => false
  | v :: vs => isTooLong v || anyTooLong vs

def anyFieldTooLong : List (String × Value α) → Bool
  | [] => false
  | (_, v) :: rest => isTooLong v || anyFieldTooLong rest

end

/-- A value as it is shown on its own: a text is not quoted. -/
def shown : Value α → String
  | .text s => s
  | v => v.quoted

/-- The text that a value becomes where a text is wanted. -/
def display (v : Value α) : Except Error String :=
  if v.isTooLong then .error .integerTooLong else .ok v.shown

mutual

/-- The value as a document shows it: a scalar that is not finite becomes null. -/
def finite : Value α → Value α
  | .real x => if Scalar.isFinite x then .real x else .null
  | .list items => .list (finiteAll items)
  | .object fields => .object (finiteFields fields)
  | v => v

def finiteAll : List (Value α) → List (Value α)
  | [] => []
  | v :: vs => finite v :: finiteAll vs

def finiteFields : List (String × Value α) → List (String × Value α)
  | [] => []
  | (name, v) :: rest => (name, finite v) :: finiteFields rest

end

mutual

def isFinite : Value α → Bool
  | .real x => Scalar.isFinite x
  | .list items => areFinite items
  | .object fields => haveFinite fields
  | _ => true

def areFinite : List (Value α) → Bool
  | [] => true
  | v :: vs => isFinite v && areFinite vs

def haveFinite : List (String × Value α) → Bool
  | [] => true
  | (_, v) :: rest => isFinite v && haveFinite rest

end

mutual

/-- How many lists and objects stand around the innermost value, at most. -/
def depth {α : Type} : Value α → Nat
  | .list items => depthOfAll items + 1
  | .object fields => depthOfFields fields + 1
  | _ => 0

def depthOfAll {α : Type} : List (Value α) → Nat
  | [] => 0
  | v :: vs => max (depth v) (depthOfAll vs)

def depthOfFields {α : Type} : List (String × Value α) → Nat
  | [] => 0
  | (_, v) :: rest => max (depth v) (depthOfFields rest)

end

end Value

end SpriteStage
