import SpriteStage.Notice
import SpriteStage.Value
/-!
# Block types

A block type declares the inputs its blocks take. Raw input values are checked against the
declaration only when a block runs: a number input takes numbers and numerals and falls back to
its default on anything else, and a text input takes the text of any value.
-/
namespace SpriteStage

inductive Category where
  | motion
  | looks
deriving DecidableEq, Repr

namespace Category

def name : Category → String
  | .motion => "motion"
  | .looks => "looks"

def ofName (s : String) : Except Error Category :=
  match [motion, looks].find? (·.name == s) with
  | some c => .ok c
  | none => .error (.notCategory (Text.quoted s))

def ofValue {α : Type} [Scalar α] : Value α → Except Error Category
  | .text s => ofName s
  | v => .error (.notCategory v.quoted)

end Category

inductive InputKind where
  | number
  | text
  /-- A kind that only the editor knows; its values are taken as texts. -/
  | other (name : String)
deriving DecidableEq, Repr

namespace InputKind

def name : InputKind → String
  | .number => "number"
  | .text => "text"
  | .other name => name

def ofName (s : String) : InputKind :=
  if s = "number" then .number else if s = "text" then .text else .other s

end InputKind

/-- The declaration of one input. A bound that is null is no bound. -/
structure InputSpec (α : Type) where
  name : String
  kind : InputKind
  fallback : Value α
  min : Value α := .null
  max : Value α := .null
deriving Repr

structure BlockType (α : Type) where
  id : String
  category : Category
  label : String
  inputs : List (InputSpec α) := []
  isContainer : Bool := false
  unit : String := ""
deriving Repr

namespace Value

variable {α : Type} [Scalar α]

/-- The number that a text spells, an integer where it can be read as one. -/
def numeral? (s : String) : Option (Number α) :=
  let cs := Text.trim Text.isBlank s.toList
  match Numeral.integer? cs with
  | some n => some (.int n)
  | none => (Numeral.decimal? cs).map fun n => .real n.toScalar

/-- The finite number that a raw input value gives; Booleans give none. -/
def inputNumber? (v : Value α) : Option (Number α) :=
  let found : Option (Number α) :=
    match v with
    | .int n => some (.int n)
    | .real x => some (.real x)
    | .text s => numeral? s
    | _ => none
  found.filter fun
    | .int _ => true
    | .real x => Scalar.isFinite x

end Value

namespace InputSpec

variable {α : Type} [Scalar α]

/-- `v`, or the lower bound if `v` is below it. -/
def raise (s : InputSpec α) (v : Value α) : Except Error (Value α) :=
  match s.min with
  | .null => .ok v
  | low =>
    match v.lt? low with
    | some below => .ok (if below then low else v)
    | none => .error .wrongType

/-- `v`, or the upper bound if `v` is above it. -/
def lower (s : InputSpec α) (v : Value α) : Except Error (Value α) :=
  match s.max with
  | .null => .ok v
  | high =>
    match high.lt? v with
    | some above => .ok (if above then high else v)
    | none => .error .wrongType

def bound (s : InputSpec α) (v : Value α) : Except Error (Value α) := do
  s.lower (← s.raise v)

/-- The number that a raw value gives to a number input, and a notice if the default had to stand
in. -/
def coerce (s : InputSpec α) (v : Value α) : List (Notice α) × Except Error (Value α) :=
  match v.inputNumber? with
  | some n => ([], s.bound n.toValue)
  | none => ([.notNumeric s.name v s.fallback], s.bound s.fallback)

/-- The text that a raw value gives to a text input. -/
def display (s : InputSpec α) (v : Value α) : Except Error (Value α) :=
  match v with
  | .null => .ok s.fallback
  | v => v.display.map .text

def resolve (s : InputSpec α) (v : Value α) : List (Notice α) × Except Error (Value α) :=
  match s.kind with
  | .number => s.coerce v
  | .text | .other _ => ([], s.display v)

end InputSpec

namespace BlockType

variable {α : Type} [Scalar α]

def input? (t : BlockType α) (name : String) : Option (InputSpec α) :=
  t.inputs.find? (·.name == name)

/-- The defaults of all inputs; of two inputs with one name the later counts. -/
def defaults (t : BlockType α) : Fields α :=
  t.inputs.foldl (fun fs s => fs.put s.name s.fallback) []

def resolveInto (raw : Fields α) :
    List (InputSpec α) → Fields α → List (Notice α) × Except Error (Fields α)
  | [], done => ([], .ok done)
  | s :: rest, done =>
    match s.resolve ((raw.get? s.name).getD s.fallback) with
    | (notices, .error e) => (notices, .error e)
    | (notices, .ok v) =>
      let (more, result) := resolveInto raw rest (done.put s.name v)
      (notices ++ more, result)

/-- The values that a block of this type runs with, given its raw input values. -/
def resolve (t : BlockType α) (raw : Fields α) : List (Notice α) × Except Error (Fields α) :=
  resolveInto raw t.inputs []

end BlockType

end SpriteStage
