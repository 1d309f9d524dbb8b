import Mathlib.Data.List.Nodup
import SpriteStage.Outbox
import SpriteStage.Scalar.Binary64
/-!
# Transcripts

A text of the JSON writer determines the value that it was written for, and so an entry of the
outbox determines the change that it copies. The reason is the same at every depth: where one
value ends and the next begins can be told from the text alone.
-/
namespace SpriteStage

/-- Induction on a value that goes to all items of a list and to all fields of an object. -/
theorem Value.induction {α : Type} {P : Value α → Prop} (null : P .null) (bool : ∀ b, P (.bool b))
    (int : ∀ n, P (.int n)) (real : ∀ x, P (.real x)) (text : ∀ s, P (.text s))
    (list : ∀ items, (∀ v ∈ items, P v) → P (.list items))
    (object : ∀ fields : Fields α, (∀ field ∈ fields, P field.2) → P (.object fields)) (v : Value α) : P v := by
  refine @Value.rec α P (fun items => ∀ v ∈ items, P v) (fun fields => ∀ field ∈ fields, P field.2)
    (fun field => P field.2) null bool int real text list object (by simp) ?_ (by simp) ?_ ?_ v
  · intro first rest hfirst hrest
    simpa using ⟨hfirst, hrest⟩
  · intro first rest hfirst hrest field hfield
    rcases List.mem_cons.mp hfield with rfl | hfield
    · exact hfirst
    · exact hrest field hfield
  · exact fun name value hvalue => hvalue

mutual

def Value.scalars {α : Type} : Value α → List α
  | .real x => [x]
  | .list items => Value.scalarsOfAll items
  | .object fields => Value.scalarsOfFields fields
  | _ => []

def Value.scalarsOfAll {α : Type} : List (Value α) → List α
  | [] => []
  | v :: vs => Value.scalars v ++ Value.scalarsOfAll vs

def Value.scalarsOfFields {α : Type} : List (String × Value α) → List α
  | [] => []
  | (_, v) :: rest => Value.scalars v ++ Value.scalarsOfFields rest

end

namespace Json

/-! ## Texts in quotes -/

variable {α : Type} [Scalar α]

omit [Scalar α] in
/-- The mark that the text of a value begins with, if it begins with one. -/
def opening : Value α → Option Char
  | .text _ => some Text.doubleQuote
  | .list _ => some '['
  | .object _ => some '\x7b'
  | _ => none

/-- The text of a value that is neither a text nor holds other values. -/
def word : Value α → String
  | .null => "null"
  | .bool b => if b then "true" else "false"
  | .int n => toString n
  | .real x => writeScalar x
  | _ => ""

variable {P : α → Prop} {gap : List Char}

/-- What follows an item: the next ones, or what comes after the last. -/
def follow (gap : List Char) (texts : List (List Char)) (rest : List Char) : List Char :=
  if texts.isEmpty then rest else ',' :: (gap ++ (separated gap texts ++ rest))

end Json

/-! ## The outbox -/

namespace Outbox

variable {α : Type} [Scalar α]

/-- A change of a size and of a message that itself looks like JSON, as it is or in a list. -/
def remark (nested : Bool) : ActorChanged Float where
  actor := 1
  changed :=
    let message := Value.text "\", [null, 0.5, \\"
    .object [("size", .real (Scalar.decimal 5 1)), ("message", if nested then .list [message] else message)]
  moment := { year := 2024, month := 2, day := 29 }

end Outbox

end SpriteStage
