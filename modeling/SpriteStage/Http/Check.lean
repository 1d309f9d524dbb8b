import SpriteStage.Actor.Request
import SpriteStage.Http.Finding
import SpriteStage.Json.Encoding
import SpriteStage.Json.Reader
import SpriteStage.Store.Casting
/-! # Checking requests -/
namespace SpriteStage.Http

/-- A checked part of a request, or all that was found wrong with it. -/
abbrev Checked (α β : Type) := Except (List (Finding α)) β

def Checked.ofField {α β : Type} (path : List String) (input : Value α) :
    Except IssueKind β → Checked α β
  | .ok v => .ok v
  | .error kind => .error [⟨⟨kind, path⟩, input⟩]

/-- Two checked parts; if something is wrong with either, all that is wrong with both. -/
def Checked.both {α β γ : Type} : Checked α β → Checked α γ → Checked α (β × γ)
  | .ok b, .ok c => .ok (b, c)
  | .error is, .ok _ => .error is
  | .ok _, .error js => .error js
  | .error is, .error js => .error (is ++ js)

variable {α : Type} [Scalar α]

/-- The whole number that a scalar is, if it lies strictly between the powers that bound 64 bits. -/
def wholeScalar (x : α) : Except IssueKind Int :=
  if !Scalar.isFinite x then .error .finiteNumber
  else if !Scalar.isWhole x then .error .intFromFloat
  else
    let n := Scalar.floor x
    if n.natAbs < Nat.pow 2 63 then .ok n else .error .intParsingSize

def wholeText (s : String) : Except IssueKind Int := do
  Numeral.lenientInteger (← encodable s)

def whole : Value α → Except IssueKind Int
  | .int n => .ok n
  | .bool b => .ok (Value.ofBool b)
  | .real x => wholeScalar x
  | .text s => wholeText s
  | _ => .error .intType

def natural (v : Value α) : Except IssueKind Int := do
  let n ← whole v
  if n < 0 then .error .greaterThanEqual else .ok n

/-- The texts that stand for true and for false, in any case. -/
def flag (s : String) : Except IssueKind Bool :=
  let word := String.ofList (s.toList.map Char.toLower)
  if ["1", "true", "t", "yes", "y", "on"].contains word then .ok true
  else if ["0", "false", "f", "no", "n", "off"].contains word then .ok false
  else .error .boolParsing

def shortText (limit : Nat) (v : Value α) : Except IssueKind String := do
  let s ← encodable (← v.string)
  if limit < Text.length s then .error .stringTooLong else .ok s

/-- A field that has to be there; where it is missing the whole body is at fault. -/
def required {β : Type} (fs : Fields α) (name : String) (check : Value α → Except IssueKind β) :
    Checked α β :=
  match fs.get? name with
  | some v => Checked.ofField ["body", name] v (check v)
  | none => Checked.ofField ["body", name] (.object fs) (.error .missing)

def optional {β : Type} (fs : Fields α) (name : String) (absent : β)
    (check : Value α → Except IssueKind β) : Checked α β :=
  match fs.get? name with
  | some v => Checked.ofField ["body", name] v (check v)
  | none => .ok absent

def nullable {β : Type} (check : Value α → Except IssueKind β) (v : Value α) :
    Except IssueKind (Option β) :=
  match v with
  | .null => .ok none
  | v => (check v).map some

inductive Body (α : Type) where
  | empty
  | document (v : Value α)
  | raw (bytes : List Nat)
deriving Repr

/-- The document in a body, if there is one; no bytes are no body. Bytes that are no text cannot be read,
nor can a document that is nested too deep. -/
def Body.read : Body α → Except Json.Flaw (Option (Value α))
  | .empty => .ok none
  | .document v => if Json.nestingLimit < v.depth then .error .unreadable else .ok (some v)
  | .raw bytes =>
    if bytes.isEmpty then .ok none
    else
      match Json.decode? bytes with
      | none => .error .unreadable
      | some codes => (Json.read Json.nestingLimit (Text.spellAll codes)).map some

/-- The fields of a document that has to be an object. -/
def bodyFields : Option (Value α) → Checked α (Fields α)
  | some (.object fs) => .ok fs
  | some v => .error [⟨⟨.modelAttributesType, ["body"]⟩, v⟩]
  | none => .error [⟨⟨.missing, ["body"]⟩, .null⟩]

def actorId (part : String) : Checked α Int :=
  Checked.ofField ["path", "actor_id"] (.text part) (wholeText part)

def casting (fs : Fields α) : Checked α (Casting α) := do
  let text (v : Option String) : Value α := (v.map Value.text).getD .null
  let real (v : Option α) : Value α := (v.map Value.real).getD .null
  let name := optional fs "display_name" none (nullable (shortText longestName))
  let x := optional fs "x" none (nullable Value.coordinate)
  let y := optional fs "y" none (nullable Value.coordinate)
  let look := optional fs "visual_tag" none (nullable Value.string)
  let (name, x, y, look) ← name.both (x.both (y.both look))
  return { name := text name, x := real x, y := real y, look := text look }

/-- The request for a new block: its type, its inputs and the container it goes into. -/
def submission (fs : Fields α) : Checked α (String × Fields α × Option String) :=
  (required fs "type_id" Value.string).both
    ((optional fs "inputs" [] Value.namedValues).both
      (optional fs "parent_id" none (nullable Value.string)))

def inputEdit (fs : Fields α) : Checked α (String × Value α) :=
  (required fs "name" Value.string).both (.ok ((fs.get? "value").getD .null))

def reordering (fs : Fields α) : Checked α (Int × Int) :=
  (required fs "from_index" natural).both (required fs "to_index" natural)

end SpriteStage.Http
