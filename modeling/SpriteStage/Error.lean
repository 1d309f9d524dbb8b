import SpriteStage.Lifecycle
import SpriteStage.Text.Quoted
/-! # Causes of failure -/
namespace SpriteStage

inductive IssueKind where
  | missing
  | jsonInvalid
  | modelAttributesType
  | modelType
  | stringType
  | stringTooLong
  | stringUnicode
  | dictType
  | intType
  | intParsing
  | intFromFloat
  | intParsingSize
  | finiteNumber
  | greaterThanEqual
  | floatType
  | floatParsing
  | boolParsing
deriving DecidableEq, Repr

def IssueKind.label : IssueKind → String
  | .missing => "missing"
  | .jsonInvalid => "json_invalid"
  | .modelAttributesType => "model_attributes_type"
  | .modelType => "model_type"
  | .stringType => "string_type"
  | .stringTooLong => "string_too_long"
  | .stringUnicode => "string_unicode"
  | .dictType => "dict_type"
  | .intType => "int_type"
  | .intParsing => "int_parsing"
  | .intFromFloat => "int_from_float"
  | .intParsingSize => "int_parsing_size"
  | .finiteNumber => "finite_number"
  | .greaterThanEqual => "greater_than_equal"
  | .floatType => "float_type"
  | .floatParsing => "float_parsing"
  | .boolParsing => "bool_parsing"

/-- An issue and the path to the field that has it. -/
structure Issue where
  kind : IssueKind
  path : List String
deriving DecidableEq, Repr

/-- What takes a step further down for each level of what it works on. -/
inductive Descent where
  | copying
  | telling
  | refusing
  | running
deriving DecidableEq, Repr

inductive Error where
  | unknownBlockType (typeId : String)
  | actorNotFound (actor : Int)
  | blockNotFound (block : String)
  | actorBusy (actor : Int)
  | undeclaredInput (typeId name : String)
  | notContainer (block typeId : String)
  | indexOutOfRange (length : Nat)
  | unknownFields (names : List String)
  | alreadyRegistered (typeId : String)
  /-- A value, as it is quoted, is no name of a category. -/
  | notCategory (quoted : String)
  | notNumeric (text : String)
  | integerTooLarge
  | quotientTooLarge
  | powerTooLarge
  | integerTooLong
  | nanToInteger
  | infinityToInteger
  | settingNotNumeric (name text : String)
  | notPhase (name : String)
  | notAllowed (trigger : Trigger) (phase : Phase)
  | notInitialised
  | disconnected (reason : String)
  /-- A document is nested deeper than documents are written. -/
  | tooDeep
  /-- A response is nested deeper than responses are written. -/
  | responseTooDeep
  /-- A text holds halves of characters, which have no encoding. -/
  | notEncodable (halves : Text.HalfRun)
  /-- A response holds a text with halves of characters. -/
  | responseNotEncodable (halves : Text.HalfRun)
  /-- There is no room for another step down. -/
  | noRoom (descent : Descent)
  | notFinite
  /-- Something else was wanted than a value of this type. -/
  | wrongType
  | invalid (issues : List Issue)
deriving DecidableEq, Repr

def halvesMessage (halves : Text.HalfRun) : String :=
  let place :=
    if halves.length = 1 then
      "character '\\u" ++ String.ofList (Text.hex 4 halves.first) ++ "' in position "
        ++ toString halves.start
    else
      "characters in position " ++ toString halves.start ++ "-"
        ++ toString (halves.start + halves.length - 1)
  "'utf-8' codec can't encode " ++ place ++ ": surrogates not allowed"

/-- What is said about a descent for which there is no room. -/
def Descent.remark : Descent → String
  | .copying => " while calling a Python object"
  | .refusing => " while encoding a JSON object"
  | .telling | .running => ""

def Error.message : Error → String
  | .unknownBlockType t => "Unknown block type: " ++ t
  | .actorNotFound a => "Actor not found: " ++ toString a
  | .blockNotFound b => "Block not found: " ++ b
  | .actorBusy a => "Actor " ++ toString a ++ " is running; stop it before editing"
  | .undeclaredInput t n => t ++ " has no input named " ++ Text.quoted n
  | .notContainer b t => "Block " ++ b ++ " (" ++ t ++ ") cannot hold children"
  | .indexOutOfRange n => "reorder indices must be within 0.." ++ toString ((n : Int) - 1)
  | .unknownFields ns => "Unknown actor fields: " ++ String.intercalate ", " ns
  | .alreadyRegistered t => "Block type already registered: " ++ t
  | .notCategory q => q ++ " is not a valid BlockCategory"
  | .notNumeric s => "could not convert string to float: " ++ Text.quoted s
  | .integerTooLarge => "int too large to convert to float"
  | .quotientTooLarge => "integer division result too large for a float"
  | .powerTooLarge => "(34, 'Numerical result out of range')"
  | .integerTooLong => "Exceeds the limit (4300 digits) for integer string conversion"
  | .nanToInteger => "cannot convert float NaN to integer"
  | .infinityToInteger => "cannot convert float infinity to integer"
  | .settingNotNumeric n s => n ++ " must be a number, got " ++ Text.quoted s
  | .notPhase n => Text.quoted n ++ " is not a valid RunPhase"
  | .notAllowed t p => "Can't " ++ t.title ++ " when in " ++ p.name ++ "."
  | .notInitialised => "Stage not initialized. Call init_stage() at startup."
  | .disconnected reason => reason
  | .tooDeep => "Maximum serialization depth exceeded"
  | .responseTooDeep =>
    "Error serializing to JSON: ValueError: Maximum serialization depth exceeded"
  | .notEncodable halves => halvesMessage halves
  | .responseNotEncodable halves =>
    "Error serializing to JSON: UnicodeEncodeError: " ++ halvesMessage halves
  | .noRoom descent => "maximum recursion depth exceeded" ++ descent.remark
  | .notFinite => "Out of range float values are not JSON compliant"
  | .wrongType => "a value of another type is required"
  | .invalid is => String.intercalate ", " (is.map (·.kind.label))

end SpriteStage
