import SpriteStage.Value
import SpriteStage.Text.Uppercase
/-! # Settings -/
namespace SpriteStage

structure Point (α : Type) where
  x : α
  y : α
deriving Repr

structure Settings (α : Type) where
  width : α
  height : α
  /-- Seconds between two frames of an animation. -/
  frameInterval : α
  /-- How many times faster than their nominal durations blocks run. -/
  speed : α
  maxTrail : Int
  /-- Where events are copied to, if anywhere. -/
  streamUrl : Option String
  logLevel : String
deriving Repr

variable {α : Type} [Scalar α]

/-- A speed brought between a tenth and five. -/
def clampSpeed (speed : α) : α :=
  Scalar.clamp (Scalar.decimal 1 1) (Scalar.whole 5) speed

namespace Settings

/-- The settings of a stage that nobody configured. -/
def standard : Settings α where
  width := Scalar.whole 800
  height := Scalar.whole 500
  frameInterval := Scalar.one / Scalar.whole 60
  speed := Scalar.one
  maxTrail := 500
  streamUrl := none
  logLevel := "INFO"

/-- The duration that a nominal number of seconds takes; never negative. -/
def scaled (s : Settings α) (seconds : α) : α :=
  Scalar.greatest Scalar.zero seconds / clampSpeed s.speed

/-- `scaled` for a number that may be an integer. -/
def scaledNumber (s : Settings α) (seconds : Number α) : Except Error α := do
  return (← (Number.greatest (.real Scalar.zero) seconds).toScalar) / clampSpeed s.speed

/-- On scalars both agree. -/
theorem scaledNumber_real (s : Settings α) (seconds : α) :
    s.scaledNumber (.real seconds) = .ok (s.scaled seconds) := by
  simp only [scaledNumber, Number.greatest_real]
  rfl

/-- The point of the stage nearest to a point. -/
def confine (s : Settings α) (p : Point α) : Point α where
  x := Scalar.clamp Scalar.zero s.width p.x
  y := Scalar.clamp Scalar.zero s.height p.y

/-- A number among named texts; a name that is absent or blank leaves the default. -/
def number (env : String → Option String) (name : String) (fallback : α) : Except Error α :=
  match env name with
  | none => .ok fallback
  | some text =>
    if text.toList.all Text.isBlank then .ok fallback
    else
      match Numeral.scalar? text with
      | some x => .ok x
      | none => .error (.settingNotNumeric name text)

def integerPart (x : α) : Except Error Int :=
  if Scalar.isFinite x then .ok (Scalar.truncate x)
  else if Scalar.eq x x then .error .infinityToInteger
  else .error .nanToInteger

def ofEnvironment (env : String → Option String) : Except Error (Settings α) := do
  let width ← number env "BLOCKSTAGE_STAGE_WIDTH" (Scalar.whole 800)
  let height ← number env "BLOCKSTAGE_STAGE_HEIGHT" (Scalar.whole 500)
  let frameInterval ← number env "BLOCKSTAGE_FRAME_INTERVAL" (Scalar.one / Scalar.whole 60)
  let speed ← number env "BLOCKSTAGE_SPEED" Scalar.one
  let points : α ← number env "BLOCKSTAGE_MAX_TRAIL_POINTS" (Scalar.whole 500)
  let kept ← integerPart points
  return {
    width, height, frameInterval
    speed := clampSpeed speed
    maxTrail := max 1 kept
    streamUrl := (env "BLOCKSTAGE_REDIS_URL").filter (· != "")
    logLevel := Text.uppercase ((env "BLOCKSTAGE_LOG_LEVEL").getD "INFO") }

end Settings

end SpriteStage
