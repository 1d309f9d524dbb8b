import SpriteStage.Actor
import SpriteStage.Actor.Request
import SpriteStage.Catalog
import SpriteStage.Catalog.BlockType
import SpriteStage.Collision
import SpriteStage.Decimal.Fixed
import SpriteStage.Decimal.Layout
import SpriteStage.Decimal.Rounding
import SpriteStage.Decimal.Shortest
import SpriteStage.Document
import SpriteStage.Engine
import SpriteStage.Engine.Checkpoint
import SpriteStage.Engine.Instruction
import SpriteStage.Engine.Run
import SpriteStage.Engine.World
import SpriteStage.Error
import SpriteStage.Http.Check
import SpriteStage.Http.Endpoint
import SpriteStage.Http.Finding
import SpriteStage.Http.Response
import SpriteStage.Http.Service
import SpriteStage.Http.Target
import SpriteStage.Hub
import SpriteStage.Hub.Relay
import SpriteStage.Json.Encoding
import SpriteStage.Json.Reader
import SpriteStage.Json.Writer
import SpriteStage.Lifecycle
import SpriteStage.Notice
import SpriteStage.Number
import SpriteStage.Numeral
import SpriteStage.Numeral.Lenient
import SpriteStage.Outbox
import SpriteStage.Program
import SpriteStage.Program.Copy
import SpriteStage.Program.Draft
import SpriteStage.Program.Edit
import SpriteStage.Registry
import SpriteStage.Scalar
import SpriteStage.Scalar.Binary64
import SpriteStage.Scalar.Rational
import SpriteStage.Scalar.Root
import SpriteStage.Settings
import SpriteStage.Signal
import SpriteStage.Stage
import SpriteStage.Stage.Control
import SpriteStage.Stage.Editing
import SpriteStage.Stage.Manual
import SpriteStage.Stage.Schedule
import SpriteStage.Store
import SpriteStage.Store.Casting
import SpriteStage.Subscription
import SpriteStage.Text.Blank
import SpriteStage.Text.Digit
import SpriteStage.Text.Printable
import SpriteStage.Text.Quoted
import SpriteStage.Text.Surrogate
import SpriteStage.Text.Uppercase
import SpriteStage.Text.Utf8
import SpriteStage.Timestamp
import SpriteStage.Tween
import SpriteStage.Value
import SpriteStage.Value.Check
import SpriteStage.Proofs.BinaryOrder
import SpriteStage.Proofs.Course
import SpriteStage.Proofs.Clock
import SpriteStage.Proofs.BinaryTime
import SpriteStage.Proofs.Records
import SpriteStage.Proofs.Passes
import SpriteStage.Proofs.Conduct
import SpriteStage.Proofs.Checkpoints
import SpriteStage.Proofs.Revision
import SpriteStage.Proofs.Roster
import SpriteStage.Proofs.Stopping
import SpriteStage.Proofs.Lifecycle
import SpriteStage.Proofs.Standstill
import SpriteStage.Proofs.Edits
import SpriteStage.Proofs.Ownership
import SpriteStage.Proofs.Heritage
import SpriteStage.Proofs.Unrolling
import SpriteStage.Proofs.Execution
import SpriteStage.Proofs.Doings
import SpriteStage.Proofs.Exchange
import SpriteStage.Proofs.Landmarks
import SpriteStage.Proofs.Tour
import SpriteStage.Proofs.Updates
import SpriteStage.Proofs.Conservation
import SpriteStage.Proofs.Rendering
import SpriteStage.Proofs.Feed
import SpriteStage.Proofs.Identity
import SpriteStage.Proofs.Solo
import SpriteStage.Proofs.Isolation
import SpriteStage.Proofs.Refusals
import SpriteStage.Proofs.Matching
import SpriteStage.Proofs.Cancellation
import SpriteStage.Proofs.Outcome
import SpriteStage.Proofs.Timing
import SpriteStage.Proofs.Legs
import SpriteStage.Proofs.Delivery
import SpriteStage.Proofs.Transcript
import SpriteStage.Proofs.Resolution
import SpriteStage.Proofs.Soundness
import SpriteStage.Proofs.BinaryShare
import SpriteStage.Proofs.RationalTime
import SpriteStage.Proofs.Completion
import SpriteStage.Proofs.Requests
import SpriteStage.Proofs.Renewal
import SpriteStage.Proofs.Starting
import SpriteStage.Proofs.Succession
import SpriteStage.Proofs.Confinement
import SpriteStage.Proofs.Spelling
import SpriteStage.Proofs.Magnitude
import SpriteStage.Proofs.BinaryMagnitude
import SpriteStage.Proofs.Schema
import SpriteStage.Proofs.Grafting
import SpriteStage.Proofs.Editability
import SpriteStage.Proofs.Duplication
import SpriteStage.Proofs.Retouching
import SpriteStage.Proofs.Undoing
import SpriteStage.Proofs.Locality
import SpriteStage.Proofs.Merging
import SpriteStage.Proofs.Exact
import SpriteStage.Proofs.Frames
import SpriteStage.Proofs.Tracks
import SpriteStage.Proofs.Sizes
import SpriteStage.Proofs.Costs
import SpriteStage.Proofs.Bills
import SpriteStage.Proofs.ProgramTime
import SpriteStage.Proofs.Handles
