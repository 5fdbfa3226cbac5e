import SessionPipeline.Chain.Arena
import SessionPipeline.Chain.Dispatch
import SessionPipeline.Chain.Edit
import SessionPipeline.Chain.Template
import SessionPipeline.Config.Basic
import SessionPipeline.Config.File
import SessionPipeline.Config.Template
import SessionPipeline.Decimal.Binary64
import SessionPipeline.Echo
import SessionPipeline.Effect
import SessionPipeline.Event
import SessionPipeline.Execution
import SessionPipeline.Factory.Basic
import SessionPipeline.Factory.Registry
import SessionPipeline.Failure
import SessionPipeline.Filter.Basic
import SessionPipeline.Filter.Codec
import SessionPipeline.Filter.Delivery
import SessionPipeline.Filter.Hooks
import SessionPipeline.Json.Basic
import SessionPipeline.Json.Reader
import SessionPipeline.Json.Text
import SessionPipeline.Logging.Glob
import SessionPipeline.Logging.Layout
import SessionPipeline.Logging.Level
import SessionPipeline.Logging.Pattern.Matching
import SessionPipeline.Logging.Pattern.Reader
import SessionPipeline.Logging.Pattern.Syntax
import SessionPipeline.Logging.Record
import SessionPipeline.Logging.Registry
import SessionPipeline.Logging.Sink
import SessionPipeline.Logging.Timestamp
import SessionPipeline.Main
import SessionPipeline.Message
import SessionPipeline.Queue.Cursor
import SessionPipeline.Queue.Ring
import SessionPipeline.Queue.Shared
import SessionPipeline.Scenario.Actor
import SessionPipeline.Scenario.Basic
import SessionPipeline.Scenario.Run
import SessionPipeline.Script
import SessionPipeline.Session.Basic
import SessionPipeline.Session.Completion
import SessionPipeline.Session.Life
import SessionPipeline.Session.Request
import SessionPipeline.Session.State
import SessionPipeline.Store
import SessionPipeline.Wire.Bytes
import SessionPipeline.Wire.Frame
import SessionPipeline.Wire.Hex
import SessionPipeline.Wire.VarInt
import SessionPipeline.Proofs.Wire.VarInt
import SessionPipeline.Proofs.Wire.Frame
import SessionPipeline.Proofs.Wire.RoundTrip
import SessionPipeline.Proofs.Effect.Basic
import SessionPipeline.Proofs.Filter.CodecStream
import SessionPipeline.Proofs.Chain.Arena
import SessionPipeline.Proofs.Chain.Consistency
import SessionPipeline.Proofs.Effect.Evolution
import SessionPipeline.Proofs.Effect.Operations
import SessionPipeline.Proofs.Chain.Editing
import SessionPipeline.Proofs.Effect.Agreement
import SessionPipeline.Proofs.Effect.Moment
import SessionPipeline.Proofs.Effect.Execution
import SessionPipeline.Proofs.Chain.Course
import SessionPipeline.Proofs.Chain.Reached
import SessionPipeline.Proofs.Chain.Change
import SessionPipeline.Proofs.Effect.Calm
import SessionPipeline.Proofs.Chain.Passage
import SessionPipeline.Proofs.Chain.Attachment
import SessionPipeline.Proofs.Chain.Journey
import SessionPipeline.Proofs.Queue.Ring
import SessionPipeline.Proofs.Queue.Fifo
import SessionPipeline.Proofs.Session.Queueing
import SessionPipeline.Proofs.Effect.Hooked
import SessionPipeline.Proofs.Session.Lifecycle
import SessionPipeline.Proofs.Session.Closing
import SessionPipeline.Proofs.Filter.Leftover
import SessionPipeline.Proofs.Filter.Upkeep
import SessionPipeline.Proofs.Filter.Wrapping
import SessionPipeline.Proofs.Chain.Refusal
import SessionPipeline.Proofs.Chain.Twins
import SessionPipeline.Proofs.Chain.Mirror
import SessionPipeline.Proofs.Chain.Undone
import SessionPipeline.Proofs.Chain.Aging
import SessionPipeline.Proofs.Chain.Alike
import SessionPipeline.Proofs.Filter.Solitude
import SessionPipeline.Proofs.Chain.Travel
import SessionPipeline.Proofs.Session.Echoing
import SessionPipeline.Proofs.Effect.Following
import SessionPipeline.Proofs.Session.Alongside
import SessionPipeline.Proofs.Session.Apart
import SessionPipeline.Proofs.Session.Handling
import SessionPipeline.Proofs.Session.Interleaving
import SessionPipeline.Proofs.Logging.Levels
import SessionPipeline.Proofs.Chain.Template
import SessionPipeline.Proofs.Chain.Likeness
import SessionPipeline.Proofs.Config.Checking
import SessionPipeline.Proofs.Config.Building
import SessionPipeline.Proofs.Chain.Headed
import SessionPipeline.Proofs.Session.Announcing
import SessionPipeline.Proofs.Session.Readiness
import SessionPipeline.Proofs.Session.Tending
import SessionPipeline.Proofs.Session.Serving
import SessionPipeline.Proofs.Effect.Ending
import SessionPipeline.Proofs.Chain.Removal
import SessionPipeline.Proofs.Chain.Clearing
import SessionPipeline.Proofs.Chain.Assembly
import SessionPipeline.Proofs.Session.Untouched
import SessionPipeline.Proofs.Session.Happening
import SessionPipeline.Proofs.Session.Settlement
import SessionPipeline.Proofs.Queue.Shape
import SessionPipeline.Proofs.Queue.Resizing
import SessionPipeline.Proofs.Queue.FailFast
import SessionPipeline.Proofs.Wire.Decoding
import SessionPipeline.Proofs.Wire.Grammar
import SessionPipeline.Proofs.Config.RoundTrip
import SessionPipeline.Proofs.Wire.Encoding
import SessionPipeline.Proofs.Config.Demands
import SessionPipeline.Proofs.Json.Merging
import SessionPipeline.Proofs.Factory.Registry
import SessionPipeline.Proofs.Factory.Settings
import SessionPipeline.Proofs.Wire.Text
import SessionPipeline.Proofs.Logging.Grammar
import SessionPipeline.Proofs.Logging.JsonLine
import SessionPipeline.Proofs.Logging.Reading
import SessionPipeline.Proofs.Chain.Splice
import SessionPipeline.Proofs.Session.Onlooker
import SessionPipeline.Proofs.Session.Overlooking
import SessionPipeline.Proofs.Factory.Overlooking
import SessionPipeline.Proofs.Session.Passing
import SessionPipeline.Proofs.Session.Transparency
import SessionPipeline.Proofs.Queue.Capacity
import SessionPipeline.Proofs.Logging.Globs
import SessionPipeline.Proofs.Filter.Titles
import SessionPipeline.Proofs.Filter.Naming
