import ArrayOffload.ArraySpec
import ArrayOffload.ArrayValue
import ArrayOffload.Call.HostFn
import ArrayOffload.Call.HostOp
import ArrayOffload.Call.Run
import ArrayOffload.Call.Shapes
import ArrayOffload.Call.State
import ArrayOffload.CommandLine.ArgSpec
import ArrayOffload.CommandLine.Arguments
import ArrayOffload.CommandLine.HostFns
import ArrayOffload.CommandLine.Options
import ArrayOffload.CommandLine.Run
import ArrayOffload.Config
import ArrayOffload.Context
import ArrayOffload.Device.Basic
import ArrayOffload.Device.Launch
import ArrayOffload.Device.Memory
import ArrayOffload.Digest.Blake3
import ArrayOffload.Digest.ContentHash
import ArrayOffload.Digest.Encoding
import ArrayOffload.Disk
import ArrayOffload.Elem
import ArrayOffload.Engine.Basic
import ArrayOffload.Engine.Cache
import ArrayOffload.Engine.Dump
import ArrayOffload.Error
import ArrayOffload.Eval
import ArrayOffload.Event
import ArrayOffload.Func.Basic
import ArrayOffload.Func.Builder
import ArrayOffload.Func.Printer
import ArrayOffload.Func.Validate
import ArrayOffload.HandleTable
import ArrayOffload.Kernel.Basic
import ArrayOffload.Kernel.Shader
import ArrayOffload.Machine
import ArrayOffload.Main
import ArrayOffload.Number.Binary
import ArrayOffload.Number.Decimal
import ArrayOffload.Plan.CompiledUnit
import ArrayOffload.Plan.Draft
import ArrayOffload.Plan.Lowering
import ArrayOffload.Plan.Placement
import ArrayOffload.Plan.Step
import ArrayOffload.Proofs.Accounts
import ArrayOffload.Proofs.Buffers
import ArrayOffload.Proofs.CallArguments
import ArrayOffload.Proofs.CallState
import ArrayOffload.Proofs.Coercion
import ArrayOffload.Proofs.Coherence
import ArrayOffload.Proofs.Constants
import ArrayOffload.Proofs.CopyOuts
import ArrayOffload.Proofs.Counting
import ArrayOffload.Proofs.Derivation
import ArrayOffload.Proofs.DeviceFollow
import ArrayOffload.Proofs.DeviceRun
import ArrayOffload.Proofs.DeviceSafety
import ArrayOffload.Proofs.Disk
import ArrayOffload.Proofs.Drafting
import ArrayOffload.Proofs.Dumps
import ArrayOffload.Proofs.ExactPartition
import ArrayOffload.Proofs.Exec
import ArrayOffload.Proofs.Extension
import ArrayOffload.Proofs.Faithful
import ArrayOffload.Proofs.Fingerprints
import ArrayOffload.Proofs.Footprint
import ArrayOffload.Proofs.Frame
import ArrayOffload.Proofs.Fusion
import ArrayOffload.Proofs.Grammar
import ArrayOffload.Proofs.HandleTable
import ArrayOffload.Proofs.History
import ArrayOffload.Proofs.HostEffect
import ArrayOffload.Proofs.HostFollow
import ArrayOffload.Proofs.HostFootprint
import ArrayOffload.Proofs.Intact
import ArrayOffload.Proofs.Kernel
import ArrayOffload.Proofs.Layout
import ArrayOffload.Proofs.Lexing
import ArrayOffload.Proofs.Lockstep
import ArrayOffload.Proofs.Lookahead
import ArrayOffload.Proofs.Lookup
import ArrayOffload.Proofs.Lowered
import ArrayOffload.Proofs.Meaning
import ArrayOffload.Proofs.Observed
import ArrayOffload.Proofs.Offloading
import ArrayOffload.Proofs.Opening
import ArrayOffload.Proofs.Ownership
import ArrayOffload.Proofs.Parsing
import ArrayOffload.Proofs.Partition
import ArrayOffload.Proofs.Persistence
import ArrayOffload.Proofs.Pieces
import ArrayOffload.Proofs.Planning
import ArrayOffload.Proofs.Printing
import ArrayOffload.Proofs.Programs
import ArrayOffload.Proofs.Progress
import ArrayOffload.Proofs.Reading
import ArrayOffload.Proofs.Reference
import ArrayOffload.Proofs.Rejection
import ArrayOffload.Proofs.Release
import ArrayOffload.Proofs.Renaming
import ArrayOffload.Proofs.Reparsing
import ArrayOffload.Proofs.Residency
import ArrayOffload.Proofs.RoundTrip
import ArrayOffload.Proofs.Rounding
import ArrayOffload.Proofs.Rounds
import ArrayOffload.Proofs.Safety
import ArrayOffload.Proofs.Schedule
import ArrayOffload.Proofs.Separation
import ArrayOffload.Proofs.ShaderText
import ArrayOffload.Proofs.Shadow
import ArrayOffload.Proofs.ShapeRoots
import ArrayOffload.Proofs.Shapes
import ArrayOffload.Proofs.SingleMemory
import ArrayOffload.Proofs.Tiling
import ArrayOffload.Proofs.Transparency
import ArrayOffload.Proofs.TypedCalls
import ArrayOffload.Proofs.TypedMemory
import ArrayOffload.Proofs.Watched
import ArrayOffload.Proofs.WellFormed
import ArrayOffload.Proofs.WorkItems
import ArrayOffload.Proofs.Writes
import ArrayOffload.Region
import ArrayOffload.Residency.State
import ArrayOffload.Residency.Tracker
import ArrayOffload.Scalar
import ArrayOffload.Shape
import ArrayOffload.Signature
import ArrayOffload.Source.Lexer
import ArrayOffload.Source.Parser
import ArrayOffload.Source.Token
import ArrayOffload.Stop
import ArrayOffload.Text.Blank
import ArrayOffload.Text.CodeRange
import ArrayOffload.Text.ControlSequence
import ArrayOffload.Text.Extending
import ArrayOffload.Text.Invisible
import ArrayOffload.Text.Quoted
import ArrayOffload.Toml.Document
import ArrayOffload.Toml.Node
import ArrayOffload.Toml.Scalar
import ArrayOffload.Toml.Scan
import ArrayOffload.UnitKey
