import GimpleLowering.Flo.Document
import GimpleLowering.Gimple.Wire.Writer
import GimpleLowering.Flo.Text.Reader
import GimpleLowering.Flo.Text.Writer
import GimpleLowering.Json.Printer
import GimpleLowering.Main
import GimpleLowering.Native.Compile
import GimpleLowering.Proofs.Build
import GimpleLowering.Proofs.Layout.Completion
import GimpleLowering.Proofs.Layout.Growth
import GimpleLowering.Proofs.Compilation
import GimpleLowering.Proofs.Flo.Typing
import GimpleLowering.Proofs.Lowering.ControlFlow
import GimpleLowering.Proofs.Lowering.Typing
import GimpleLowering.Proofs.WellTyped
import GimpleLowering.Proofs.Flo.Identifiers
import GimpleLowering.Proofs.Flo.Semantics
import GimpleLowering.Proofs.Flo.Text.Fields
import GimpleLowering.Proofs.Flo.Text.Object
import GimpleLowering.Proofs.Gimple.Semantics
import GimpleLowering.Proofs.Gimple.Wire
import GimpleLowering.Proofs.Lowering.Constants
import GimpleLowering.Proofs.Lowering.Preservation
import GimpleLowering.Proofs.Lowering.References
import GimpleLowering.Proofs.Shipping
import GimpleLowering.Proofs.Sexpr.Fields
import GimpleLowering.Proofs.Flo.Text.Lossless
import GimpleLowering.Proofs.Lowering.Wholeness
import GimpleLowering.Proofs.Layout.Agreement
import GimpleLowering.Proofs.Lowering.Contexts
import GimpleLowering.Proofs.Comparison
import GimpleLowering.Proofs.Layout.Likeness
import GimpleLowering.Proofs.Layout.Finalization
import GimpleLowering.Proofs.Flo.Twins
import GimpleLowering.Proofs.Lowering.Twins
import GimpleLowering.Proofs.Lowering.Steadiness
import GimpleLowering.Proofs.Flo.Renaming
import GimpleLowering.Proofs.Layout.Correspondence
import GimpleLowering.Proofs.Lowering.Meaning
import GimpleLowering.Proofs.Independence
import GimpleLowering.Proofs.Joins
import GimpleLowering.Proofs.Linking
import GimpleLowering.Proofs.Endings
import GimpleLowering.Proofs.Layout.Entanglement
import GimpleLowering.Proofs.Layout.Termination
import GimpleLowering.Proofs.Lowering.Halting
import GimpleLowering.Proofs.Lowering.Foresight
import GimpleLowering.Proofs.Lowering.Failures
import GimpleLowering.Proofs.Failures
import GimpleLowering.Proofs.Flo.Processes
import GimpleLowering.Proofs.Flo.Panics
import GimpleLowering.Proofs.Flo.NullSafety
import GimpleLowering.Proofs.Lowering.Accesses
import GimpleLowering.Proofs.Panics
import GimpleLowering.Proofs.Lowering.Dispatch
import GimpleLowering.Proofs.Layout.Requests
import GimpleLowering.Proofs.Layout.Containment
import GimpleLowering.Proofs.Layout.Support
import GimpleLowering.Proofs.Layout.Demand
import GimpleLowering.Proofs.Layout.Rounds
import GimpleLowering.Proofs.Layout.Closure
import GimpleLowering.Proofs.Gimple.RoundTrip
import GimpleLowering.Proofs.Flo.Paths
import GimpleLowering.Proofs.Lowering.Returns
import GimpleLowering.Proofs.Lowering.PanicFlag
import GimpleLowering.Proofs.Lowering.Admission
import GimpleLowering.Proofs.Lowering.CallTypes
import GimpleLowering.Proofs.Flo.StraightLine
import GimpleLowering.Proofs.Lowering.Orderly
import GimpleLowering.Proofs.Lowering.Supply
import GimpleLowering.Proofs.Lowering.Temporaries
import GimpleLowering.Proofs.Pass.Staleness
import GimpleLowering.Proofs.Declarations
import GimpleLowering.Proofs.Flo.NullEntry
import GimpleLowering.Proofs.SourceLines
import GimpleLowering.Proofs.Layout.Caches
