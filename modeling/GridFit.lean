import GridFit.Bytes.Cursor
import GridFit.Main
import GridFit.Proofs.Program.Encode
import GridFit.Proofs.Program.RoundTrip
import GridFit.Proofs.Machine.Dispatch
import GridFit.Proofs.Operation.Jump
import GridFit.Proofs.Run.Deed
import GridFit.Proofs.Run.Reachable
import GridFit.Proofs.Run.RecordedBodies
import GridFit.Proofs.Machine.Control
import GridFit.Proofs.Run.Call
import GridFit.Proofs.Run.UndividedBodies
import GridFit.Proofs.Run.ForwardJump
import GridFit.Proofs.Structured.Basic
import GridFit.Proofs.Machine.Branches
import GridFit.Proofs.Run.Mirror
import GridFit.Proofs.Structured.Stretch
import GridFit.Proofs.Structured.Faithful
import GridFit.Proofs.Agreement
import GridFit.Proofs.Machine.Settings
import GridFit.Proofs.Machine.Limits
import GridFit.Proofs.Operation.Limits
import GridFit.Proofs.Run.Units
import GridFit.Proofs.Run.Lockstep
import GridFit.Proofs.Run.Settings
import GridFit.Proofs.Run.Budget
import GridFit.Proofs.Run.LooserLimits
import GridFit.Proofs.Run.HiddenState
import GridFit.Proofs.Operation.Faults
import GridFit.Proofs.Machine.Definitions
import GridFit.Proofs.Run.History
import GridFit.Proofs.Run.OpenBranches
import GridFit.Proofs.Run.OpenDefinition
import GridFit.Proofs.Run.LastingDefinitions
import GridFit.Proofs.Machine.Distance
import GridFit.Proofs.Program.Seam
import GridFit.Proofs.Run.Append
import GridFit.Proofs.Machine.Resources
import GridFit.Proofs.Operation.Room
import GridFit.Proofs.Operation.Parts
import GridFit.Proofs.Operation.Memory
import GridFit.Proofs.Run.Resources
import GridFit.Proofs.Run.LastWrites
import GridFit.Proofs.Run.Recording
import GridFit.Proofs.Run.OutermostCall
import GridFit.Proofs.Run.RepeatedCall
import GridFit.Proofs.Program.Composition
import GridFit.Proofs.Program.Stream
import GridFit.Proofs.Program.Failure
import GridFit.Proofs.Text.Listing
import GridFit.Proofs.Operation.Division
import GridFit.Proofs.Word
import GridFit.Proofs.Operation.StackEffect
import GridFit.Proofs.Run.FailedInstruction
import GridFit.Proofs.Run.ConfiguredGrid
import GridFit.Proofs.Run.JumpResolution
import GridFit.Proofs.Operation.Product
import GridFit.Proofs.Operation.Parity
import GridFit.Proofs.Operation.IndexedAccess
import GridFit.Proofs.Registry.History
import GridFit.Proofs.Text.Hex
import GridFit.Proofs.Program.Push
import GridFit.Proofs.Run.PushProgram
import GridFit.Proofs.CommandLine.Session
import GridFit.Proofs.Bytes.Cursor
import GridFit.Proofs.Program.Operands
