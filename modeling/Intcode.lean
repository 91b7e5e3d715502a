import Intcode.Address
import Intcode.Base
import Intcode.CommandLine.Options
import Intcode.CommandLine.Session
import Intcode.CommandLine.Stream
import Intcode.Evaluation
import Intcode.Event
import Intcode.Execution
import Intcode.Fault
import Intcode.Instruction
import Intcode.Listing
import Intcode.Log.Level
import Intcode.Log.Logger
import Intcode.Machine.Basic
import Intcode.Machine.Call
import Intcode.Machine.Run
import Intcode.Main
import Intcode.Mode
import Intcode.Network
import Intcode.Opcode
import Intcode.Operand
import Intcode.Proofs.Acceptance
import Intcode.Proofs.Calls
import Intcode.Proofs.Completion
import Intcode.Proofs.Conservation
import Intcode.Proofs.Decision
import Intcode.Proofs.Enactment
import Intcode.Proofs.Encodings
import Intcode.Proofs.Entries
import Intcode.Proofs.Evaluation
import Intcode.Proofs.FailedSteps
import Intcode.Proofs.Faults
import Intcode.Proofs.Fields
import Intcode.Proofs.Grammar
import Intcode.Proofs.InputTiming
import Intcode.Proofs.Installations
import Intcode.Proofs.Interaction
import Intcode.Proofs.Layouts
import Intcode.Proofs.LogAccount
import Intcode.Proofs.Operands
import Intcode.Proofs.Places
import Intcode.Proofs.PointerBound
import Intcode.Proofs.Programs
import Intcode.Proofs.Queues
import Intcode.Proofs.Reports
import Intcode.Proofs.Resets
import Intcode.Proofs.Resolution
import Intcode.Proofs.Rounds
import Intcode.Proofs.Runs
import Intcode.Proofs.Schedules
import Intcode.Proofs.Slicing
import Intcode.Proofs.Statuses
import Intcode.Proofs.StepBudget
import Intcode.Proofs.StoreAgreement
import Intcode.Proofs.Table
import Intcode.Proofs.WriteOrder
import Intcode.Proofs.Writes
import Intcode.Proofs.WrittenOutput
import Intcode.State
import Intcode.Store.Basic
import Intcode.Store.Dense
import Intcode.Store.Sparse
import Intcode.Text.Blank
import Intcode.Text.Decimal
import Intcode.Text.Fields
