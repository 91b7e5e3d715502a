import Intcode.Base
import Intcode.Instruction
import Intcode.Store.Basic

/-! The state of a running program: memory, registers, and how far it has come. -/

namespace Intcode

inductive Status where
  | ready
  | running
  | awaitingInput
  | halted
  | faulted
deriving DecidableEq, Repr

structure State where
  memory : Store
  base : Base
  ip : Nat
  status : Status
  fault : Option Fault
  /-- The number of completed instructions. -/
  steps : Nat
deriving DecidableEq

namespace State

def initial (memory : Store) : State where
  memory := memory
  base := .origin
  ip := 0
  status := .ready
  fault := none
  steps := 0

/-- Moves the instruction pointer over a number of cells. -/
def advance (state : State) (width : Nat) : Except Fault State :=
  if state.ip + width ≤ Address.last then .ok { state with ip := state.ip + width }
  else .error .pointerOverflow

def operandCells (state : State) (count : Nat) : Except Fault (List Int) :=
  if state.ip + count ≤ Address.last then
    .ok ((List.range count).map fun offset => state.memory.read (state.ip + (offset + 1)))
  else .error .pointerOverflow

/-- The instruction at the instruction pointer, with the cells of its operands. -/
def fetch (state : State) : Except Fault (Instruction × List Int) :=
  match Instruction.decode (state.memory.read state.ip) state.ip with
  | .error fault => .error fault
  | .ok instruction =>
      match state.operandCells instruction.arity with
      | .error fault => .error fault
      | .ok cells => .ok (instruction, cells)

def fail (state : State) (fault : Fault) : State :=
  { state with status := .faulted, fault := some fault }

def complete (state : State) : State :=
  { state with steps := state.steps + 1 }

def isTerminated (state : State) : Bool :=
  state.status = .halted || state.status = .faulted

end State

end Intcode
