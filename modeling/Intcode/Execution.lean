import Intcode.Evaluation
import Intcode.State

/-! The execution of one instruction on a state and a queue of inputs.

The instruction pointer and the status are left to the machine, which learns from the
`Effect` what to do with them.
-/

namespace Intcode

/-- What is left to do after an instruction was executed. -/
inductive Effect where
  | proceed
  | jump (target : Nat)
  /-- Put out a value, then go on after the instruction. -/
  | output (value : Int)
  /-- Execute the instruction again when there is input. -/
  | awaitInput
  | halt
deriving DecidableEq, Repr

structure Execution where
  effect : Except Fault Effect
  state : State
  input : List Int
  log : List Event

namespace State

/-- What an instruction sees of a state and a queue of inputs. -/
def view (state : State) (input : List Int) : View where
  memory := state.memory.read
  base := state.base
  ip := state.ip
  pending := input.head?

/-- Sets a cell of the memory, if the memory accepts the address. -/
def store (state : State) (address : Nat) (value : Int) : Except Fault Effect × State :=
  if state.memory.accepts address then
    (.ok .proceed, { state with memory := state.memory.put address value })
  else (.error (.addressOverflow address), state)

/-- Makes the change that an instruction has decided on. An input is taken from the queue
even if the memory then refuses it. -/
def perform (state : State) (input : List Int) (log : List Event) : Action → Execution
  | .store address value =>
      let (effect, state) := state.store address value
      ⟨effect, state, input, log⟩
  | .receive address value =>
      let (effect, state) := state.store address value
      ⟨effect, state, input.tail, log⟩
  | .rebase distance => ⟨.ok .proceed, { state with base := state.base.adjust distance }, input, log⟩
  | .jump target => ⟨.ok (.jump target), state, input, log⟩
  | .pass => ⟨.ok .proceed, state, input, log⟩
  | .emit value => ⟨.ok (.output value), state, input, log⟩
  | .suspend => ⟨.ok .awaitInput, state, input, log⟩
  | .stop => ⟨.ok .halt, state, input, log⟩

end State

namespace Family

def apply (family : Family) (state : State) (input : List Int) (instruction : Instruction)
    (operands : List Operand) : Execution :=
  let evaluation := family.evaluate (state.view input) instruction operands
  match evaluation.result with
  | .error fault => ⟨.error fault, state, input, evaluation.log⟩
  | .ok action => state.perform input evaluation.log action

/-- Executes an instruction with the cells of its operands, as the family takes it. All
modes are read before anything else. -/
def execute (family : Family) (state : State) (input : List Int) (instruction : Instruction)
    (cells : List Int) : Execution :=
  match Operand.ofCells instruction cells with
  | .error fault => ⟨.error fault, state, input, []⟩
  | .ok operands => family.apply state input instruction operands

end Family

def State.execute (state : State) (input : List Int) (instruction : Instruction)
    (cells : List Int) : Execution :=
  instruction.opcode.family.execute state input instruction cells

end Intcode
