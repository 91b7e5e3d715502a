import Intcode.Execution
import Intcode.Listing

/-! A machine: a program with its state and its queues of inputs and outputs.

`Machine.step` executes one instruction. A halted machine answers every step by saying so,
and a machine that failed repeats its fault; neither changes any more.
-/

namespace Intcode

structure Machine where
  /-- The number that marks the machine's messages. -/
  id : Nat
  kind : Store.Kind
  /-- The cells that the memory started with. -/
  program : List Int
  state : State
  /-- The inputs not yet taken, the next one first. -/
  input : List Int
  /-- The outputs not yet collected, the earliest first. -/
  output : Array Int
deriving DecidableEq

namespace Machine

inductive Outcome where
  | executed
  /-- An instruction was completed that put out a value. -/
  | output (value : Int)
  /-- An instruction needs an input, and there is none. -/
  | awaitingInput
  | halted
deriving DecidableEq, Repr

/-- The answer of a machine, the machine after it, and what it reported. -/
structure Reply (α : Type) where
  answer : α
  machine : Machine
  log : List Event

/-- A machine that is about to run a program. -/
def load (kind : Store.Kind) (id : Nat) (program : List Int) : Machine where
  id := id
  kind := kind
  program := program
  state := .initial (.ofCells kind program)
  input := []
  output := #[]

def loadLog (machine : Machine) : List Event :=
  [.loaded machine.program.length]

/-- Starts over from the cells that the memory was loaded with, with empty queues. -/
def reset (machine : Machine) : Machine :=
  { machine with
    state := .initial (.ofCells machine.kind machine.program)
    input := []
    output := #[] }

/-- Adds inputs after those that wait. -/
def extend (machine : Machine) (values : List Int) : Machine :=
  { machine with input := machine.input ++ values }

def push (machine : Machine) (value : Int) : Machine :=
  machine.extend [value]

def pop (machine : Machine) : Option Int × Machine :=
  (machine.output[0]?, { machine with output := machine.output.extract 1 })

def take (machine : Machine) : List Int × Machine :=
  (machine.output.toList, { machine with output := #[] })

def write (machine : Machine) (address : Nat) (value : Int) :
    Except Address.Error Unit × Machine :=
  match machine.state.memory.write address value with
  | .ok memory => (.ok (), { machine with state := { machine.state with memory := memory } })
  | .error error => (.error error, machine)

def fail (machine : Machine) (log : List Event) (fault : Fault) :
    Reply (Except Fault Outcome) where
  answer := .error fault
  machine := { machine with state := machine.state.fail fault }
  log := log ++ [.faulted machine.state.ip machine.state.steps fault]

/-- Goes on after an instruction, which has come to an outcome. -/
def proceed (machine : Machine) (log : List Event) (width : Nat) (outcome : Outcome)
    (output : Array Int) : Reply (Except Fault Outcome) :=
  match machine.state.advance width with
  | .error fault => machine.fail log fault
  | .ok state => ⟨.ok outcome, { machine with state := state.complete, output := output }, log⟩

/-- Does what an executed instruction has left to do. -/
def settle (machine : Machine) (log : List Event) (width : Nat) :
    Effect → Reply (Except Fault Outcome)
  | .proceed => machine.proceed log width .executed machine.output
  | .output value => machine.proceed log width (.output value) (machine.output.push value)
  | .jump target =>
      ⟨.ok .executed, { machine with state := { machine.state with ip := target }.complete }, log⟩
  | .awaitInput =>
      ⟨.ok .awaitingInput,
        { machine with state := { machine.state with status := .awaitingInput } }, log⟩
  | .halt =>
      ⟨.ok .halted, { machine with state := { machine.state with status := .halted }.complete },
        log ++ [.halted (machine.state.steps + 1)]⟩

/-- Fetches and executes the instruction at the instruction pointer. -/
def cycle : Machine → Reply (Except Fault Outcome)
  | ⟨id, kind, program, state, input, output⟩ =>
      match state.fetch with
      | .error fault => fail ⟨id, kind, program, state, input, output⟩ [] fault
      | .ok (instruction, cells) =>
          let fetched := Event.fetched state.ip instruction.opcode cells
          let execution := { state with status := .running }.execute input instruction cells
          let machine := ⟨id, kind, program, execution.state, execution.input, output⟩
          match execution.effect with
          | .error fault => fail machine (fetched :: execution.log) fault
          | .ok effect => machine.settle (fetched :: execution.log) instruction.width effect

/-- Executes one instruction, unless the machine has stopped. -/
def step (machine : Machine) : Reply (Except Fault Outcome) :=
  match machine.state.status, machine.state.fault with
  | .halted, _ => ⟨.ok .halted, machine, []⟩
  | .faulted, some fault => ⟨.error fault, machine, []⟩
  | _, _ => machine.cycle

end Machine

end Intcode
