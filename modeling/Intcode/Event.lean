import Intcode.Fault
import Intcode.Log.Logger
import Intcode.Mode
import Intcode.Opcode

/-! What a machine reports while it runs.

An event says what happened; its record for the log, with level, target and wording, is
built only where the record is wanted.
-/

namespace Intcode

inductive Event where
  | loaded (cells : Nat)
  /-- The machine went back to the program as loaded. -/
  | reset
  /-- An instruction and the cells of its operands were read at an address. -/
  | fetched (ip : Nat) (opcode : Opcode) (cells : List Int)
  | read (position : Nat) (mode : Mode) (raw value : Int)
  /-- A result is about to be stored. -/
  | computed (opcode : Opcode) (address : Nat) (result : Int)
  /-- The result of a comparison is about to be stored. -/
  | compared (opcode : Opcode) (left right : Int) (address : Nat) (holds : Bool)
  | decided (opcode : Opcode) (condition target : Int) (taken : Bool)
  /-- The instruction that ends the program was met. -/
  | ended (ip : Nat)
  /-- An input was asked for and none was there. -/
  | suspended (ip : Nat)
  /-- An input is about to be stored. -/
  | received (address : Nat) (value : Int)
  | emitted (value : Int)
  | rebased (distance base : Int)
  /-- An instruction failed after a number of completed ones. -/
  | faulted (ip steps : Nat) (fault : Fault)
  /-- The machine halted; the last instruction counts. -/
  | halted (steps : Nat)
deriving DecidableEq, Repr

namespace Event

open Decimal

/-- The numbers in brackets, with a comma and a blank between neighbours. -/
def bracketed (cells : List Int) : String :=
  "[" ++ String.intercalate ", " (cells.map render) ++ "]"

/-- The mark of a machine: its number with at least two digits. -/
def mark (id : Nat) : String :=
  let digits := naturalDigits id
  "[M" ++ String.ofList (List.replicate (2 - digits.length) '0' ++ digits) ++ "] "

def truth : Bool → String
  | true => "true"
  | false => "false"

/-- Reads are traced; everything else is reported as a debugging message. -/
def level : Event → Log.Level
  | .read .. => .trace
  | _ => .debug

/-- What concerns the machine as a whole and what concerns single instructions are two
topics. -/
def target : Event → String
  | .loaded _ | .reset | .faulted .. | .halted _ => "vm"
  | _ => "instructions"

/-- The part of the program that reports the event. -/
def origin : Event → String
  | .loaded _ | .reset | .fetched .. | .faulted .. | .halted _ => "intcode::vm::machine"
  | .read .. => "intcode::vm::operand"
  | .computed .. => "intcode::vm::executor::arithmetic_ops"
  | .compared .. => "intcode::vm::executor::comparison_ops"
  | .decided .. | .ended _ => "intcode::vm::executor::control_flow_ops"
  | .suspended _ | .received .. | .emitted _ => "intcode::vm::executor::io_ops"
  | .rebased .. => "intcode::vm::executor::register_ops"

/-- The wording of an event of the machine with the given number. -/
def message (id : Nat) : Event → String
  | .loaded cells => mark id ++ "Loaded program of " ++ renderNatural cells ++ " cells"
  | .reset => mark id ++ "Reset"
  | .fetched ip opcode cells =>
      mark id ++ "Executing instruction at IP " ++ renderNatural ip ++ ": " ++ opcode.name ++
        " " ++ bracketed cells
  | .read position mode raw value =>
      "Read operand " ++ renderNatural position ++ " (" ++ mode.name ++ " " ++ render raw ++
        ") = " ++ render value
  | .computed opcode address result =>
      opcode.name ++ ": [" ++ renderNatural address ++ "] = " ++ render result
  | .compared opcode left right address holds =>
      opcode.name ++ ": " ++ render left ++ " vs " ++ render right ++ " -> [" ++
        renderNatural address ++ "] = " ++ truth holds
  | .decided opcode condition target taken =>
      opcode.name ++ ": condition = " ++ render condition ++ ". Jumping to " ++
        render target ++ "? " ++ truth taken
  | .ended ip => "Halt at IP " ++ renderNatural ip
  | .suspended ip => "Input: queue empty, suspending at IP " ++ renderNatural ip
  | .received address value =>
      "Input: [" ++ renderNatural address ++ "] = " ++ render value
  | .emitted value => "Output: " ++ render value
  | .rebased distance base =>
      "AdjustRelativeBase: " ++ render distance ++ " -> " ++ render base
  | .faulted ip steps fault =>
      mark id ++ "VM Fault at IP " ++ renderNatural ip ++ " (step " ++ renderNatural steps ++
        "): " ++ fault.message
  | .halted steps => mark id ++ "Halted after " ++ renderNatural steps ++ " steps"

def enabled (logger : Log.Logger) (event : Event) : Bool :=
  logger.enabled event.level event.target

def record (event : Event) (id : Nat) : Log.Record :=
  ⟨event.level, event.target, some event.origin, event.message id⟩

end Event

end Intcode
