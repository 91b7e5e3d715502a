import Intcode.Base
import Intcode.Instruction

/-! Operands: the cells after an opcode cell, and what they denote.

A value is what an operand denotes where it is read, a target what it denotes where a
result is stored. Both count a relative operand from the same base.
-/

namespace Intcode

/-- An operand cell with its position, counted from one, and its mode. -/
structure Operand where
  raw : Int
  position : Nat
  mode : Mode
deriving DecidableEq, Repr

namespace Address

/-- The address that a cell names, for an instruction that needs one. -/
def resolve (cell : Int) : Except Fault Nat :=
  match ofCell cell with
  | .ok address => .ok address
  | .error error => .error error.fault

end Address

namespace Operand

/-- Pairs cells with the modes that the instruction gives to the operands from
`position` on. -/
def ofCellsFrom (instruction : Instruction) (position : Nat) :
    List Int → Except Fault (List Operand)
  | [] => .ok []
  | raw :: cells =>
      match instruction.mode position with
      | .error fault => .error fault
      | .ok mode =>
          match ofCellsFrom instruction (position + 1) cells with
          | .error fault => .error fault
          | .ok operands => .ok (⟨raw, position, mode⟩ :: operands)

/-- Pairs the cells after an opcode cell with their modes. -/
def ofCells (instruction : Instruction) (cells : List Int) : Except Fault (List Operand) :=
  ofCellsFrom instruction 1 cells

/-- The value that an operand denotes in a memory. -/
def value (operand : Operand) (memory : Nat → Int) (base : Base) : Except Fault Int :=
  match operand.mode with
  | .indirect => (Address.resolve operand.raw).map memory
  | .immediate => .ok operand.raw
  | .relative => (Address.resolve (base.offset operand.raw)).map memory

/-- The address that an operand denotes as the place of a result. -/
def target (operand : Operand) (base : Base) : Except Fault Nat :=
  match operand.mode with
  | .indirect => Address.resolve operand.raw
  | .relative => Address.resolve (base.offset operand.raw)
  | .immediate => .error (.immediateWrite operand.position operand.raw)

end Operand

end Intcode
