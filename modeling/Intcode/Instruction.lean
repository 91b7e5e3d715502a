import Intcode.Fault
import Intcode.Mode
import Intcode.Opcode

/-! Instructions as they stand in an opcode cell.

The two lowest decimal digits of the cell are the number of the instruction; the digits
above them are the modes of the operands, the first operand's lowest. `encode` writes
such a cell and `Instruction.decode` reads it.
-/

namespace Intcode

/-- An instruction with the encoding that it was read from, which holds the mode digits. -/
structure Instruction where
  opcode : Opcode
  encoding : Int
deriving DecidableEq, Repr

namespace Instruction

/-- The largest encoding: the largest signed 64-bit number. -/
def maxEncoding : Int := 0x7FFFFFFFFFFFFFFF

/-- Reads the opcode cell that was found at an address. -/
def decode (cell : Int) (address : Nat) : Except Fault Instruction :=
  if 0 ≤ cell ∧ cell ≤ maxEncoding then
    match Opcode.ofNumber? (cell.tmod 100) with
    | some opcode => .ok ⟨opcode, cell⟩
    | none => .error (.unknownOpcode cell address)
  else .error (.unknownOpcode cell address)

/-- The mode that an encoding selects for an operand, counted from one. -/
def modeOf (encoding : Int) (position : Nat) : Except Fault Mode :=
  match Mode.ofDigit? (modeDigit encoding position) with
  | some mode => .ok mode
  | none => .error (.invalidMode encoding position (modeDigit encoding position))

def mode (instruction : Instruction) (position : Nat) : Except Fault Mode :=
  modeOf instruction.encoding position

def arity (instruction : Instruction) : Nat :=
  instruction.opcode.arity

/-- The number of cells that the instruction occupies, with its opcode cell. -/
def width (instruction : Instruction) : Nat :=
  1 + instruction.arity

end Instruction

/-- The mode digits, at the places of the operands from `position` on. -/
def modeDigits (position : Nat) : List Mode → Int
  | [] => 0
  | mode :: modes => mode.digit * placeValue (position + 1) + modeDigits (position + 1) modes

/-- The opcode cell of an instruction with the given operand modes. -/
def encode (opcode : Opcode) (modes : List Mode) : Int :=
  opcode.number + modeDigits 1 modes

end Intcode
