import Intcode.Address
import Intcode.Text.Decimal

/-! Faults: the ways in which an instruction can fail. -/

namespace Intcode

inductive Fault where
  | unknownOpcode (cell : Int) (address : Nat)
  | invalidMode (encoding : Int) (position : Nat) (digit : Int)
  | immediateWrite (position : Nat) (operand : Int)
  | negativeAddress (cell : Int)
  | addressOverflow (cell : Int)
  | pointerOverflow
deriving DecidableEq, Repr

namespace Address.Error

def message : Address.Error → String
  | .negative cell => "Negative address " ++ Decimal.render cell
  | .overflow cell => "Address " ++ Decimal.render cell ++ " exceeds the addressable range"

/-- The fault of an instruction that needed the address. -/
def fault : Address.Error → Fault
  | .negative cell => .negativeAddress cell
  | .overflow cell => .addressOverflow cell

end Address.Error

namespace Fault

def message : Fault → String
  | .unknownOpcode cell address =>
      "Unknown opcode " ++ Decimal.render cell ++ " at address " ++ Decimal.renderNatural address
  | .invalidMode encoding position digit =>
      "Invalid mode digit " ++ Decimal.render digit ++ " for operand " ++
        Decimal.renderNatural position ++ " of opcode " ++ Decimal.render encoding
  | .immediateWrite position operand =>
      "Immediate mode used as write target for operand " ++ Decimal.renderNatural position ++
        " (" ++ Decimal.render operand ++ ")"
  | .negativeAddress cell => "Resolved address " ++ Decimal.render cell ++ " is negative"
  | .addressOverflow cell =>
      "Resolved address " ++ Decimal.render cell ++ " exceeds the addressable range"
  | .pointerOverflow => "Instruction pointer overflow"

/-- Whether the fault comes from the way an operand is addressed. -/
def isModeError : Fault → Bool
  | .invalidMode .. | .immediateWrite .. | .negativeAddress _ => true
  | _ => false

end Fault

end Intcode
