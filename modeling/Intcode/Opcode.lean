/-! The ten instructions of the set, by number, and how they fall into families. -/

namespace Intcode

inductive Opcode where
  | add
  | multiply
  | input
  | output
  | jumpIfTrue
  | jumpIfFalse
  | lessThan
  | equals
  | adjustBase
  | halt
deriving DecidableEq, Repr

/-- Instructions of one family take their operands in the same way. -/
inductive Family where
  | arithmetic
  | comparison
  | control
  | channel
  | register
deriving DecidableEq, Repr

namespace Opcode

/-- The instruction with a given number. -/
def ofNumber? : Int → Option Opcode
  | 1 => some .add
  | 2 => some .multiply
  | 3 => some .input
  | 4 => some .output
  | 5 => some .jumpIfTrue
  | 6 => some .jumpIfFalse
  | 7 => some .lessThan
  | 8 => some .equals
  | 9 => some .adjustBase
  | 99 => some .halt
  | _ => none

def number : Opcode → Int
  | .add => 1
  | .multiply => 2
  | .input => 3
  | .output => 4
  | .jumpIfTrue => 5
  | .jumpIfFalse => 6
  | .lessThan => 7
  | .equals => 8
  | .adjustBase => 9
  | .halt => 99

def name : Opcode → String
  | .add => "Add"
  | .multiply => "Multiply"
  | .input => "Input"
  | .output => "Output"
  | .jumpIfTrue => "JumpIfTrue"
  | .jumpIfFalse => "JumpIfFalse"
  | .lessThan => "LessThan"
  | .equals => "Equals"
  | .adjustBase => "AdjustRelativeBase"
  | .halt => "Halt"

/-- The number of operand cells that follow the opcode cell. -/
def arity : Opcode → Nat
  | .add | .multiply | .lessThan | .equals => 3
  | .jumpIfTrue | .jumpIfFalse => 2
  | .input | .output | .adjustBase => 1
  | .halt => 0

def isHalt : Opcode → Bool
  | .halt => true
  | _ => false

def isJump : Opcode → Bool
  | .jumpIfTrue | .jumpIfFalse => true
  | _ => false

def requiresInput : Opcode → Bool
  | .input => true
  | _ => false

def family : Opcode → Family
  | .add | .multiply => .arithmetic
  | .lessThan | .equals => .comparison
  | .jumpIfTrue | .jumpIfFalse | .halt => .control
  | .input | .output => .channel
  | .adjustBase => .register

@[simp] theorem ofNumber?_number (opcode : Opcode) : ofNumber? opcode.number = some opcode := by
  cases opcode <;> rfl

theorem ofNumber?_eq_some_iff {number : Int} {opcode : Opcode} :
    ofNumber? number = some opcode ↔ number = opcode.number := by
  constructor
  · intro found
    unfold ofNumber? at found
    split at found <;> cases found <;> rfl
  · rintro rfl
    exact ofNumber?_number opcode

end Opcode

/-- Whether the family contains the instruction. -/
def Family.handles (family : Family) (opcode : Opcode) : Bool :=
  opcode.family = family

end Intcode
