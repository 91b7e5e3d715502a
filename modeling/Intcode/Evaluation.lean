import Intcode.Event
import Intcode.Operand

/-! What an instruction does, decided before anything is changed.

An instruction sees the machine through a `View`: the memory as a map, the base, the
instruction pointer and the next input. From that it decides on one `Action`, or fails.
Nothing but the view enters the decision, so machines with equal views decide alike.
-/

namespace Intcode

/-- An evaluation reports events and ends with a value or a fault. -/
structure Eval (α : Type) where
  log : List Event
  result : Except Fault α

namespace Eval

variable {α β : Type}

protected def pure (value : α) : Eval α :=
  ⟨[], .ok value⟩

/-- Goes on with the value of an evaluation, if it has one. -/
protected def bind (first : Eval α) (next : α → Eval β) : Eval β :=
  match first.result with
  | .error fault => ⟨first.log, .error fault⟩
  | .ok value => ⟨first.log ++ (next value).log, (next value).result⟩

instance : Monad Eval where
  pure := Eval.pure
  bind := Eval.bind

def report (event : Event) : Eval Unit :=
  ⟨[event], .ok ()⟩

def fail (fault : Fault) : Eval α :=
  ⟨[], .error fault⟩

/-- A result that was found without anything to report. -/
def quiet (result : Except Fault α) : Eval α :=
  ⟨[], result⟩

@[simp] theorem result_pure (value : α) : (pure value : Eval α).result = .ok value := rfl

@[simp] theorem log_pure (value : α) : (pure value : Eval α).log = [] := rfl

@[simp] theorem result_bind (first : Eval α) (next : α → Eval β) :
    (first >>= next).result = first.result.bind fun value => (next value).result := by
  change (Eval.bind first next).result = _
  unfold Eval.bind
  cases first.result <;> rfl

theorem bind_of_ok {first : Eval α} {value : α} (found : first.result = .ok value)
    (next : α → Eval β) :
    first >>= next = ⟨first.log ++ (next value).log, (next value).result⟩ := by
  change Eval.bind first next = _
  simp only [Eval.bind, found]

theorem bind_of_error {first : Eval α} {fault : Fault} (failed : first.result = .error fault)
    (next : α → Eval β) :
    first >>= next = ⟨first.log, .error fault⟩ := by
  change Eval.bind first next = _
  simp only [Eval.bind, failed]

end Eval

/-- All that an instruction can see of a machine. -/
structure View where
  memory : Nat → Int
  base : Base
  ip : Nat
  pending : Option Int

/-- The one change that an instruction makes. -/
inductive Action where
  | store (address : Nat) (value : Int)
  /-- Takes the next input, which is `value`, and stores it. -/
  | receive (address : Nat) (value : Int)
  | rebase (distance : Int)
  | jump (target : Nat)
  | pass
  | emit (value : Int)
  | suspend
  | stop
deriving DecidableEq, Repr

namespace View

def read (view : View) (operand : Operand) : Eval Int := do
  let value ← .quiet (operand.value view.memory view.base)
  .report (.read operand.position operand.mode operand.raw value)
  return value

def locate (view : View) (operand : Operand) : Eval Nat :=
  .quiet (operand.target view.base)

/-- The fault of an instruction that is not in the family asked to evaluate it, or that
lacks an operand. -/
def unhandled (view : View) (instruction : Instruction) : Fault :=
  .unknownOpcode instruction.encoding view.ip

/-- The operand at an index, counted from zero, which the instruction needs. -/
def operandAt (view : View) (instruction : Instruction) (operands : List Operand)
    (index : Nat) : Eval Operand :=
  match operands[index]? with
  | some operand => return operand
  | none => .fail (view.unhandled instruction)

def readAt (view : View) (instruction : Instruction) (operands : List Operand)
    (index : Nat) : Eval Int := do
  view.read (← view.operandAt instruction operands index)

/-- Finds the place of a result that the operand at an index denotes. -/
def locateAt (view : View) (instruction : Instruction) (operands : List Operand)
    (index : Nat) : Eval Nat := do
  view.locate (← view.operandAt instruction operands index)

end View

namespace Opcode

def combine? : Opcode → Int → Int → Option Int
  | .add, left, right => some (left + right)
  | .multiply, left, right => some (left * right)
  | _, _, _ => none

def compare? : Opcode → Int → Int → Option Bool
  | .lessThan, left, right => some (left < right)
  | .equals, left, right => some (left = right)
  | _, _, _ => none

def jumps : Opcode → Int → Bool
  | .jumpIfTrue, condition => condition ≠ 0
  | .jumpIfFalse, condition => condition = 0
  | _, _ => false

end Opcode

namespace Family

/-- Reads two operands, combines them, and stores the result at the third. -/
def evaluateArithmetic (view : View) (instruction : Instruction)
    (operands : List Operand) : Eval Action := do
  let left ← view.readAt instruction operands 0
  let right ← view.readAt instruction operands 1
  match instruction.opcode.combine? left right with
  | some result => do
      let address ← view.locateAt instruction operands 2
      .report (.computed instruction.opcode address result)
      return .store address result
  | none => .fail (view.unhandled instruction)

/-- Reads two operands, compares them, and stores one or zero at the third. -/
def evaluateComparison (view : View) (instruction : Instruction)
    (operands : List Operand) : Eval Action := do
  let left ← view.readAt instruction operands 0
  let right ← view.readAt instruction operands 1
  match instruction.opcode.compare? left right with
  | some holds => do
      let address ← view.locateAt instruction operands 2
      .report (.compared instruction.opcode left right address holds)
      return .store address (if holds then 1 else 0)
  | none => .fail (view.unhandled instruction)

/-- Halts, or jumps under a condition; only the target of a jump that is taken has to be
an address. -/
def evaluateControl (view : View) (instruction : Instruction)
    (operands : List Operand) : Eval Action :=
  match instruction.opcode with
  | .halt => do
      .report (.ended view.ip)
      return .stop
  | opcode =>
      if opcode.isJump then do
        let condition ← view.readAt instruction operands 0
        let target ← view.readAt instruction operands 1
        .report (.decided opcode condition target (opcode.jumps condition))
        if opcode.jumps condition then do
          let address ← .quiet (Address.resolve target)
          return .jump address
        else
          return .pass
      else .fail (view.unhandled instruction)

/-- Stores the next input, or puts out a value. The place of an input is found even if
there is none. -/
def evaluateChannel (view : View) (instruction : Instruction)
    (operands : List Operand) : Eval Action :=
  match instruction.opcode with
  | .input => do
      let address ← view.locateAt instruction operands 0
      match view.pending with
      | none => do
          .report (.suspended view.ip)
          return .suspend
      | some value => do
          .report (.received address value)
          return .receive address value
  | .output => do
      let value ← view.readAt instruction operands 0
      .report (.emitted value)
      return .emit value
  | _ => .fail (view.unhandled instruction)

/-- Moves the base by the operand, read from the base as it was. -/
def evaluateRegister (view : View) (instruction : Instruction)
    (operands : List Operand) : Eval Action :=
  match instruction.opcode with
  | .adjustBase => do
      let distance ← view.readAt instruction operands 0
      .report (.rebased distance (view.base.adjust distance).value)
      return .rebase distance
  | _ => .fail (view.unhandled instruction)

/-- What the instruction does, as its family takes it. Operands are taken one by one, so a
fault of one comes before the lack of a later one. An instruction of another family
fails; the families that store a result read their two operands before. -/
def evaluate : Family → View → Instruction → List Operand → Eval Action
  | .arithmetic => evaluateArithmetic
  | .comparison => evaluateComparison
  | .control => evaluateControl
  | .channel => evaluateChannel
  | .register => evaluateRegister

end Family

end Intcode
