import Mathlib.Algebra.Group.Int.Defs
import Intcode.Evaluation

/-! The instruction table, over integers.

Everything here is said about the cell at the instruction pointer, the cells after it,
the base and the memory as a map: which digits select modes, what an operand denotes,
which positions are read and which one is stored to, what comes out. Decoding, operand
lists and families do not occur. A check is a fault that may be there; a list of checks
counts by the first fault in it.
-/

namespace Intcode

namespace Table

def arity : Int → Nat
  | 1 | 2 | 7 | 8 => 3
  | 5 | 6 => 2
  | 3 | 4 | 9 => 1
  | _ => 0

/-- The positions of the operands that are read, in order. -/
def reads : Int → List Nat
  | 1 | 2 | 5 | 6 | 7 | 8 => [1, 2]
  | 4 | 9 => [1]
  | _ => []

/-- The position of the operand that a result is stored at. -/
def place? : Int → Option Nat
  | 1 | 2 | 7 | 8 => some 3
  | 3 => some 1
  | _ => none

end Table

namespace View

def head (view : View) : Int :=
  view.memory view.ip

/-- The two lowest digits of that cell. -/
def number (view : View) : Int :=
  view.head % 100

def raw (view : View) (position : Nat) : Int :=
  view.memory (view.ip + position)

/-- The digit that selects the mode of an operand: the first operand's is the third from below. -/
def digit (view : View) (position : Nat) : Int :=
  view.head / 10 ^ (position + 1) % 10

/-- The cell that an operand names, unless it is immediate. -/
def effective (view : View) (position : Nat) : Int :=
  if view.digit position = 2 then view.raw position + view.base.value else view.raw position

def value (view : View) (position : Nat) : Int :=
  if view.digit position = 1 then view.raw position else view.memory (view.effective position).toNat

def target (view : View) (position : Nat) : Nat :=
  (view.effective position).toNat

/-- Whether the instruction goes on at the value of its second operand. -/
def jumps (view : View) : Bool :=
  (view.number = 5 ∧ view.value 1 ≠ 0) ∨ (view.number = 6 ∧ view.value 1 = 0)

def starves (view : View) : Bool :=
  view.number = 3 ∧ view.pending = none

def action (view : View) : Action :=
  match view.number with
  | 1 => .store (view.target 3) (view.value 1 + view.value 2)
  | 2 => .store (view.target 3) (view.value 1 * view.value 2)
  | 3 =>
      match view.pending with
      | none => .suspend
      | some value => .receive (view.target 1) value
  | 4 => .emit (view.value 1)
  | 5 | 6 => if view.jumps then .jump (view.value 2).toNat else .pass
  | 7 => .store (view.target 3) (if view.value 1 < view.value 2 then 1 else 0)
  | 8 => .store (view.target 3) (if view.value 1 = view.value 2 then 1 else 0)
  | 9 => .rebase (view.value 1)
  | _ => .stop

end View

def Address.fault? (cell : Int) : Option Fault :=
  if cell < 0 then some (.negativeAddress cell)
  else if Address.last < cell then some (.addressOverflow cell)
  else none

theorem Address.bounds_of_fault? {cell : Int} (named : Address.fault? cell = none) :
    0 ≤ cell ∧ cell ≤ Address.last := by
  simp only [Address.fault?] at named
  split at named
  · cases named
  · split at named
    · cases named
    · omega

theorem Address.fault?_ne_unknownOpcode {cell found : Int} {address : Nat} :
    Address.fault? cell ≠ some (.unknownOpcode found address) := by
  unfold Address.fault?
  split
  · simp
  · split <;> simp

namespace View

def opcodeFault? (view : View) : Option Fault :=
  if view.head < 0 ∨ Instruction.maxEncoding < view.head ∨
      view.number ∉ [1, 2, 3, 4, 5, 6, 7, 8, 9, 99] then
    some (.unknownOpcode view.head view.ip)
  else none

def fetchFault? (view : View) : Option Fault :=
  if Address.last < view.ip + Table.arity view.number then some .pointerOverflow else none

def modeFault? (view : View) (position : Nat) : Option Fault :=
  if 2 < view.digit position then some (.invalidMode view.head position (view.digit position))
  else none

def readFault? (view : View) (position : Nat) : Option Fault :=
  if view.digit position = 1 then none else Address.fault? (view.effective position)

def writeFault? (view : View) (position : Nat) : Option Fault :=
  if view.digit position = 1 then some (.immediateWrite position (view.raw position))
  else Address.fault? (view.effective position)

/-- The fault of the place that a result is stored at, or that a taken jump goes to. -/
def placeFault? (view : View) : Option Fault :=
  match Table.place? view.number with
  | some position => view.writeFault? position
  | none => if view.jumps then Address.fault? (view.value 2) else none

/-- The faults of a decision, in the order in which they are looked for. -/
def checks (view : View) : List (Option Fault) :=
  [view.opcodeFault?, view.fetchFault?] ++
    (List.range' 1 (Table.arity view.number)).map view.modeFault? ++
    (Table.reads view.number).map view.readFault? ++ [view.placeFault?]

def instruction (view : View) : Instruction :=
  ⟨(Opcode.ofNumber? view.number).getD .halt, view.head⟩

def mode (view : View) (position : Nat) : Mode :=
  (Mode.ofDigit? (view.digit position)).getD .indirect

def operand (view : View) (position : Nat) : Operand :=
  ⟨view.raw position, position, view.mode position⟩

end View

def guarded {α : Type} (fault? : Option Fault) (value : α) : Except Fault α :=
  match fault? with
  | some fault => .error fault
  | none => .ok value

@[simp] theorem guarded_none {α : Type} (value : α) : guarded none value = .ok value := rfl

@[simp] theorem guarded_some {α : Type} (fault : Fault) (value : α) :
    guarded (some fault) value = .error fault := rfl

@[simp] theorem guarded_eq_error_iff {α : Type} {fault? : Option Fault} {fault : Fault} {value : α} :
    guarded fault? value = .error fault ↔ fault? = some fault := by
  cases fault? <;> simp

@[simp] theorem guarded_eq_ok_iff {α : Type} {fault? : Option Fault} {value result : α} :
    guarded fault? value = .ok result ↔ fault? = none ∧ value = result := by
  cases fault? <;> simp

def firstFault? (checks : List (Option Fault)) : Option Fault :=
  checks.findSome? id

@[simp] theorem firstFault?_nil : firstFault? [] = none := rfl

@[simp] theorem firstFault?_cons (fault? : Option Fault) (checks : List (Option Fault)) :
    firstFault? (fault? :: checks) = fault?.or (firstFault? checks) := by
  cases fault? <;> rfl

theorem firstFault?_append (first second : List (Option Fault)) :
    firstFault? (first ++ second) = (firstFault? first).or (firstFault? second) :=
  List.findSome?_append

theorem firstFault?_map {α : Type} (items : List α) (fault? : α → Option Fault) :
    firstFault? (items.map fault?) = items.findSome? fault? := by
  rw [firstFault?, List.findSome?_map]
  rfl

theorem mem_of_firstFault? {fault : Fault} {checks : List (Option Fault)}
    (first : firstFault? checks = some fault) : some fault ∈ checks := by
  obtain ⟨check, member, found⟩ := List.exists_of_findSome?_eq_some first
  rw [← (show check = some fault from found)]
  exact member

theorem map_guarded {α β : Type} (fault? : Option Fault) (value : α) (next : α → β) :
    (guarded fault? value).map next = guarded fault? (next value) := by
  cases fault? <;> rfl

end Intcode
