import Mathlib.Data.List.Basic
import Intcode.Execution
import Intcode.Proofs.Evaluation

/-! # What an instruction takes from its operands

An instruction reads some of its operands and stores at one of them; `Table.reads` and
`Table.place?` say which.  It learns nothing else about them: operands that come to the same
values and the same place lead to the same execution, whatever their modes
(`Family.apply_congr`).  Of its own encoding it uses the mode digits of its operands alone.
-/

namespace Intcode

theorem Eval.result_bind_congr {α β : Type} {first second : Eval α} {next later : α → Eval β}
    (same : first.result = second.result)
    (continues : ∀ value, (next value).result = (later value).result) :
    (first >>= next).result = (second >>= later).result := by
  rw [Eval.result_bind, Eval.result_bind, same]
  cases second.result with
  | error fault => rfl
  | ok value => exact continues value

namespace View

variable {view : View} {instruction : Instruction} {operands others : List Operand}

/-- The operands that the instruction reads come to the same values, and the one that it stores
at to the same place. -/
structure Alike (view : View) (instruction : Instruction) (operands others : List Operand) :
    Prop where
  values : ∀ index, index + 1 ∈ Table.reads instruction.opcode.number →
    (view.readAt instruction operands index).result = (view.readAt instruction others index).result
  place : ∀ index, Table.place? instruction.opcode.number = some (index + 1) →
    (view.locateAt instruction operands index).result =
      (view.locateAt instruction others index).result

theorem Alike.result_evaluate (alike : Alike view instruction operands others) :
    (instruction.opcode.family.evaluate view instruction operands).result =
      (instruction.opcode.family.evaluate view instruction others).result := by
  obtain ⟨opcode, encoding⟩ := instruction
  obtain ⟨values, place⟩ := alike
  cases opcode with
  | add | multiply =>
      simp only [Opcode.family, Family.evaluate, Family.evaluateArithmetic, Opcode.combine?]
      refine Eval.result_bind_congr (values 0 (.head _)) fun left => ?_
      refine Eval.result_bind_congr (values 1 (.tail _ (.head _))) fun right => ?_
      exact Eval.result_bind_congr (place 2 rfl) fun address => rfl
  | lessThan | equals =>
      simp only [Opcode.family, Family.evaluate, Family.evaluateComparison, Opcode.compare?]
      refine Eval.result_bind_congr (values 0 (.head _)) fun left => ?_
      refine Eval.result_bind_congr (values 1 (.tail _ (.head _))) fun right => ?_
      exact Eval.result_bind_congr (place 2 rfl) fun address => rfl
  | jumpIfTrue | jumpIfFalse =>
      simp only [Opcode.family, Family.evaluate, Family.evaluateControl]
      refine Eval.result_bind_congr (values 0 (.head _)) fun condition => ?_
      exact Eval.result_bind_congr (values 1 (.tail _ (.head _))) fun target => rfl
  | halt => rfl
  | input =>
      simp only [Opcode.family, Family.evaluate, Family.evaluateChannel]
      exact Eval.result_bind_congr (place 0 rfl) fun address => rfl
  | output =>
      simp only [Opcode.family, Family.evaluate, Family.evaluateChannel]
      exact Eval.result_bind_congr (values 0 (.head _)) fun value => rfl
  | adjustBase =>
      simp only [Opcode.family, Family.evaluate, Family.evaluateRegister]
      exact Eval.result_bind_congr (values 0 (.head _)) fun distance => rfl

end View

/-- The same was done, apart from what was reported on the way. -/
structure Execution.Same (execution other : Execution) : Prop where
  effect : execution.effect = other.effect
  state : execution.state = other.state
  input : execution.input = other.input

theorem State.perform_same (state : State) (input : List Int) (action : Action)
    (log other : List Event) :
    (state.perform input log action).Same (state.perform input other action) := by
  cases action <;> exact ⟨rfl, rfl, rfl⟩

namespace Family

variable {state : State} {input : List Int} {instruction : Instruction}
  {operands others : List Operand}

/-- Operands that come to the same values and the same place lead to the same execution. -/
theorem apply_congr (alike : (state.view input).Alike instruction operands others) :
    (instruction.opcode.family.apply state input instruction operands).Same
      (instruction.opcode.family.apply state input instruction others) := by
  simp only [apply, alike.result_evaluate]
  cases (instruction.opcode.family.evaluate (state.view input) instruction others).result with
  | error fault => exact ⟨rfl, rfl, rfl⟩
  | ok action => exact state.perform_same input action _ _

end Family

/-! ## Operands that are replaced -/

namespace View

variable {view : View} {instruction : Instruction} {operands : List Operand} {index : Nat}
  {operand replacement : Operand}

theorem readAt_set_of_ne {position : Nat} (other : index ≠ position) :
    view.readAt instruction (operands.set index replacement) position =
      view.readAt instruction operands position := by
  simp only [readAt, operandAt, List.getElem?_set_ne other]

theorem locateAt_set_of_ne {position : Nat} (other : index ≠ position) :
    view.locateAt instruction (operands.set index replacement) position =
      view.locateAt instruction operands position := by
  simp only [locateAt, operandAt, List.getElem?_set_ne other]

theorem getElem?_set_of_found (found : operands[index]? = some operand) :
    (operands.set index replacement)[index]? = some replacement := by
  obtain ⟨within, -⟩ := List.getElem?_eq_some_iff.mp found
  exact List.getElem?_set_self within

theorem result_readAt_set (found : operands[index]? = some operand)
    (same : operand.value view.memory view.base = replacement.value view.memory view.base)
    (position : Nat) :
    (view.readAt instruction operands position).result =
      (view.readAt instruction (operands.set index replacement) position).result := by
  by_cases here : index = position
  · subst here
    rw [result_readAt_of_getElem? found, result_readAt_of_getElem? (getElem?_set_of_found found), same]
  · rw [readAt_set_of_ne here]

theorem result_locateAt_set (found : operands[index]? = some operand)
    (same : operand.target view.base = replacement.target view.base) (position : Nat) :
    (view.locateAt instruction operands position).result =
      (view.locateAt instruction (operands.set index replacement) position).result := by
  by_cases here : index = position
  · subst here
    rw [result_locateAt_of_getElem? found,
      result_locateAt_of_getElem? (getElem?_set_of_found found), same]
  · rw [locateAt_set_of_ne here]

end View

/-- The operand that names the same cell without the base. -/
def Operand.absolute (operand : Operand) (base : Base) : Operand :=
  { operand with raw := operand.raw + base.value, mode := .indirect }

/-- The operand that is a value by itself. -/
def Operand.literal (operand : Operand) (value : Int) : Operand :=
  { operand with raw := value, mode := .immediate }

section

variable {view : View} {instruction : Instruction} {operands : List Operand} {index : Nat}
  {operand : Operand}

theorem Operand.value_absolute (relative : operand.mode = .relative) (memory : Nat → Int)
    (base : Base) : operand.value memory base = (operand.absolute base).value memory base := by
  simp only [value, absolute, relative, Base.offset]

theorem Operand.target_absolute (relative : operand.mode = .relative) (base : Base) :
    operand.target base = (operand.absolute base).target base := by
  simp only [target, absolute, relative, Base.offset]

theorem View.alike_absolute (found : operands[index]? = some operand)
    (relative : operand.mode = .relative) :
    view.Alike instruction operands (operands.set index (operand.absolute view.base)) where
  values position _ := result_readAt_set found (operand.value_absolute relative _ _) position
  place position _ := result_locateAt_set found (operand.target_absolute relative _) position

/-- No instruction stores at an operand that it reads. -/
theorem Table.place?_ne_of_mem_reads {number : Int} {position : Nat}
    (reads : position ∈ Table.reads number) : Table.place? number ≠ some position := by
  intro stores
  unfold Table.place? at stores
  split at stores <;> cases stores <;> simp [Table.reads] at reads

theorem View.alike_literal {value : Int} (found : operands[index]? = some operand)
    (reads : index + 1 ∈ Table.reads instruction.opcode.number)
    (comesTo : operand.value view.memory view.base = .ok value) :
    view.Alike instruction operands (operands.set index (operand.literal value)) where
  values position _ := result_readAt_set found comesTo position
  place position stores := by
    have other : index ≠ position := by
      rintro rfl
      exact Table.place?_ne_of_mem_reads reads stores
    rw [locateAt_set_of_ne other]

end

/-! ## Results that are stored -/

/-- What an instruction makes of the two values that it reads, where it stores a result. -/
def Opcode.combined : Opcode → Int → Int → Int
  | .add, left, right => left + right
  | .multiply, left, right => left * right
  | .lessThan, left, right => if left < right then 1 else 0
  | .equals, left, right => if left = right then 1 else 0
  | _, _, _ => 0

/-- The place and the value of a stored result, from what the operands come to. -/
def Opcode.written (opcode : Opcode) (left right : Except Fault Int) (place : Except Fault Nat) :
    Except Fault (Nat × Int) := do
  let left ← left
  let right ← right
  let address ← place
  return (address, opcode.combined left right)

def State.storing (state : State) (input : List Int) : Except Fault (Nat × Int) → Execution
  | .error fault => ⟨.error fault, state, input, []⟩
  | .ok (address, value) => state.perform input [] (.store address value)

namespace View

variable {view : View} {instruction : Instruction} {first second third : Operand}

theorem result_of_stored {next : Int → Int → Nat → Eval Action}
    (ends : ∀ left right address, (next left right address).result =
      .ok (.store address (instruction.opcode.combined left right))) :
    (do
      let left ← view.readAt instruction [first, second, third] 0
      let right ← view.readAt instruction [first, second, third] 1
      let address ← view.locateAt instruction [first, second, third] 2
      next left right address).result =
      (instruction.opcode.written (first.value view.memory view.base)
        (second.value view.memory view.base) (third.target view.base)).map
          fun (address, value) => .store address value := by
  have leftRead : (view.readAt instruction [first, second, third] 0).result = _ :=
    result_readAt_of_getElem? rfl
  have rightRead : (view.readAt instruction [first, second, third] 1).result = _ :=
    result_readAt_of_getElem? rfl
  have located : (view.locateAt instruction [first, second, third] 2).result = _ :=
    result_locateAt_of_getElem? rfl
  simp only [Eval.result_bind, ends, leftRead, rightRead, located]
  cases first.value view.memory view.base with
  | error fault => rfl
  | ok left =>
      cases second.value view.memory view.base with
      | error fault => rfl
      | ok right => cases third.target view.base <;> rfl

theorem result_evaluate_storing (view : View)
    (stores : instruction.opcode ∈ [.add, .multiply, .lessThan, .equals])
    (first second third : Operand) :
    (instruction.opcode.family.evaluate view instruction [first, second, third]).result =
      (instruction.opcode.written (first.value view.memory view.base)
        (second.value view.memory view.base) (third.target view.base)).map
          fun (address, value) => .store address value := by
  obtain ⟨opcode, encoding⟩ := instruction
  simp only [List.mem_cons, List.not_mem_nil, or_false] at stores
  rcases stores with rfl | rfl | rfl | rfl
  · exact result_of_stored fun left right address => rfl
  · exact result_of_stored fun left right address => rfl
  · refine result_of_stored fun left right address => ?_
    rw [Eval.result_bind_report]
    simp [Opcode.combined]
  · refine result_of_stored fun left right address => ?_
    rw [Eval.result_bind_report]
    simp [Opcode.combined]

end View

namespace Family

theorem apply_storing {state : State} {input : List Int} {instruction : Instruction}
    (stores : instruction.opcode ∈ [.add, .multiply, .lessThan, .equals])
    (first second third : Operand) :
    (instruction.opcode.family.apply state input instruction [first, second, third]).Same
      (state.storing input (instruction.opcode.written (first.value state.memory.read state.base)
        (second.value state.memory.read state.base) (third.target state.base))) := by
  have decided := (state.view input).result_evaluate_storing stores first second third
  simp only [State.view] at decided
  simp only [apply, State.view, decided]
  cases instruction.opcode.written (first.value state.memory.read state.base)
      (second.value state.memory.read state.base) (third.target state.base) with
  | error fault => exact ⟨rfl, rfl, rfl⟩
  | ok result => exact state.perform_same input (.store result.1 result.2) _ _

/-- A relative operand can be replaced by the indirect one for the same cell, and an operand that is
read by the value that it comes to.  A stored result and its place follow from what the three
operands come to. -/
theorem modes_interchangeable (state : State) (input : List Int) (instruction : Instruction)
    (operands : List Operand) :
    let run := instruction.opcode.family.apply state input instruction
    (∀ index operand, operands[index]? = some operand → operand.mode = .relative →
        (run operands).Same (run (operands.set index (operand.absolute state.base)))) ∧
      (∀ index operand value, operands[index]? = some operand →
        index + 1 ∈ Table.reads instruction.opcode.number →
        operand.value state.memory.read state.base = .ok value →
          (run operands).Same (run (operands.set index (operand.literal value)))) ∧
      ∀ first second third, instruction.opcode ∈ [.add, .multiply, .lessThan, .equals] →
        operands = [first, second, third] →
          (run operands).Same (state.storing input
            (instruction.opcode.written (first.value state.memory.read state.base)
              (second.value state.memory.read state.base) (third.target state.base))) := by
  intro run
  refine ⟨?_, ?_, ?_⟩
  · intro index operand found relative
    exact apply_congr (View.alike_absolute found relative)
  · intro index operand value found reads comesTo
    exact apply_congr (View.alike_literal found reads comesTo)
  · rintro first second third stores rfl
    exact apply_storing stores first second third

/-- A comparison of a cell at the base with a negative literal, stored next to the base. -/
theorem modes_interchangeable_comparison :
    let state : State := { State.initial (.ofCells .dense [0, 0, -4]) with base := ⟨2⟩ }
    let instruction : Instruction := ⟨.equals, 21208⟩
    let operands : List Operand := [⟨0, 1, .relative⟩, ⟨-4, 2, .immediate⟩, ⟨1, 3, .relative⟩]
    let run := instruction.opcode.family.apply state [] instruction
    (run operands).Same (run [⟨0, 1, .relative⟩, ⟨-4, 2, .immediate⟩, ⟨3, 3, .indirect⟩]) ∧
      (run operands).Same (run [⟨-4, 1, .immediate⟩, ⟨-4, 2, .immediate⟩, ⟨1, 3, .relative⟩]) ∧
      (run operands).Same (state.storing [] (.ok (3, 1))) := by
  intro state instruction operands run
  obtain ⟨absolute, literal, stored⟩ := modes_interchangeable state [] instruction operands
  have relocated := absolute 2 ⟨1, 3, .relative⟩ rfl rfl
  have valued := literal 0 ⟨0, 1, .relative⟩ (-4) rfl (by decide) rfl
  have written := stored ⟨0, 1, .relative⟩ ⟨-4, 2, .immediate⟩ ⟨1, 3, .relative⟩ (by decide) rfl
  have comesTo : instruction.opcode.written
      (Operand.value ⟨0, 1, .relative⟩ state.memory.read state.base)
      (Operand.value ⟨-4, 2, .immediate⟩ state.memory.read state.base)
      (Operand.target ⟨1, 3, .relative⟩ state.base) = .ok (3, 1) := rfl
  rw [comesTo] at written
  exact ⟨relocated, valued, written⟩

end Family

/-! ## Digits beyond the operands -/

namespace Operand

variable {first second : Instruction}

theorem length_ofCellsFrom {instruction : Instruction} {position : Nat} {cells : List Int}
    {operands : List Operand} (paired : ofCellsFrom instruction position cells = .ok operands) :
    operands.length = cells.length := by
  induction cells generalizing position operands with
  | nil =>
      cases paired
      rfl
  | cons raw cells ih =>
      simp only [ofCellsFrom] at paired
      split at paired
      · contradiction
      · split at paired
        · contradiction
        · rename_i rest
          cases paired
          rw [List.length_cons, List.length_cons, ih rest]

/-- Instructions that agree on the digits of their operands pair them alike, or both fail at the
first digit that is no mode. -/
theorem ofCellsFrom_of_agree {position : Nat} {cells : List Int}
    (agree : ∀ place ∈ List.range' position cells.length,
      modeDigit first.encoding place = modeDigit second.encoding place) :
    ofCellsFrom first position cells = ofCellsFrom second position cells ∨
      ∃ place digit,
        ofCellsFrom first position cells = .error (.invalidMode first.encoding place digit) ∧
          ofCellsFrom second position cells = .error (.invalidMode second.encoding place digit) := by
  induction cells generalizing position with
  | nil => exact .inl rfl
  | cons raw cells ih =>
      rw [List.length_cons, List.range'_succ, List.forall_mem_cons] at agree
      simp only [ofCellsFrom, Instruction.mode, Instruction.modeOf, agree.1]
      cases Mode.ofDigit? (modeDigit second.encoding position) with
      | none => exact .inr ⟨position, _, rfl, rfl⟩
      | some mode =>
          rcases ih agree.2 with same | ⟨place, digit, failed, failedToo⟩
          · exact .inl (by rw [same])
          · simp only [failed, failedToo]
            exact .inr ⟨place, digit, rfl, rfl⟩

end Operand

/-- An instruction with all of its operands needs its encoding no more. -/
theorem Family.evaluate_of_encodings (view : View) (opcode : Opcode) (encoding other : Int)
    {operands : List Operand} (fits : operands.length = opcode.arity) :
    opcode.family.evaluate view ⟨opcode, encoding⟩ operands =
      opcode.family.evaluate view ⟨opcode, other⟩ operands := by
  cases opcode with
  | add | multiply | lessThan | equals =>
      obtain ⟨first, second, third, rfl⟩ := List.length_eq_three.mp fits
      rfl
  | jumpIfTrue | jumpIfFalse =>
      obtain ⟨condition, target, rfl⟩ := List.length_eq_two.mp fits
      rfl
  | input | output | adjustBase =>
      obtain ⟨operand, rfl⟩ := List.length_eq_one_iff.mp fits
      rfl
  | halt => rfl

namespace State

/-- Two instructions of one kind whose encodings agree on the modes of the operands do the same, or
both fail at one digit that is no mode, each with its own encoding. -/
theorem spare_digits_inert (state : State) (input : List Int) {first second : Instruction}
    (alike : first.opcode = second.opcode) {cells : List Int} (fits : cells.length = first.arity)
    (agree : ∀ position ∈ List.range' 1 first.arity,
      modeDigit first.encoding position = modeDigit second.encoding position) :
    state.execute input first cells = state.execute input second cells ∨
      ∃ position digit,
        state.execute input first cells =
            ⟨.error (.invalidMode first.encoding position digit), state, input, []⟩ ∧
          state.execute input second cells =
            ⟨.error (.invalidMode second.encoding position digit), state, input, []⟩ := by
  rw [← fits] at agree
  obtain ⟨opcode, encoding⟩ := first
  obtain ⟨_, other⟩ := second
  subst alike
  simp only [execute, Family.execute, Operand.ofCells]
  rcases Operand.ofCellsFrom_of_agree agree with same | ⟨position, digit, failed, failedToo⟩
  · rw [same]
    cases paired : Operand.ofCellsFrom ⟨opcode, other⟩ 1 cells with
    | error fault => exact .inl rfl
    | ok operands =>
        have complete : operands.length = opcode.arity :=
          (Operand.length_ofCellsFrom paired).trans fits
        refine .inl ?_
        simp only [Family.apply, Family.evaluate_of_encodings _ opcode encoding other complete]
  · rw [failed, failedToo]
    exact .inr ⟨position, digit, rfl, rfl⟩

/-- A sum whose encodings differ from the sixth digit on, and a test whose first mode digit is none. -/
theorem spare_digits_inert_nines :
    let state := State.initial (.ofCells .sparse [5])
    state.execute [] ⟨.add, 20101⟩ [7, 0, 3] = state.execute [] ⟨.add, 9876543999920101⟩ [7, 0, 3] ∧
      (state.execute [] ⟨.add, 20101⟩ [7, 0, 3]).effect = .ok .proceed ∧
      (state.execute [] ⟨.jumpIfTrue, 405⟩ [7, 0]).effect = .error (.invalidMode 405 1 4) ∧
      (state.execute [] ⟨.jumpIfTrue, 990405⟩ [7, 0]).effect =
        .error (.invalidMode 990405 1 4) := by
  intro state
  have sum := @spare_digits_inert state [] ⟨.add, 20101⟩ ⟨.add, 9876543999920101⟩ rfl [7, 0, 3] rfl
    (by decide)
  have jump := @spare_digits_inert state [] ⟨.jumpIfTrue, 405⟩ ⟨.jumpIfTrue, 990405⟩ rfl [7, 0] rfl
    (by decide)
  have added : (state.execute [] ⟨.add, 20101⟩ [7, 0, 3]).effect = .ok .proceed := rfl
  have refused : (state.execute [] ⟨.jumpIfTrue, 405⟩ [7, 0]).effect =
      .error (.invalidMode 405 1 4) := rfl
  have sameSum := sum.resolve_right fun ⟨_, _, failed, _⟩ => by
    rw [failed] at added
    contradiction
  have sameFault : (state.execute [] ⟨.jumpIfTrue, 990405⟩ [7, 0]).effect =
      .error (.invalidMode 990405 1 4) := by
    rcases jump with same | ⟨position, digit, failed, failedToo⟩
    · have effects := congrArg Execution.effect same
      change Except.error (Fault.invalidMode 405 1 4) = .error (.invalidMode 990405 1 4) at effects
      simp at effects
    · rw [failed] at refused
      cases refused
      rw [failedToo]
  exact ⟨sameSum, added, refused, sameFault⟩

end State

end Intcode
