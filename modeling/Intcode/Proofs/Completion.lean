import Intcode.Proofs.Faults

/-! What a completed step has done.

`Machine.Completes` is the instruction table as a relation between two machines. It speaks
of the cell at the instruction pointer, its digits and the cells after it, and of the
values and addresses that they denote in the machine before the step.
-/

namespace Intcode

def View.result? (view : View) : Option Int :=
  match view.number with
  | 1 => some (view.value 1 + view.value 2)
  | 2 => some (view.value 1 * view.value 2)
  | 3 => view.pending
  | 7 => some (if view.value 1 < view.value 2 then 1 else 0)
  | 8 => some (if view.value 1 = view.value 2 then 1 else 0)
  | _ => none

namespace Machine

structure Completes (before : Machine) (outcome : Outcome) (after : Machine) : Prop where
  encoded : 0 ≤ before.view.head ∧ before.view.number ∈ [1, 2, 3, 4, 5, 6, 7, 8, 9, 99]
  modes : ∀ position ∈ List.range' 1 (Table.arity before.view.number),
    before.view.digit position ∈ [0, 1, 2]
  reads : ∀ position ∈ Table.reads before.view.number, before.view.digit position ≠ 1 →
    0 ≤ before.view.effective position ∧ before.view.effective position ≤ Address.last
  place : ∀ position, Table.place? before.view.number = some position →
    before.view.digit position ≠ 1 ∧
      0 ≤ before.view.effective position ∧ before.view.effective position ≤ Address.last
  memory :
    match before.view.result? with
    | some value => ∃ position, Table.place? before.view.number = some position ∧
        before.state.memory.write (before.view.target position) value = .ok after.state.memory
    | none => after.state.memory = before.state.memory
  base : after.state.base.value =
    before.state.base.value + if before.view.number = 9 then before.view.value 1 else 0
  ip : (after.state.ip : Int) =
    if before.view.jumps then before.view.value 2
    else if before.view.number = 99 ∨ before.view.starves then before.state.ip
    else before.state.ip + 1 + Table.arity before.view.number
  input : after.input = if before.view.number = 3 then before.input.tail else before.input
  output : after.output =
    if before.view.number = 4 then before.output.push (before.view.value 1) else before.output
  steps : after.state.steps =
    if before.view.starves then before.state.steps else before.state.steps + 1
  status : after.state.status =
    if before.view.number = 99 then .halted
    else if before.view.starves then .awaitingInput
    else .running
  outcome : outcome =
    if before.view.number = 99 then .halted
    else if before.view.starves then .awaitingInput
    else if before.view.number = 4 then .output (before.view.value 1)
    else .executed
  kept : after.id = before.id ∧ after.kind = before.kind ∧ after.program = before.program ∧
    after.state.fault = before.state.fault

theorem accepts_of_not_refused {machine : Machine} {action : Action} {address : Nat}
    (accepted : machine.refusal? action = none) (stores : action.address? = some address) :
    machine.state.memory.accepts address = true := by
  simpa [refusal?, stores] using accepted

variable {machine : Machine}

theorem memory_after (known : machine.view.opcodeFault? = none)
    (accepted : machine.running.refusal? machine.view.action = none) (width : Nat) :
    match machine.view.result? with
    | some value => ∃ position, Table.place? machine.view.number = some position ∧
        machine.state.memory.write (machine.view.target position) value =
          .ok (machine.running.after width machine.view.action).state.memory
    | none => (machine.running.after width machine.view.action).state.memory = machine.state.memory := by
  have accepts := fun address => @accepts_of_not_refused _ _ address accepted
  obtain ⟨opcode, number, -⟩ := View.exists_opcode known
  simp only [View.result?, View.action, number] at accepts ⊢
  cases opcode with
  | add | multiply | lessThan | equals =>
      exact ⟨3, rfl, Store.write_of_accepts (accepts _ rfl) _⟩
  | input =>
      simp only [Opcode.number] at accepts ⊢
      cases pending : machine.view.pending with
      | none => rfl
      | some value =>
          rw [pending] at accepts
          exact ⟨1, rfl, Store.write_of_accepts (accepts _ rfl) _⟩
  | jumpIfTrue | jumpIfFalse => cases machine.view.jumps <;> rfl
  | _ => rfl

end Machine

namespace View

variable {view : View}

theorem digit_of_modeFault? {position : Nat} (valid : view.modeFault? position = none) :
    view.digit position ∈ [0, 1, 2] := by
  rw [← digit_mode valid]
  cases view.mode position <;> decide

theorem bounds_of_readFault? {position : Nat} (read : view.readFault? position = none)
    (addressed : view.digit position ≠ 1) :
    0 ≤ view.effective position ∧ view.effective position ≤ Address.last := by
  rw [readFault?, if_neg addressed] at read
  exact Address.bounds_of_fault? read

theorem bounds_of_placeFault? {position : Nat} (placed : view.placeFault? = none)
    (found : Table.place? view.number = some position) :
    view.digit position ≠ 1 ∧
      0 ≤ view.effective position ∧ view.effective position ≤ Address.last := by
  simp only [placeFault?, found, writeFault?] at placed
  split at placed
  · contradiction
  · rename_i addressed
    exact ⟨addressed, Address.bounds_of_fault? placed⟩

theorem jump_bounds (placed : view.placeFault? = none) (jumping : view.jumps = true) :
    0 ≤ view.value 2 ∧ view.value 2 ≤ Address.last := by
  have number : view.number = 5 ∨ view.number = 6 := by
    simp only [jumps, decide_eq_true_eq] at jumping
    rcases jumping with ⟨number, -⟩ | ⟨number, -⟩
    · exact .inl number
    · exact .inr number
  have noPlace : Table.place? view.number = none := by
    rcases number with number | number <;> rw [number] <;> rfl
  apply Address.bounds_of_fault?
  simpa only [placeFault?, noPlace, jumping, if_true] using placed

/-- What an action changes, in the terms of the table. -/
structure Determines (view : View) (action : Action) : Prop where
  rebased : ∀ base : Base, (action.rebased base).value =
    base.value + if view.number = 9 then view.value 1 else 0
  moved : ∀ width ip : Nat, (action.moved width ip : Int) =
    if view.jumps then view.value 2
    else if view.number = 99 ∨ view.starves then ip
    else ip + width
  entered : ∀ status, action.entered status =
    if view.number = 99 then .halted else if view.starves then .awaitingInput else status
  counted : ∀ steps, action.counted steps = if view.starves then steps else steps + 1
  consumed : ∀ input, action.consumed input =
    if view.number = 3 ∧ view.pending ≠ none then input.tail else input
  emitted : ∀ output : Array Int, action.emitted output =
    if view.number = 4 then output.push (view.value 1) else output
  outcome : action.outcome =
    if view.number = 99 then .halted
    else if view.starves then .awaitingInput
    else if view.number = 4 then .output (view.value 1)
    else .executed

theorem determines_action (known : view.opcodeFault? = none) (placed : view.placeFault? = none) :
    view.Determines view.action := by
  obtain ⟨opcode, number, -⟩ := exists_opcode known
  have target : view.jumps = true → ((view.value 2).toNat : Int) = view.value 2 :=
    fun jumping => Int.toNat_of_nonneg (jump_bounds placed jumping).1
  simp only [action, number]
  cases opcode with
  | jumpIfTrue | jumpIfFalse =>
      cases jumping : view.jumps <;> constructor <;>
        simp [starves, number, Opcode.number, jumping, target, Action.rebased, Action.moved,
          Action.entered, Action.counted, Action.consumed, Action.emitted, Action.outcome]
  | input =>
      cases pending : view.pending <;> constructor <;>
        simp [starves, jumps, number, Opcode.number, pending, Action.rebased, Action.moved,
          Action.entered, Action.counted, Action.consumed, Action.emitted, Action.outcome]
  | _ =>
      constructor <;>
        simp [starves, jumps, number, Opcode.number, Base.adjust, Action.rebased, Action.moved,
          Action.entered, Action.counted, Action.consumed, Action.emitted, Action.outcome]

end View

namespace Machine

variable {machine : Machine}

theorem input_after (known : machine.view.opcodeFault? = none)
    (placed : machine.view.placeFault? = none) :
    machine.view.action.consumed machine.input =
      if machine.view.number = 3 then machine.input.tail else machine.input := by
  have pending : machine.view.pending = machine.input.head? := rfl
  rw [(View.determines_action known placed).consumed, pending]
  cases machine.input <;> simp

/-- A step that does not fail does what the table says. -/
theorem step_completes {outcome : Outcome} (going : machine.state.isTerminated = false)
    (completed : machine.step.answer = .ok outcome) :
    machine.Completes outcome machine.step.machine := by
  obtain ⟨decided, accepted, rfl, changed⟩ := step_of_ok going completed
  obtain ⟨known, -, modes, reads, placed⟩ := View.clear_checks decided
  have determined := View.determines_action known placed
  rw [changed]
  exact {
    encoded := ⟨View.head_nonneg known, View.number_mem known⟩
    modes := fun position member => View.digit_of_modeFault? (modes position member)
    reads := fun position member => View.bounds_of_readFault? (reads position member)
    place := fun position found => View.bounds_of_placeFault? placed found
    memory := memory_after known accepted _
    base := determined.rebased _
    ip := by
      have moved := determined.moved (1 + Table.arity machine.view.number) machine.state.ip
      rw [Int.natCast_add, ← Int.add_assoc] at moved
      exact moved
    input := input_after known placed
    output := determined.emitted _
    steps := determined.counted _
    status := determined.entered _
    outcome := determined.outcome
    kept := ⟨rfl, rfl, rfl, rfl⟩ }

/-- The product of an immediate and a relative operand overwrites the cell at the
instruction pointer. -/
theorem step_completes_multiply :
    (load .sparse 1 [2102, 3, 4, 0, 5]).state.isTerminated = false ∧
      (load .sparse 1 [2102, 3, 4, 0, 5]).step.answer = .ok .executed ∧
      (load .sparse 1 [2102, 3, 4, 0, 5]).Completes .executed
        (load .sparse 1 [2102, 3, 4, 0, 5]).step.machine :=
  ⟨rfl, rfl, step_completes rfl rfl⟩

end Machine

end Intcode
