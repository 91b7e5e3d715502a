import Intcode.Proofs.Acceptance
import Intcode.Proofs.Enactment

/-! When a step fails, and with which fault.

`Machine.checks` lists every reason for which a step can fail, in the order in which they
count: the checks of the decision, then the memory that refuses an address, then the
instruction pointer that leaves the addresses. The answer of a step is the first of them.
-/

namespace Intcode

namespace View

variable {view : View}

theorem address?_action (known : view.opcodeFault? = none) :
    view.action.address? =
      if view.starves then none else (Table.place? view.number).map view.target := by
  obtain ⟨opcode, number, -⟩ := exists_opcode known
  simp only [action, starves, number]
  cases opcode with
  | input => cases view.pending <;> rfl
  | jumpIfTrue | jumpIfFalse => cases view.jumps <;> rfl
  | _ => rfl

theorem proceeds_action (known : view.opcodeFault? = none) :
    view.action.proceeds = (!view.starves && !view.jumps && view.number ≠ 99) := by
  obtain ⟨opcode, number, -⟩ := exists_opcode known
  simp only [action, starves, number]
  cases opcode with
  | input => cases pending : view.pending <;> simp [jumps, number, Opcode.number, Action.proceeds]
  | jumpIfTrue | jumpIfFalse => cases view.jumps <;> rfl
  | _ => simp [jumps, number, Opcode.number, Action.proceeds]

end View

namespace Machine

variable {machine : Machine}

/-- An array is too short for the address that is stored at and must not grow to it. An
input that is not there is not stored. -/
def storageFault? (machine : Machine) : Option Fault :=
  match Table.place? machine.view.number, machine.state.memory with
  | some position, .dense memory =>
      if !machine.view.starves ∧ max memory.length Store.Dense.limit ≤ machine.view.target position then
        some (.addressOverflow (machine.view.target position))
      else none
  | _, _ => none

/-- The instruction after this one is the next, and lies beyond the last address. -/
def advanceFault? (machine : Machine) : Option Fault :=
  if (!machine.view.starves && !machine.view.jumps && machine.view.number ≠ 99) ∧
      Address.last < machine.state.ip + (1 + Table.arity machine.view.number) then
    some .pointerOverflow
  else none

/-- The faults of a step, in the order in which they count. -/
def checks (machine : Machine) : List (Option Fault) :=
  machine.view.checks ++ [machine.storageFault?, machine.advanceFault?]

theorem refusal?_action (known : machine.view.opcodeFault? = none) :
    machine.running.refusal? machine.view.action = machine.storageFault? := by
  have memory : machine.running.state.memory = machine.state.memory := rfl
  unfold refusal? storageFault?
  rw [View.address?_action known, memory]
  cases machine.view.starves with
  | true => cases Table.place? machine.view.number <;> cases machine.state.memory <;> rfl
  | false =>
      cases Table.place? machine.view.number with
      | none => rfl
      | some position =>
          cases stored : machine.state.memory with
          | sparse cells => rfl
          | dense cells =>
              have refuses : (Store.dense cells).accepts (machine.view.target position) = false ↔
                  max cells.length Store.Dense.limit ≤ machine.view.target position :=
                Store.refuses_iff rfl
              by_cases beyond : max cells.length Store.Dense.limit ≤ machine.view.target position
              · simp [refuses.mpr beyond, beyond]
              · have accepted := eq_true_of_ne_false fun refused => beyond (refuses.mp refused)
                simp [accepted, beyond]

theorem overrun?_action (known : machine.view.opcodeFault? = none) :
    machine.running.overrun? (1 + Table.arity machine.view.number) machine.view.action =
      machine.advanceFault? := by
  have ip : machine.running.state.ip = machine.state.ip := rfl
  rw [overrun?, View.proceeds_action known, ip, advanceFault?]

/-- A step answers with the first fault that applies, and with the outcome of the table if
there is none. -/
theorem answer_step (going : machine.state.isTerminated = false) :
    machine.step.answer = guarded (firstFault? machine.checks) machine.view.action.outcome := by
  have notFinal := final?_of_not_terminated going
  rw [checks, firstFault?_append]
  cases failed : firstFault? machine.view.checks with
  | some fault =>
      rw [step_of_fault notFinal failed]
      rfl
  | none =>
      obtain ⟨known, -⟩ := View.clear_checks failed
      rw [step_of_action notFinal failed, answer_enact, refusal?_action known, overrun?_action known]
      simp only [Option.none_or, firstFault?_cons, firstFault?_nil, Option.or_none]

/-- A step that does not fail has passed all checks and leaves what its action leaves. -/
theorem step_of_ok {outcome : Outcome} (going : machine.state.isTerminated = false)
    (completed : machine.step.answer = .ok outcome) :
    firstFault? machine.view.checks = none ∧
      machine.running.refusal? machine.view.action = none ∧
      machine.view.action.outcome = outcome ∧
      machine.step.machine =
        machine.running.after (1 + Table.arity machine.view.number) machine.view.action := by
  rw [answer_step going, guarded_eq_ok_iff] at completed
  obtain ⟨passed, outcome⟩ := completed
  simp only [checks, firstFault?_append, firstFault?_cons, firstFault?_nil, Option.or_none,
    Option.or_eq_none_iff] at passed
  obtain ⟨decided, accepted, advanced⟩ := passed
  obtain ⟨known, -⟩ := View.clear_checks decided
  rw [← refusal?_action known] at accepted
  rw [← overrun?_action known] at advanced
  refine ⟨decided, accepted, outcome, ?_⟩
  rw [step_of_action (final?_of_not_terminated going) decided]
  exact machine.running.machine_enact _ _ accepted advanced

/-- Only the first check reports an instruction that is not known. -/
theorem opcodeFault?_of_mem {cell : Int} {address : Nat}
    (member : some (.unknownOpcode cell address) ∈ machine.checks) :
    machine.view.opcodeFault? = some (.unknownOpcode cell address) := by
  simp only [checks, View.checks, List.mem_append, List.mem_cons, List.mem_map, List.not_mem_nil,
    or_false] at member
  rcases member with ((((opcode | fetch) | ⟨position, _, mode⟩) | ⟨position, _, read⟩) | place) |
    storage | advance
  · exact opcode.symm
  · simp only [View.fetchFault?] at fetch
    split at fetch <;> cases fetch
  · simp only [View.modeFault?] at mode
    split at mode <;> cases mode
  · simp only [View.readFault?] at read
    split at read
    · contradiction
    · exact absurd read Address.fault?_ne_unknownOpcode
  · simp only [View.placeFault?, View.writeFault?] at place
    split at place
    · split at place
      · cases place
      · exact absurd place.symm Address.fault?_ne_unknownOpcode
    · split at place
      · exact absurd place.symm Address.fault?_ne_unknownOpcode
      · contradiction
  · simp only [storageFault?] at storage
    split at storage
    · split at storage <;> cases storage
    · contradiction
  · simp only [advanceFault?] at advance
    split at advance <;> cases advance

/-- A step fails exactly if one of the checks does, and then with the first of them. An
instruction is unknown exactly if its cell is negative, too large, or has no number of
the set. -/
theorem step_fails_iff (going : machine.state.isTerminated = false) :
    (∀ fault, machine.step.answer = .error fault ↔ firstFault? machine.checks = some fault) ∧
      ∀ cell address, machine.step.answer = .error (.unknownOpcode cell address) ↔
        (cell = machine.view.head ∧ address = machine.state.ip) ∧
          (machine.view.head < 0 ∨ Instruction.maxEncoding < machine.view.head ∨
            machine.view.number ∉ [1, 2, 3, 4, 5, 6, 7, 8, 9, 99]) := by
  have fails : ∀ fault, machine.step.answer = .error fault ↔
      firstFault? machine.checks = some fault := by
    intro fault
    rw [answer_step going, guarded_eq_error_iff]
  refine ⟨fails, ?_⟩
  intro cell address
  rw [fails]
  constructor
  · intro first
    have unknown := opcodeFault?_of_mem (mem_of_firstFault? first)
    simp only [View.opcodeFault?] at unknown
    split at unknown
    · rename_i outside
      cases unknown
      exact ⟨⟨rfl, rfl⟩, outside⟩
    · contradiction
  · rintro ⟨⟨rfl, rfl⟩, outside⟩
    have unknown : machine.view.opcodeFault? =
        some (.unknownOpcode machine.view.head machine.state.ip) := if_pos outside
    simp only [checks, View.checks, firstFault?_append, firstFault?_cons, unknown,
      Option.some_or]

/-- A mode digit that selects nothing counts before operands that name no address. -/
theorem step_fails_at_mode :
    (load .dense 1 [30001, -1, -2, -3]).state.isTerminated = false ∧
      (load .dense 1 [30001, -1, -2, -3]).step.answer = .error (.invalidMode 30001 3 3) :=
  ⟨rfl, ((step_fails_iff rfl).1 _).mpr (by decide +kernel)⟩

end Machine

end Intcode
