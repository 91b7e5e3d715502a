import Intcode.Proofs.Completion

/-! What a failed step leaves behind.

A step can fail at three points. In the decision nothing has been touched. When the memory
refuses a place, an input that was to be stored there has been taken. When the next
instruction would lie beyond the last address, this one has done everything else.
`Machine.failure_cases` gives the machine after each of them, and what is kept of memory,
base and inputs is read off there.
-/

namespace Intcode

theorem View.beyond_of_pointerOverflow {view : View}
    (member : some .pointerOverflow ∈ view.checks) :
    Address.last < view.ip + Table.arity view.number := by
  have address : ∀ cell, some Fault.pointerOverflow ≠ Address.fault? cell := by
    intro cell
    unfold Address.fault?
    split
    · simp
    · split <;> simp
  simp only [View.checks, List.mem_append, List.mem_cons, List.mem_map, List.not_mem_nil,
    or_false] at member
  rcases member with (((opcode | fetch) | ⟨position, _, mode⟩) | ⟨position, _, read⟩) | place
  · simp only [View.opcodeFault?] at opcode
    split at opcode <;> cases opcode
  · simp only [View.fetchFault?] at fetch
    split at fetch
    · assumption
    · cases fetch
  · simp only [View.modeFault?] at mode
    split at mode <;> cases mode
  · simp only [View.readFault?] at read
    split at read
    · cases read
    · exact absurd read.symm (address _)
  · simp only [View.placeFault?, View.writeFault?] at place
    split at place
    · split at place
      · cases place
      · exact absurd place (address _)
    · split at place
      · exact absurd place (address _)
      · cases place

namespace Machine

variable {machine : Machine} {fault : Fault}

theorem failure_cases (going : machine.final? = none)
    (failed : machine.step.answer = .error fault) :
    (firstFault? machine.view.checks = some fault ∧
        machine.step.machine = { machine with state := machine.state.fail fault }) ∨
      (firstFault? machine.view.checks = none ∧ machine.storageFault? = some fault ∧
        machine.step.machine =
          { machine with
            state := machine.state.fail fault
            input := machine.view.action.consumed machine.input }) ∨
      (firstFault? machine.view.checks = none ∧ machine.storageFault? = none ∧
        machine.advanceFault? = some fault ∧
        machine.step.machine =
          { machine.changed machine.view.action with
            state := (machine.changed machine.view.action).state.fail fault }) := by
  cases decided : firstFault? machine.view.checks with
  | some found =>
      rw [step_of_fault going decided] at failed ⊢
      cases failed
      exact .inl ⟨rfl, rfl⟩
  | none =>
      obtain ⟨known, -⟩ := View.clear_checks decided
      rw [step_of_action going decided, enact_eq, refusal?_action known,
        overrun?_action known] at failed ⊢
      cases refused : machine.storageFault? with
      | some found =>
          rw [refused] at failed
          cases failed
          exact .inr (.inl ⟨rfl, rfl, rfl⟩)
      | none =>
          rw [refused] at failed
          cases advanced : machine.advanceFault? with
          | none =>
              rw [advanced] at failed
              cases failed
          | some found =>
              rw [advanced] at failed
              cases failed
              exact .inr (.inr ⟨rfl, rfl, rfl, rfl⟩)

/-- The instruction reaches up to the last address, and there is none after it. -/
def Overruns (machine : Machine) (fault : Fault) : Prop :=
  fault = .pointerOverflow ∧
    machine.state.ip + Table.arity machine.view.number = Address.last

theorem overruns_of_advanceFault? (decided : firstFault? machine.view.checks = none)
    (advanced : machine.advanceFault? = some fault) : machine.Overruns fault := by
  obtain ⟨-, fetched, -⟩ := View.clear_checks decided
  simp only [View.fetchFault?] at fetched
  split at fetched
  · cases fetched
  · rename_i within
    have ip : machine.view.ip = machine.state.ip := rfl
    simp only [advanceFault?] at advanced
    split at advanced
    · rename_i beyond
      cases advanced
      refine ⟨rfl, ?_⟩
      have after := beyond.2
      rw [ip] at within
      omega
    · cases advanced

theorem not_overruns_of_decision (decided : firstFault? machine.view.checks = some fault) :
    ¬ machine.Overruns fault := by
  -- The same fault before the decision means that an operand lies beyond the last address.
  rintro ⟨rfl, atEnd⟩
  have beyond := View.beyond_of_pointerOverflow (mem_of_firstFault? decided)
  have ip : machine.view.ip = machine.state.ip := rfl
  rw [ip] at beyond
  omega

theorem not_overruns_of_storageFault? (refused : machine.storageFault? = some fault) :
    ¬ machine.Overruns fault := by
  rintro ⟨rfl, -⟩
  simp only [storageFault?] at refused
  split at refused
  · split at refused <;> cases refused
  · cases refused

/-- The fault is recorded, and the machine has not moved on. -/
structure RecordsFault (before : Machine) (fault : Fault) (after : Machine) : Prop where
  status : after.state.status = .faulted
  fault : after.state.fault = some fault
  ip : after.state.ip = before.state.ip
  steps : after.state.steps = before.state.steps
  output : after.output = before.output
  kept : after.id = before.id ∧ after.kind = before.kind ∧ after.program = before.program

theorem records_fault (going : machine.final? = none)
    (failed : machine.step.answer = .error fault) :
    machine.RecordsFault fault machine.step.machine := by
  rcases failure_cases going failed with ⟨-, after⟩ | ⟨-, -, after⟩ | ⟨-, -, -, after⟩ <;>
    rw [after] <;> exact ⟨rfl, rfl, rfl, rfl, rfl, rfl, rfl, rfl⟩

/-- A failed step leaves only its fault behind, unless the instruction ends at the last
address and fails because there is no next one: then memory and base are as if it had
been completed. -/
theorem failed_step_leaves_only_fault (going : machine.state.isTerminated = false)
    (failed : machine.step.answer = .error fault) :
    machine.RecordsFault fault machine.step.machine ∧
      (¬ machine.Overruns fault →
        machine.step.machine.state.memory = machine.state.memory ∧
          machine.step.machine.state.base = machine.state.base) ∧
      (machine.Overruns fault →
        (match machine.view.result? with
          | some value => ∃ position, Table.place? machine.view.number = some position ∧
              machine.state.memory.write (machine.view.target position) value =
                .ok machine.step.machine.state.memory
          | none => machine.step.machine.state.memory = machine.state.memory) ∧
        machine.step.machine.state.base.value =
          machine.state.base.value + if machine.view.number = 9 then machine.view.value 1 else 0) := by
  have notFinal := final?_of_not_terminated going
  refine ⟨records_fault notFinal failed, ?_⟩
  rcases failure_cases notFinal failed with
    ⟨decided, after⟩ | ⟨decided, refused, after⟩ | ⟨decided, accepted, advanced, after⟩
  · have within := not_overruns_of_decision decided
    rw [after]
    exact ⟨fun _ => ⟨rfl, rfl⟩, fun overruns => absurd overruns within⟩
  · have within := not_overruns_of_storageFault? refused
    rw [after]
    exact ⟨fun _ => ⟨rfl, rfl⟩, fun overruns => absurd overruns within⟩
  · have overruns := overruns_of_advanceFault? decided advanced
    obtain ⟨known, -, -, -, placed⟩ := View.clear_checks decided
    have stored := memory_after known ((refusal?_action known).trans accepted) 0
    have rebased := (View.determines_action known placed).rebased machine.state.base
    rw [after]
    exact ⟨fun within => absurd overruns within, fun _ => ⟨stored, rebased⟩⟩

/-- A refused store on an array, and an instruction in the last two cells of a sparse memory,
which has moved the base. -/
theorem failed_step_leaves_only_fault_at_limits :
    let refused := load .dense 1 [1101, 1, 1, 16777216]
    let ended := (load .sparse 1
      [1101, 109, 0, 18446744073709551614, 1101, 7, 0, 18446744073709551615, 1106, 0,
        18446744073709551614]).step.machine.step.machine.step.machine
    (refused.step.answer = .error (.addressOverflow 16777216) ∧
        refused.RecordsFault (.addressOverflow 16777216) refused.step.machine ∧
        refused.step.machine.state.memory = refused.state.memory) ∧
      ended.step.answer = .error .pointerOverflow ∧ ended.Overruns .pointerOverflow ∧
        ended.RecordsFault .pointerOverflow ended.step.machine ∧
        ended.state.base.value = 0 ∧ ended.step.machine.state.base.value = 7 := by
  intro refused ended
  have refusedFails : refused.step.answer = .error (.addressOverflow 16777216) := rfl
  have endedFails : ended.step.answer = .error .pointerOverflow := rfl
  have atEnd : ended.Overruns .pointerOverflow := ⟨rfl, by decide +kernel⟩
  obtain ⟨refusal, kept, -⟩ := failed_step_leaves_only_fault rfl refusedFails
  obtain ⟨overrun, -, applied⟩ := failed_step_leaves_only_fault (by decide +kernel) endedFails
  refine ⟨⟨refusedFails, refusal, (kept ?_).1⟩, endedFails, atEnd, overrun, by decide +kernel, ?_⟩
  · rintro ⟨impossible, -⟩
    cases impossible
  · rw [(applied atEnd).2]
    decide +kernel

theorem input_step_of_decided (going : machine.final? = none)
    (decided : firstFault? machine.view.checks = none) :
    machine.step.machine.input = machine.view.action.consumed machine.input := by
  rw [step_of_action going decided, enact_eq]
  cases machine.running.refusal? machine.view.action with
  | some fault => rfl
  | none =>
      cases machine.running.overrun? (1 + Table.arity machine.view.number) machine.view.action <;> rfl

/-- An input was taken from the queue, and then either its place was refused or there was no
next instruction. -/
structure DropsInput (machine : Machine) (fault : Fault) : Prop where
  going : machine.final? = none
  number : machine.view.number = 3
  waiting : machine.input ≠ []
  decided : firstFault? machine.view.checks = none
  cause : machine.storageFault? = some fault ∨ machine.Overruns fault

theorem input_kept_iff_of_decided (going : machine.final? = none)
    (decided : firstFault? machine.view.checks = none)
    (cause : machine.storageFault? = some fault ∨ machine.Overruns fault) :
    machine.step.machine.input = machine.input ↔ ¬ machine.DropsInput fault := by
  obtain ⟨known, -, -, -, placed⟩ := View.clear_checks decided
  rw [input_step_of_decided going decided, input_after known placed]
  constructor
  · intro kept drops
    rw [if_pos drops.number] at kept
    have shorter := congrArg List.length kept
    have some := List.length_pos_iff.mpr drops.waiting
    rw [List.length_tail] at shorter
    omega
  · intro keeps
    split
    · rename_i number
      cases waiting : machine.input with
      | nil => rfl
      | cons value rest =>
          exact absurd ⟨going, number, by simp [waiting], decided, cause⟩ keeps
    · rfl

theorem input_kept_iff (failed : machine.step.answer = .error fault) :
    machine.step.machine.input = machine.input ↔ ¬ machine.DropsInput fault := by
  cases stopped : machine.final? with
  | some answer =>
      rw [step_eq, stopped]
      refine iff_of_true rfl ?_
      intro drops
      rw [drops.going] at stopped
      contradiction
  | none =>
      rcases failure_cases stopped failed with
        ⟨decided, after⟩ | ⟨decided, refused, -⟩ | ⟨decided, -, advanced, -⟩
      · rw [after]
        refine iff_of_true rfl ?_
        intro drops
        rw [drops.decided] at decided
        contradiction
      · exact input_kept_iff_of_decided stopped decided (.inl refused)
      · exact input_kept_iff_of_decided stopped decided
          (.inr (overruns_of_advanceFault? decided advanced))

/-- An input that is taken by an instruction that completes is stored at its place. -/
theorem received_stored {outcome : Outcome} {value : Int} (going : machine.final? = none)
    (decided : firstFault? machine.view.checks = none) (number : machine.view.number = 3)
    (pending : machine.view.pending = some value) (completed : machine.step.answer = .ok outcome) :
    outcome = .executed ∧
      machine.state.memory.write (machine.view.target 1) value = .ok machine.step.machine.state.memory := by
  have receives : machine.view.action = .receive (machine.view.target 1) value := by
    simp only [View.action, number, pending]
  rw [step_of_action going decided, receives] at completed ⊢
  rw [answer_enact, guarded_eq_ok_iff, Option.or_eq_none_iff] at completed
  obtain ⟨⟨accepted, advanced⟩, rfl⟩ := completed
  rw [machine_enact _ _ _ accepted advanced]
  exact ⟨rfl, Store.write_of_accepts (accepts_of_not_refused accepted rfl) value⟩

theorem taken_of_input_changed (changed : machine.step.machine.input ≠ machine.input) :
    machine.final? = none ∧ firstFault? machine.view.checks = none ∧ machine.view.number = 3 ∧
      ∃ value, machine.input = value :: machine.step.machine.input := by
  cases stopped : machine.final? with
  | some answer =>
      rw [step_eq, stopped] at changed
      contradiction
  | none =>
      cases decided : firstFault? machine.view.checks with
      | some fault =>
          rw [step_of_fault stopped decided] at changed
          contradiction
      | none =>
          obtain ⟨known, -, -, -, placed⟩ := View.clear_checks decided
          have after := input_step_of_decided stopped decided
          rw [input_after known placed] at after
          by_cases number : machine.view.number = 3
          · rw [if_pos number] at after
            cases waiting : machine.input with
            | nil =>
                rw [waiting] at after changed
                contradiction
            | cons value rest =>
                rw [waiting] at after
                exact ⟨rfl, rfl, number, value, by rw [after, List.tail_cons]⟩
          · rw [if_neg number] at after
            contradiction

/-- Exactly when a failed step keeps the inputs, and what becomes of an input that is taken
from the queue: it is stored, or it is lost with the fault. -/
theorem failed_step_keeps_input_iff (machine : Machine) :
    (∀ fault, machine.step.answer = .error fault →
        (machine.step.machine.input = machine.input ↔ ¬ machine.DropsInput fault)) ∧
      (machine.step.machine.input ≠ machine.input →
        machine.view.number = 3 ∧ ∃ value, machine.input = value :: machine.step.machine.input ∧
          ((machine.step.answer = .ok .executed ∧
              machine.state.memory.write (machine.view.target 1) value =
                .ok machine.step.machine.state.memory) ∨
            ∃ fault, machine.step.answer = .error fault ∧ machine.DropsInput fault)) := by
  refine ⟨fun fault => input_kept_iff, ?_⟩
  intro changed
  obtain ⟨going, decided, number, value, waiting⟩ := taken_of_input_changed changed
  refine ⟨number, value, waiting, ?_⟩
  cases answer : machine.step.answer with
  | ok outcome =>
      have pending : machine.view.pending = some value := congrArg List.head? waiting
      obtain ⟨rfl, stored⟩ := received_stored going decided number pending answer
      exact .inl ⟨rfl, stored⟩
  | error fault =>
      have drops : ¬ ¬ machine.DropsInput fault := fun keeps =>
        changed ((input_kept_iff answer).mpr keeps)
      exact .inr ⟨fault, rfl, Classical.not_not.mp drops⟩

/-- A fault of the operand comes before the input is taken. -/
theorem failed_step_keeps_input_iff_immediate :
    let machine := (load .dense 1 [103, 1, 99]).push 1
    machine.step.answer = .error (.immediateWrite 1 1) ∧
      ¬ machine.DropsInput (.immediateWrite 1 1) ∧ machine.step.machine.input = [1] :=
  ⟨rfl, ((failed_step_keeps_input_iff _).1 _ rfl).mp rfl, rfl⟩

/-- The place of the input lies beyond the cells that an array can have; on a sparse memory,
the instruction stands in the last two cells. -/
theorem taken_input_is_lost :
    let refused := (load .dense 1 [3, 16777216]).push 5
    let ended := ((load .sparse 1
      [1101, 3, 0, 18446744073709551614, 1106, 0, 18446744073709551614]).push 5).step.machine.step.machine
    (refused.step.answer = .error (.addressOverflow 16777216) ∧
        refused.input = [5] ∧ refused.step.machine.input = []) ∧
      ended.step.answer = .error .pointerOverflow ∧
        ended.input = [5] ∧ ended.step.machine.input = [] :=
  ⟨⟨rfl, rfl, rfl⟩, rfl, rfl, rfl⟩

end Machine

end Intcode
