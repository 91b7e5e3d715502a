import Mathlib.Data.List.Forall2
import Intcode.Proofs.Calls
import Intcode.Proofs.Slicing

/-! What the status of a machine says.

A machine that is driven from outside by calls, and whose memory is left to the program, has a
status that fits the rest of its state. `State.Fits` is that invariant, one case for each
status; a step keeps it, and so does every call. Once a machine has halted or failed its state
stays as it is until it is reset.
-/

namespace Intcode

namespace State

/-- The instruction at the instruction pointer takes an input, and its operand names a place. -/
def AwaitsInput (state : State) : Prop :=
  ∃ instruction mode address,
    Instruction.decode (state.memory.read state.ip) state.ip = .ok instruction ∧
      instruction.opcode = .input ∧ instruction.mode 1 = .ok mode ∧
      Operand.target ⟨state.memory.read (state.ip + 1), 1, mode⟩ state.base = .ok address

def AtHalt (state : State) : Prop :=
  ∃ instruction, Instruction.decode (state.memory.read state.ip) state.ip = .ok instruction ∧
    instruction.opcode = .halt

def Fits (image : Store) (state : State) : Prop :=
  match state.status with
  | .ready => state = .initial image
  | .running => state.fault = none ∧ 1 ≤ state.steps
  | .awaitingInput => state.fault = none ∧ state.AwaitsInput
  | .halted => state.fault = none ∧ 1 ≤ state.steps ∧ state.AtHalt
  | .faulted => state.fault.isSome = true

theorem Fits.fault_none {image : Store} {state : State} (fits : state.Fits image)
    (sound : state.status ≠ .faulted) : state.fault = none := by
  unfold Fits at fits
  cases status : state.status with
  | ready =>
      rw [status] at fits
      rw [fits]
      rfl
  | running | awaitingInput | halted =>
      rw [status] at fits
      exact fits.1
  | faulted => contradiction

end State

namespace View

variable {view : View}

theorem decode_of_number {opcode : Opcode} (known : view.opcodeFault? = none)
    (number : view.number = opcode.number) :
    Instruction.decode view.head view.ip = .ok view.instruction ∧ view.instruction.opcode = opcode := by
  have decoded := view.decode_head
  rw [known, guarded_none] at decoded
  have found := Opcode.ofNumber?_number opcode
  rw [← number] at found
  exact ⟨decoded, by rw [instruction, found, Option.getD_some]⟩

theorem place_of_input (clear : firstFault? view.checks = none) (number : view.number = 3) :
    view.instruction.mode 1 = .ok (view.mode 1) ∧
      (view.operand 1).target view.base = .ok (view.target 1) := by
  obtain ⟨known, -, modes, -, placed⟩ := clear_checks clear
  have valid : view.modeFault? 1 = none := by
    apply modes
    rw [number]
    decide
  have written : view.writeFault? 1 = none := by
    simpa only [placeFault?, number, Table.place?] using placed
  have mode : Instruction.modeOf view.head 1 = guarded (view.modeFault? 1) (view.mode 1) :=
    modeOf_head (head_nonneg known) (by decide)
  rw [valid, guarded_none] at mode
  have target := target_operand valid
  rw [written, guarded_none] at target
  exact ⟨mode, target⟩

theorem Determines.number_of_halted (determined : view.Determines view.action)
    (halted : view.action.outcome = .halted) : view.number = 99 := by
  rw [determined.outcome] at halted
  split at halted
  · assumption
  · split at halted
    · cases halted
    · split at halted <;> cases halted

theorem Determines.starves_of_awaiting (determined : view.Determines view.action)
    (awaiting : view.action.outcome = .awaitingInput) : view.starves = true := by
  rw [determined.outcome] at awaiting
  split at awaiting
  · cases awaiting
  · split at awaiting
    · assumption
    · split at awaiting <;> cases awaiting

end View

namespace Machine

variable {machine : Machine} {image : Store}

theorem fits_of_completed {outcome : Outcome} (going : machine.state.isTerminated = false)
    (faultless : machine.state.fault = none) (completed : machine.step.answer = .ok outcome) :
    machine.step.machine.state.Fits image := by
  obtain ⟨decided, -, same, after⟩ := step_of_ok going completed
  obtain ⟨known, -, -, -, placed⟩ := View.clear_checks decided
  have determined := View.determines_action known placed
  have fault : machine.step.machine.state.fault = none := by
    rw [after]
    exact faultless
  have status := status_step (final?_of_not_terminated going)
  have steps := steps_step (final?_of_not_terminated going)
  rw [completed] at status
  rw [Reply.completes, completed] at steps
  unfold State.Fits
  rw [status]
  cases outcome with
  | executed | output value => exact ⟨fault, Nat.lt_of_lt_of_eq (Nat.succ_pos _) steps.symm⟩
  | awaitingInput =>
      have starves := determined.starves_of_awaiting same
      have number : machine.view.number = 3 := by
        simp only [View.starves, decide_eq_true_eq] at starves
        exact starves.1
      obtain ⟨decoded, opcode⟩ := @View.decode_of_number _ .input known number
      obtain ⟨mode, target⟩ := View.place_of_input decided number
      refine ⟨fault, ?_⟩
      rw [after, View.action_of_starving starves]
      exact ⟨machine.view.instruction, _, _, decoded, opcode, mode, target⟩
  | halted =>
      have number := determined.number_of_halted same
      have stops : machine.view.action = .stop := by simp only [View.action, number]
      obtain ⟨decoded, opcode⟩ := @View.decode_of_number _ .halt known number
      refine ⟨fault, Nat.lt_of_lt_of_eq (Nat.succ_pos _) steps.symm, ?_⟩
      rw [after, stops]
      exact ⟨machine.view.instruction, decoded, opcode⟩

theorem going_of_fits (fits : machine.state.Fits image) (unfinished : machine.final? = none) :
    machine.state.isTerminated = false ∧ machine.state.fault = none := by
  have notHalted : machine.state.status ≠ .halted := by
    intro status
    simp [final?, status] at unfinished
  have notFaulted : machine.state.status ≠ .faulted := by
    intro status
    rw [State.Fits, status] at fits
    obtain ⟨fault, recorded⟩ := Option.isSome_iff_exists.mp fits
    simp [final?, status, recorded] at unfinished
  refine ⟨?_, fits.fault_none notFaulted⟩
  simp [State.isTerminated, notHalted, notFaulted]

theorem fits_step (fits : machine.state.Fits image) : machine.step.machine.state.Fits image := by
  cases final : machine.final? with
  | some answer =>
      rw [machine_step_of_final final]
      exact fits
  | none =>
      obtain ⟨going, faultless⟩ := going_of_fits fits final
      cases answer : machine.step.answer with
      | ok outcome => exact fits_of_completed going faultless answer
      | error fault =>
          have recorded := records_fault final answer
          rw [State.Fits, recorded.status, recorded.fault]
          rfl

/-- Which machine it is stays as it was loaded. -/
theorem kept_step (machine : Machine) :
    machine.step.machine.id = machine.id ∧ machine.step.machine.kind = machine.kind ∧
      machine.step.machine.program = machine.program := by
  cases final : machine.final? with
  | some answer =>
      rw [machine_step_of_final final]
      exact ⟨rfl, rfl, rfl⟩
  | none =>
      rcases step_result final with ⟨fault, -, recorded⟩ | ⟨width, action, -, after⟩
      · exact recorded.kept
      · rw [after]
        exact ⟨rfl, rfl, rfl⟩

/-- A machine that was loaded with a program, whose status fits its state. -/
structure Tracked (kind : Store.Kind) (program : List Int) (machine : Machine) : Prop where
  sameKind : machine.kind = kind
  sameProgram : machine.program = program
  fits : machine.state.Fits (.ofCells kind program)

variable {kind : Store.Kind} {program : List Int}

theorem tracked_load (kind : Store.Kind) (id : Nat) (program : List Int) :
    (load kind id program).Tracked kind program :=
  ⟨rfl, rfl, rfl⟩

theorem Tracked.step (tracked : machine.Tracked kind program) :
    machine.step.machine.Tracked kind program := by
  obtain ⟨-, sameKind, sameProgram⟩ := machine.kept_step
  exact ⟨sameKind.trans tracked.sameKind, sameProgram.trans tracked.sameProgram,
    fits_step tracked.fits⟩

theorem Tracked.call {call : Call} (watched : Event → Bool)
    (tracked : machine.Tracked kind program) (inside : ∀ address value, call ≠ .write address value) :
    (machine.call watched call).machine.Tracked kind program := by
  cases call with
  | step => exact tracked.step
  | runFor budget => exact drive_invariant (fun _ => Tracked.step) watched budget #[] tracked
  | run fuel => exact drive_invariant (fun _ => Tracked.step) watched fuel #[] tracked
  | push value | extend values | pop | take =>
      exact ⟨tracked.sameKind, tracked.sameProgram, tracked.fits⟩
  | reset =>
      obtain ⟨rfl, rfl, -⟩ := tracked
      exact tracked_load machine.kind machine.id machine.program
  | write address value => exact absurd rfl (inside address value)

theorem Tracked.calls {history : List Call} (watched : Event → Bool)
    (tracked : machine.Tracked kind program)
    (inside : ∀ address value, .write address value ∉ history) :
    (machine.calls watched history).machine.Tracked kind program := by
  apply calls_invariant _ tracked
  intro call member machine tracked
  apply tracked.call watched
  rintro address value rfl
  exact inside address value member

end Machine

/-- What a machine that has stopped with an answer says to a call that asks it to go on. -/
def Machine.Call.Repeats (answer : Except Fault Machine.Outcome) :
    Machine.Call → Machine.Answer → Prop
  | .step, given => given = .outcome answer
  | .runFor budget, given => 0 < budget → given = .status (answer.map fun _ => .halted)
  | .run fuel, given => 0 < fuel → given = .status (answer.map fun _ => .halted)
  | _, _ => True

namespace Machine

variable {machine : Machine} {answer : Except Fault Outcome} (watched : Event → Bool)

theorem call_of_final {call : Call} (final : machine.final? = some answer)
    (inside : ∀ address value, call ≠ .write address value) (started : call ≠ .reset) :
    (machine.call watched call).machine.state = machine.state ∧
      call.Repeats answer (machine.call watched call).answer := by
  cases call with
  | step =>
      simp only [Machine.call, Call.Repeats]
      rw [step_eq, final]
      exact ⟨rfl, rfl⟩
  | runFor budget =>
      obtain ⟨same, answered⟩ := drive_of_final watched final budget #[]
      refine ⟨congrArg Machine.state same, ?_⟩
      intro positive
      simp only [Machine.call, runFor, answered positive, Option.getD_some]
  | run fuel =>
      obtain ⟨same, answered⟩ := drive_of_final watched final fuel #[]
      refine ⟨congrArg Machine.state same, ?_⟩
      intro positive
      simp only [Machine.call, answered positive, Option.elim_some]
  | push value | extend values | pop | take => exact ⟨rfl, trivial⟩
  | reset => contradiction
  | write address value => exact absurd rfl (inside address value)

theorem calls_of_final {later : List Call} (final : machine.final? = some answer)
    (inside : ∀ address value, .write address value ∉ later) (started : .reset ∉ later) :
    (machine.calls watched later).machine.state = machine.state ∧
      List.Forall₂ (Call.Repeats answer) later (machine.calls watched later).answer := by
  induction later generalizing machine with
  | nil => exact ⟨rfl, .nil⟩
  | cons first rest ih =>
      have firstInside : ∀ address value, first ≠ .write address value := by
        rintro address value rfl
        exact inside address value List.mem_cons_self
      have firstStarted : first ≠ .reset := by
        rintro rfl
        exact started List.mem_cons_self
      obtain ⟨same, repeats⟩ := call_of_final watched final firstInside firstStarted
      have stillFinal : (machine.call watched first).machine.final? = some answer := by
        rw [← final]
        simp only [final?, same]
      obtain ⟨sameLater, repeatsLater⟩ := ih stillFinal
        (fun address value member => inside address value (List.mem_cons_of_mem _ member))
        (fun member => started (List.mem_cons_of_mem _ member))
      exact ⟨sameLater.trans same, .cons repeats repeatsLater⟩

/-- Nothing but a reset or a write from outside changes the state any more. -/
def Rests (machine : Machine) (answer : Except Fault Outcome) : Prop :=
  ∀ later : List Call, (∀ address value, .write address value ∉ later) → .reset ∉ later →
    (machine.calls watched later).machine.state = machine.state ∧
      List.Forall₂ (Call.Repeats answer) later (machine.calls watched later).answer

end Machine

/-- What the status tells of the rest of the state. -/
structure State.StatusTells (image : Store) (state : State) : Prop where
  faulted : state.status = .faulted ↔ state.fault.isSome = true
  ready : state.status = .ready →
    state.ip = 0 ∧ state.steps = 0 ∧ state.base.value = 0 ∧ state.memory = image
  running : state.status = .running → 1 ≤ state.steps
  awaiting : state.status = .awaitingInput → state.AwaitsInput
  halted : state.status = .halted → 1 ≤ state.steps ∧ state.AtHalt

theorem State.Fits.tells {image : Store} {state : State} (fits : state.Fits image) :
    state.StatusTells image where
  faulted := by
    constructor
    · intro status
      rw [State.Fits, status] at fits
      exact fits
    · intro recorded
      apply Decidable.byContradiction
      intro sound
      rw [fits.fault_none sound] at recorded
      contradiction
  ready := by
    intro status
    rw [State.Fits, status] at fits
    rw [fits]
    exact ⟨rfl, rfl, rfl, rfl⟩
  running := by
    intro status
    rw [State.Fits, status] at fits
    exact fits.2
  awaiting := by
    intro status
    rw [State.Fits, status] at fits
    exact fits.2
  halted := by
    intro status
    rw [State.Fits, status] at fits
    exact fits.2

/-- The status of a machine fits the rest of its state after every history of calls, and a
machine that has halted or failed stays as it is until it is reset. -/
theorem Machine.status_fits_state (watched : Event → Bool) (kind : Store.Kind) (id : Nat)
    (program : List Int) {history : List Call}
    (inside : ∀ address value, .write address value ∉ history) :
    let machine := ((load kind id program).calls watched history).machine
    machine.state.StatusTells (.ofCells kind program) ∧
      (machine.state.status = .halted → machine.Rests watched (.ok .halted)) ∧
      (machine.state.status = .faulted →
        ∃ fault, machine.state.fault = some fault ∧ machine.Rests watched (.error fault)) := by
  intro machine
  have tracked := (tracked_load kind id program).calls watched inside
  have tells : machine.state.StatusTells (.ofCells kind program) := tracked.fits.tells
  refine ⟨tells, ?_, ?_⟩
  · intro status later
    have final : machine.final? = some (.ok .halted) := by simp only [final?, status]
    exact calls_of_final watched final
  · intro status
    obtain ⟨fault, recorded⟩ := Option.isSome_iff_exists.mp (tells.faulted.mp status)
    have final : machine.final? = some (.error fault) := by simp only [final?, status, recorded]
    exact ⟨fault, recorded, fun later => calls_of_final watched final⟩

/-- A machine that waits, and the same machine after it was given an input and has halted. -/
theorem Machine.status_fits_state_reader :
    let waiting := ((load .dense 1 [3, 0, 99]).calls (fun _ => true) [.runFor 5]).machine
    let ended := ((load .dense 1 [3, 0, 99]).calls (fun _ => true)
      [.runFor 5, .push 7, .runFor 5]).machine
    (waiting.state.status = .awaitingInput ∧ waiting.state.AwaitsInput) ∧
      ended.state.status = .halted ∧ ended.state.AtHalt ∧
      ended.Rests (fun _ => true) (.ok .halted) := by
  intro waiting ended
  have waits : waiting.state.status = .awaitingInput := rfl
  have halts : ended.state.status = .halted := rfl
  obtain ⟨tellsWaiting, -⟩ := status_fits_state (fun _ => true) .dense 1 [3, 0, 99]
    (show ∀ address value, .write address value ∉ [Call.runFor 5] by simp)
  obtain ⟨tellsEnded, rests, -⟩ := status_fits_state (fun _ => true) .dense 1 [3, 0, 99]
    (show ∀ address value, .write address value ∉ [Call.runFor 5, .push 7, .runFor 5] by simp)
  exact ⟨⟨waits, tellsWaiting.awaiting waits⟩, halts, (tellsEnded.halted halts).2, rests halts⟩

end Intcode
