import Intcode.Machine.Basic

/-! A step in two parts: a decision and its enactment.

The decision is taken from the `View` alone. It fetches the instruction, reads its modes
and evaluates it, and ends with one `Action` or with a fault. The enactment carries the
action out. `Machine.cycle_eq` says that a cycle is the one followed by the other, with
the log included, so a property of steps is a case analysis over the decision and then
over the eight actions.
-/

namespace Intcode

namespace View

def operandCells (view : View) (count : Nat) : Except Fault (List Int) :=
  if view.ip + count ≤ Address.last then
    .ok ((List.range count).map fun offset => view.memory (view.ip + (offset + 1)))
  else .error .pointerOverflow

def fetch (view : View) : Except Fault (Instruction × List Int) :=
  match Instruction.decode (view.memory view.ip) view.ip with
  | .error fault => .error fault
  | .ok instruction =>
      match view.operandCells instruction.arity with
      | .error fault => .error fault
      | .ok cells => .ok (instruction, cells)

/-- The instruction at the instruction pointer, and what it decides to do. -/
def decision (view : View) : Eval (Instruction × Action) :=
  match view.fetch with
  | .error fault => .fail fault
  | .ok (instruction, cells) => do
      .report (.fetched view.ip instruction.opcode cells)
      let operands ← .quiet (Operand.ofCells instruction cells)
      let action ← instruction.opcode.family.evaluate view instruction operands
      return (instruction, action)

theorem decision_of_not_fetched {view : View} {fault : Fault}
    (failed : view.fetch = .error fault) : view.decision = .fail fault := by
  simp only [decision, failed]

theorem decision_of_fetched {view : View} {instruction : Instruction} {cells : List Int}
    (fetched : view.fetch = .ok (instruction, cells)) :
    view.decision =
      match Operand.ofCells instruction cells with
      | .error fault => ⟨[.fetched view.ip instruction.opcode cells], .error fault⟩
      | .ok operands =>
          ⟨.fetched view.ip instruction.opcode cells ::
              (instruction.opcode.family.evaluate view instruction operands).log,
            (instruction.opcode.family.evaluate view instruction operands).result.map (instruction, ·)⟩ := by
  simp only [decision, fetched]
  cases Operand.ofCells instruction cells with
  | error fault => rfl
  | ok operands =>
      rw [Eval.bind_of_ok rfl, Eval.bind_of_ok rfl]
      cases evaluated : (instruction.opcode.family.evaluate view instruction operands).result with
      | error fault =>
          rw [Eval.bind_of_error evaluated]
          simp [Eval.report, Eval.quiet, Except.map, evaluated]
      | ok action =>
          rw [Eval.bind_of_ok evaluated]
          simp [Eval.report, Eval.quiet, Except.map, evaluated]

end View

@[simp] theorem State.log_perform (state : State) (input : List Int) (log : List Event)
    (action : Action) : (state.perform input log action).log = log := by
  cases action <;> rfl

namespace Machine

def view (machine : Machine) : View :=
  machine.state.view machine.input

def running (machine : Machine) : Machine :=
  { machine with state := { machine.state with status := .running } }

/-- Stores a value and goes on after the instruction, if the memory accepts the address. -/
def deposit (machine : Machine) (log : List Event) (width address : Nat) (value : Int) :
    Reply (Except Fault Outcome) :=
  if machine.state.memory.accepts address then
    proceed { machine with state := { machine.state with memory := machine.state.memory.put address value } }
      log width .executed machine.output
  else machine.fail log (.addressOverflow address)

def enact (machine : Machine) (log : List Event) (width : Nat) :
    Action → Reply (Except Fault Outcome)
  | .store address value => machine.deposit log width address value
  | .receive address value =>
      deposit { machine with input := machine.input.tail } log width address value
  | .rebase distance =>
      proceed { machine with state := { machine.state with base := machine.state.base.adjust distance } }
        log width .executed machine.output
  | .jump target =>
      ⟨.ok .executed,
        { machine with state := { machine.state with ip := target, steps := machine.state.steps + 1 } }, log⟩
  | .pass => machine.proceed log width .executed machine.output
  | .emit value => machine.proceed log width (.output value) (machine.output.push value)
  | .suspend =>
      ⟨.ok .awaitingInput,
        { machine with state := { machine.state with status := .awaitingInput } }, log⟩
  | .stop =>
      ⟨.ok .halted,
        { machine with state := { machine.state with status := .halted, steps := machine.state.steps + 1 } },
        log ++ [.halted (machine.state.steps + 1)]⟩

def conclude (machine : Machine) (log : List Event) (width : Nat) (execution : Execution) :
    Reply (Except Fault Outcome) :=
  match execution.effect with
  | .error fault =>
      fail { machine with state := execution.state, input := execution.input } log fault
  | .ok effect =>
      settle { machine with state := execution.state, input := execution.input } log width effect

theorem conclude_perform (machine : Machine) (log events : List Event) (width : Nat)
    (action : Action) :
    machine.conclude log width (machine.state.perform machine.input events action) =
      machine.enact log width action := by
  cases action with
  | store address value | receive address value =>
      by_cases accepted : machine.state.memory.accepts address
      · simp only [conclude, State.perform, State.store, accepted, if_true, enact, deposit, settle]
      · simp only [conclude, State.perform, State.store, accepted, enact, deposit]
        rfl
  | _ => rfl

theorem fetch_view (machine : Machine) : machine.view.fetch = machine.state.fetch := rfl

theorem cycle_eq (machine : Machine) :
    machine.cycle =
      match machine.view.decision.result with
      | .error fault => machine.fail machine.view.decision.log fault
      | .ok (instruction, action) =>
          machine.running.enact machine.view.decision.log instruction.width action := by
  unfold cycle
  cases fetched : machine.state.fetch with
  | error fault =>
      simp only [fetched, View.decision_of_not_fetched (machine.fetch_view.trans fetched)]
      rfl
  | ok found =>
      obtain ⟨instruction, cells⟩ := found
      simp only [fetched, View.decision_of_fetched (machine.fetch_view.trans fetched)]
      simp only [State.execute, Family.execute]
      cases Operand.ofCells instruction cells with
      | error fault => rfl
      | ok operands =>
          simp only [Family.apply]
          -- The status is set before the evaluation, which does not see it.
          rw [show ({ machine.state with status := .running } : State).view machine.input =
            machine.view from rfl]
          cases (instruction.opcode.family.evaluate machine.view instruction operands).result with
          | error fault => rfl
          | ok action =>
              simp only [State.log_perform, Except.map]
              exact conclude_perform machine.running _ _ instruction.width action

/-- The answer that a machine gives to every step once it has stopped. -/
def final? (machine : Machine) : Option (Except Fault Outcome) :=
  match machine.state.status, machine.state.fault with
  | .halted, _ => some (.ok .halted)
  | .faulted, some fault => some (.error fault)
  | _, _ => none

/-- A machine that has stopped repeats its answer; any other goes through a cycle. -/
theorem step_eq (machine : Machine) :
    machine.step =
      match machine.final? with
      | some answer => ⟨answer, machine, []⟩
      | none => machine.cycle := by
  unfold step final?
  cases machine.state.status <;> cases machine.state.fault <;> rfl

theorem final?_of_not_terminated {machine : Machine}
    (going : machine.state.isTerminated = false) : machine.final? = none := by
  simp only [State.isTerminated] at going
  unfold final?
  split <;> simp_all

theorem proceed_eq (machine : Machine) (log : List Event) (width : Nat) (outcome : Outcome)
    (output : Array Int) :
    machine.proceed log width outcome output =
      if machine.state.ip + width ≤ Address.last then
        ⟨.ok outcome,
          { machine with
            state := { machine.state with
              ip := machine.state.ip + width, steps := machine.state.steps + 1 }
            output := output }, log⟩
      else machine.fail log .pointerOverflow := by
  by_cases inRange : machine.state.ip + width ≤ Address.last
  · simp only [proceed, State.advance, inRange, if_true, State.complete]
  · simp only [proceed, State.advance, inRange, if_false]

end Machine

end Intcode
