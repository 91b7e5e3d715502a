import Intcode.Proofs.Evaluation

/-! What an enacted action leaves behind.

An action can still fail in two ways: the memory refuses the address that it stores at,
or the instruction after it would lie beyond the last address. `Machine.enact_eq` says
once what an enactment can come to, with the log and the machine in each case; what
follows is read off there, without another look at the actions.
-/

namespace Intcode

namespace Action

def address? : Action → Option Nat
  | .store address _ | .receive address _ => some address
  | _ => none

/-- Whether the instruction after this one is executed next. -/
def proceeds : Action → Bool
  | .jump _ | .suspend | .stop => false
  | _ => true

def outcome : Action → Machine.Outcome
  | .emit value => .output value
  | .suspend => .awaitingInput
  | .stop => .halted
  | _ => .executed

def stored : Action → Store → Store
  | .store address value, memory | .receive address value, memory => memory.put address value
  | _, memory => memory

def rebased : Action → Base → Base
  | .rebase distance, base => base.adjust distance
  | _, base => base

def moved (width : Nat) : Action → Nat → Nat
  | .jump target, _ => target
  | .suspend, ip | .stop, ip => ip
  | _, ip => ip + width

def entered : Action → Status → Status
  | .suspend, _ => .awaitingInput
  | .stop, _ => .halted
  | _, status => status

def counted : Action → Nat → Nat
  | .suspend, steps => steps
  | _, steps => steps + 1

def consumed : Action → List Int → List Int
  | .receive _ _, input => input.tail
  | _, input => input

def emitted : Action → Array Int → Array Int
  | .emit value, output => output.push value
  | _, output => output

def closing : Action → Nat → List Event
  | .stop, steps => [.halted (steps + 1)]
  | _, _ => []

variable {action : Action}

theorem proceeds_of_store {address : Nat} (stores : action.address? = some address) :
    action.proceeds = true := by
  cases action with
  | store place value | receive place value => rfl
  | _ => contradiction

theorem stored_of_store {address : Nat} (stores : action.address? = some address) :
    ∃ value, ∀ memory, action.stored memory = memory.put address value := by
  cases action with
  | store place value | receive place value =>
      cases stores
      exact ⟨value, fun _ => rfl⟩
  | _ => contradiction

theorem stored_of_storeless (storeless : action.address? = none)
    (memory : Store) : action.stored memory = memory := by
  cases action with
  | store place value | receive place value => contradiction
  | _ => rfl

end Action

namespace Machine

def refusal? (machine : Machine) (action : Action) : Option Fault :=
  match action.address? with
  | some address =>
      if machine.state.memory.accepts address then none else some (.addressOverflow address)
  | none => none

def overrun? (machine : Machine) (width : Nat) (action : Action) : Option Fault :=
  if action.proceeds ∧ Address.last < machine.state.ip + width then some .pointerOverflow else none

/-- The machine with what an action changes, before it goes on. -/
def changed (machine : Machine) (action : Action) : Machine :=
  { machine with
    state :=
      { machine.state with
        memory := action.stored machine.state.memory
        base := action.rebased machine.state.base }
    input := action.consumed machine.input }

def after (machine : Machine) (width : Nat) (action : Action) : Machine :=
  { machine with
    state :=
      { memory := action.stored machine.state.memory
        base := action.rebased machine.state.base
        ip := action.moved width machine.state.ip
        status := action.entered machine.state.status
        fault := machine.state.fault
        steps := action.counted machine.state.steps }
    input := action.consumed machine.input
    output := action.emitted machine.output }

section

variable (machine : Machine) (log : List Event) (width : Nat) {action : Action}

theorem enact_of_store {address : Nat} (stores : action.address? = some address) :
    machine.enact log width action =
      if machine.state.memory.accepts address then
        (machine.changed action).proceed log width action.outcome (action.emitted machine.output)
      else
        fail { machine with input := action.consumed machine.input } log (.addressOverflow address) := by
  cases action with
  | store place value | receive place value =>
      cases stores
      rfl
  | _ => contradiction

theorem enact_of_proceeds (storeless : action.address? = none) (proceeds : action.proceeds = true) :
    machine.enact log width action =
      (machine.changed action).proceed log width action.outcome (action.emitted machine.output) := by
  cases action with
  | rebase distance | pass | emit value => rfl
  | _ => contradiction

theorem enact_of_ends (ends : action.proceeds = false) :
    machine.enact log width action =
      ⟨.ok action.outcome, machine.after width action, log ++ action.closing machine.state.steps⟩ := by
  cases action with
  | jump target | suspend => exact congrArg (Reply.mk _ _) (List.append_nil log).symm
  | stop => rfl
  | _ => contradiction

theorem proceed_changed (proceeds : action.proceeds = true) :
    (machine.changed action).proceed log width action.outcome (action.emitted machine.output) =
      match machine.overrun? width action with
      | some fault => (machine.changed action).fail log fault
      | none =>
          ⟨.ok action.outcome, machine.after width action, log ++ action.closing machine.state.steps⟩ := by
  have ip : (machine.changed action).state.ip = machine.state.ip := rfl
  rw [proceed_eq, overrun?, ip]
  by_cases inRange : machine.state.ip + width ≤ Address.last
  · have within : ¬ (action.proceeds = true ∧ Address.last < machine.state.ip + width) := by omega
    rw [if_pos inRange, if_neg within]
    cases action with
    | jump target | suspend | stop => contradiction
    | _ => exact congrArg (Reply.mk _ _) (List.append_nil log).symm
  · have beyond : action.proceeds = true ∧ Address.last < machine.state.ip + width :=
      ⟨proceeds, by omega⟩
    rw [if_neg inRange, if_pos beyond]

/-- An enactment is refused by the memory, or runs over the last address with the change
made, or completes. -/
theorem enact_eq (action : Action) :
    machine.enact log width action =
      match machine.refusal? action, machine.overrun? width action with
      | some fault, _ => fail { machine with input := action.consumed machine.input } log fault
      | none, some fault => (machine.changed action).fail log fault
      | none, none =>
          ⟨.ok action.outcome, machine.after width action, log ++ action.closing machine.state.steps⟩ := by
  cases stores : action.address? with
  | some address =>
      have proceeds := Action.proceeds_of_store stores
      rw [enact_of_store machine log width stores]
      simp only [refusal?, stores]
      by_cases accepted : machine.state.memory.accepts address = true
      · rw [if_pos accepted, if_pos accepted, machine.proceed_changed log width proceeds]
        cases machine.overrun? width action <;> rfl
      · rw [if_neg accepted, if_neg accepted]
  | none =>
      simp only [refusal?, stores]
      cases proceeds : action.proceeds with
      | true =>
          rw [machine.enact_of_proceeds log width stores proceeds,
            machine.proceed_changed log width proceeds]
          cases machine.overrun? width action <;> rfl
      | false =>
          have within : machine.overrun? width action = none := by simp [overrun?, proceeds]
          rw [machine.enact_of_ends log width proceeds, within]

theorem answer_enact (action : Action) :
    (machine.enact log width action).answer =
      guarded ((machine.refusal? action).or (machine.overrun? width action)) action.outcome := by
  rw [enact_eq]
  cases machine.refusal? action with
  | some fault => rfl
  | none => cases machine.overrun? width action <;> rfl

theorem machine_enact (accepted : machine.refusal? action = none)
    (inRange : machine.overrun? width action = none) :
    (machine.enact log width action).machine = machine.after width action := by
  rw [enact_eq, accepted, inRange]

end

section

variable (machine : Machine) {action : Action} {address : Nat}

theorem refusal?_of_refused (stores : action.address? = some address)
    (refused : machine.state.memory.accepts address = false) :
    machine.refusal? action = some (.addressOverflow address) := by
  simp [refusal?, stores, refused]

theorem refusal?_of_accepted (stores : action.address? = some address)
    (accepted : machine.state.memory.accepts address = true) : machine.refusal? action = none := by
  simp [refusal?, stores, accepted]

theorem overrun?_ne_addressOverflow (width : Nat) (action : Action) (cell : Int) :
    machine.overrun? width action ≠ some (.addressOverflow cell) := by
  unfold overrun?
  split <;> simp

/-- The memory is that of the action, unless it was refused. -/
theorem memory_enact (log : List Event) (width : Nat) (action : Action) :
    (machine.enact log width action).machine.state.memory =
      match machine.refusal? action with
      | some _ => machine.state.memory
      | none => action.stored machine.state.memory := by
  rw [enact_eq]
  cases machine.refusal? action with
  | some fault => rfl
  | none => cases machine.overrun? width action <;> rfl

end

/-- The memory is changed by accepted stores, and one at a time. -/
theorem memory_step (machine : Machine) :
    machine.step.machine.state.memory = machine.state.memory ∨
      ∃ address value, machine.state.memory.accepts address = true ∧
        machine.step.machine.state.memory = machine.state.memory.put address value := by
  cases stopped : machine.final? with
  | some answer =>
      rw [step_eq, stopped]
      exact .inl rfl
  | none =>
      cases failed : firstFault? machine.view.checks with
      | some fault =>
          rw [step_of_fault stopped failed]
          exact .inl rfl
      | none =>
          rw [step_of_action stopped failed, memory_enact]
          cases stores : machine.view.action.address? with
          | none =>
              rw [Action.stored_of_storeless stores]
              cases machine.running.refusal? machine.view.action <;> exact .inl rfl
          | some address =>
              cases accepted : machine.state.memory.accepts address with
              | true =>
                  obtain ⟨value, put⟩ := Action.stored_of_store stores
                  rw [machine.running.refusal?_of_accepted stores accepted]
                  exact .inr ⟨address, value, accepted, put _⟩
              | false =>
                  rw [machine.running.refusal?_of_refused stores accepted]
                  exact .inl rfl

end Machine

end Intcode
