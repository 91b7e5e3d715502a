import Intcode.Proofs.Calls
import Intcode.Proofs.Completion

/-! When inputs arrive does not matter.

A machine that waits for an input is compared with one that has had all inputs from the
start. The second is the first in a frame: inputs stand behind those that wait, and outputs
that were collected stand before those that were not. A step that finds the input it needs
is the same inside the frame and outside, and a step that does not find it changes nothing
but the status.
-/

namespace Intcode

namespace Action

theorem consumed_append {action : Action} {input : List Int} (waiting : List Int)
    (fed : ∀ address value, action = .receive address value → input ≠ []) :
    action.consumed (input ++ waiting) = action.consumed input ++ waiting := by
  cases action with
  | receive address value => exact List.tail_append_of_ne_nil (fed address value rfl)
  | _ => rfl

theorem emitted_append (action : Action) (before output : Array Int) :
    action.emitted (before ++ output) = before ++ action.emitted output := by
  cases action with
  | emit value => exact Array.append_push.symm
  | _ => rfl

end Action

namespace Machine

/-- The machine with more inputs, and with outputs that it had before. -/
def framed (machine : Machine) (before : List Int) (waiting : List Int) : Machine :=
  { machine with
    input := machine.input ++ waiting
    output := before.toArray ++ machine.output }

/-- The machine without the mark that it waits for an input. -/
def awake (machine : Machine) : Machine :=
  match machine.final? with
  | some _ => machine
  | none => machine.running

variable {machine : Machine} {before waiting : List Int}

theorem framed_awake (machine : Machine) (before waiting : List Int) :
    (machine.framed before waiting).awake = machine.awake.framed before waiting := by
  have final : (machine.framed before waiting).final? = machine.final? := rfl
  unfold awake
  rw [final]
  cases machine.final? <;> rfl

theorem cycle_running (machine : Machine) : machine.running.cycle = machine.cycle := by
  rw [cycle_eq, cycle_eq]
  rfl

theorem step_awake (machine : Machine) : machine.awake.step = machine.step := by
  unfold awake
  cases stopped : machine.final? with
  | some answer => rfl
  | none =>
      have going : machine.running.final? = none := rfl
      rw [step_eq, going, step_eq, stopped]
      exact machine.cycle_running

def Reply.Framed {α : Type} (before waiting : List Int) (outer inner : Reply α) : Prop :=
  outer.answer = inner.answer ∧ outer.machine = inner.machine.framed before waiting

theorem changed_framed (machine : Machine) (before : List Int) {waiting : List Int} {action : Action}
    (consumed : action.consumed (machine.input ++ waiting) =
      action.consumed machine.input ++ waiting) :
    (machine.framed before waiting).changed action = (machine.changed action).framed before waiting := by
  simp only [changed, framed, consumed]

theorem after_framed (machine : Machine) (before : List Int) (width : Nat) {waiting : List Int}
    {action : Action}
    (consumed : action.consumed (machine.input ++ waiting) =
      action.consumed machine.input ++ waiting) :
    (machine.framed before waiting).after width action =
      (machine.after width action).framed before waiting := by
  simp only [after, framed, consumed, Action.emitted_append]

/-- An action does the same in a frame, if the input that it takes is there without it. -/
theorem enact_framed (machine : Machine) (before waiting : List Int) (outerLog log : List Event)
    (width : Nat) {action : Action}
    (fed : ∀ address value, action = .receive address value → machine.input ≠ []) :
    ((machine.framed before waiting).enact outerLog width action).Framed before waiting
      (machine.enact log width action) := by
  have consumed := Action.consumed_append waiting fed
  have refusal : (machine.framed before waiting).refusal? action = machine.refusal? action := rfl
  have overrun : (machine.framed before waiting).overrun? width action =
    machine.overrun? width action := rfl
  rw [enact_eq, enact_eq, refusal, overrun]
  cases machine.refusal? action with
  | some fault =>
      refine ⟨rfl, ?_⟩
      simp only [fail, framed, consumed]
  | none =>
      cases machine.overrun? width action with
      | some fault =>
          refine ⟨rfl, ?_⟩
          rw [machine.changed_framed before consumed]
          rfl
      | none => exact ⟨rfl, machine.after_framed before width consumed⟩

end Machine

/-- Only an instruction that takes an input depends on the next one. -/
theorem View.action_of_pending {view : View} {pending : Option Int}
    (same : view.number = 3 → view.pending = pending) :
    { view with pending := pending }.action = view.action := by
  by_cases number : view.number = 3
  · rw [← same number]
  · have numberToo : { view with pending := pending }.number = view.number := rfl
    unfold View.action
    rw [numberToo]
    split
    · rfl
    · rfl
    · contradiction
    all_goals rfl

theorem View.action_of_starving {view : View} (starves : view.starves = true) :
    view.action = .suspend := by
  simp only [View.starves, decide_eq_true_eq] at starves
  simp only [action, starves.1, starves.2]

theorem View.pending_of_receive {view : View} {address : Nat} {value : Int}
    (receives : view.action = .receive address value) : view.pending ≠ none := by
  intro absent
  simp only [action] at receives
  rw [absent] at receives
  split at receives <;> first | contradiction | split at receives <;> contradiction

theorem View.outcome_of_not_starving {view : View} (clear : firstFault? view.checks = none)
    (fed : view.starves = false) : view.action.outcome ≠ .awaitingInput := by
  obtain ⟨known, -, -, -, placed⟩ := clear_checks clear
  rw [(determines_action known placed).outcome]
  simp only [fed, Bool.false_eq_true, if_false]
  split
  · simp
  · split <;> simp

namespace Machine

theorem final?_ne_awaiting {machine : Machine} {answer : Except Fault Outcome}
    (stopped : machine.final? = some answer) : answer ≠ .ok .awaitingInput := by
  simp only [final?] at stopped
  split at stopped <;> cases stopped <;> simp

theorem awake_suspended {machine : Machine} (going : machine.final? = none) (log : List Event)
    (width : Nat) : (machine.running.enact log width .suspend).machine.awake = machine.awake := by
  unfold awake
  rw [going]
  rfl

theorem action_framed {machine : Machine} (fed : machine.view.starves = false)
    (before waiting : List Int) :
    (machine.framed before waiting).view.action = machine.view.action := by
  have view : (machine.framed before waiting).view =
      { machine.view with pending := machine.view.pending.or waiting.head? } := by
    simp only [Machine.view, State.view, framed, List.head?_append]
  rw [view]
  apply View.action_of_pending
  intro number
  cases pending : machine.view.pending with
  | some value => rfl
  | none => simp [View.starves, number, pending] at fed

theorem input_of_receive {machine : Machine} {address : Nat} {value : Int}
    (receives : machine.view.action = .receive address value) : machine.input ≠ [] := by
  intro empty
  apply View.pending_of_receive receives
  simp only [Machine.view, State.view, empty, List.head?_nil]

/-- Either a step finds no input, and then only the mark of that is left, or it is the same
in every frame. -/
theorem step_framed (machine : Machine) (before waiting : List Int) :
    (machine.step.answer = .ok .awaitingInput ∧ machine.step.machine.awake = machine.awake) ∨
      (machine.step.answer ≠ .ok .awaitingInput ∧
        (machine.framed before waiting).step.Framed before waiting machine.step) := by
  have final : (machine.framed before waiting).final? = machine.final? := rfl
  have checks : (machine.framed before waiting).view.checks = machine.view.checks := rfl
  cases stopped : machine.final? with
  | some answer =>
      rw [step_eq, step_eq (machine.framed before waiting), final, stopped]
      exact .inr ⟨final?_ne_awaiting stopped, rfl, rfl⟩
  | none =>
      cases failed : firstFault? machine.view.checks with
      | some fault =>
          rw [step_of_fault stopped failed, step_of_fault (final.trans stopped) (checks ▸ failed)]
          exact .inr ⟨nofun, rfl, rfl⟩
      | none =>
          rw [step_of_action stopped failed, step_of_action (final.trans stopped) (checks ▸ failed)]
          cases starves : machine.view.starves with
          | true =>
              rw [View.action_of_starving starves]
              exact .inl ⟨rfl, awake_suspended stopped _ _⟩
          | false =>
              -- The input that is taken is there already, so the frame is not touched.
              have same := machine.running.enact_framed before waiting
                (machine.framed before waiting).view.decision.log machine.view.decision.log
                (1 + Table.arity machine.view.number) fun _ _ => input_of_receive
              rw [action_framed starves]
              refine .inr ⟨?_, same⟩
              rw [answer_enact]
              cases (machine.running.refusal? machine.view.action).or
                  (machine.running.overrun? (1 + Table.arity machine.view.number) machine.view.action) with
              | some fault => nofun
              | none => simpa using View.outcome_of_not_starving failed starves

/-- The eager machine is where the other one is. It has the inputs that are still waiting to
be given, and the outputs that were collected before. -/
def Ahead (before waiting : List Int) (slow eager : Machine) : Prop :=
  eager.awake = slow.awake.framed before waiting

variable {before waiting : List Int} {slow eager : Machine}

theorem Ahead.step (ahead : Ahead before waiting slow eager) :
    (slow.step.answer = .ok .awaitingInput ∧ Ahead before waiting slow.step.machine eager) ∨
      (slow.step.answer ≠ .ok .awaitingInput ∧ eager.step.answer = slow.step.answer ∧
        Ahead before waiting slow.step.machine eager.step.machine) := by
  have same : eager.step = (slow.framed before waiting).step := by
    rw [← step_awake eager, ahead, ← framed_awake, step_awake]
  rcases slow.step_framed before waiting with ⟨suspended, awake⟩ | ⟨completed, answer, machine⟩
  · refine .inl ⟨suspended, ?_⟩
    rw [Ahead, awake]
    exact ahead
  · rw [← same] at answer machine
    refine .inr ⟨completed, answer, ?_⟩
    rw [Ahead, machine, framed_awake]

theorem Ahead.requeue (ahead : Ahead before waiting slow eager) {earlier later input : List Int}
    {output : Array Int} (inputs : input ++ later = slow.input ++ waiting)
    (outputs : earlier.toArray ++ output = before.toArray ++ slow.output) :
    Ahead earlier later { slow with input := input, output := output } eager := by
  have final : ({ slow with input := input, output := output } : Machine).final? = slow.final? := rfl
  rw [Ahead, ahead]
  unfold awake
  rw [final]
  cases slow.final? with
  | some answer => simp only [framed, inputs, outputs]
  | none => simp only [framed, running, inputs, outputs]

theorem Ahead.call {call : Call} (watched : Event → Bool)
    (ahead : Ahead before (call.given ++ waiting) slow eager) (plain : call.isPlain = true) :
    ((slow.call watched call).answer.result? = none ∧
        Ahead (before ++ (slow.call watched call).answer.collected) waiting
          (slow.call watched call).machine eager) ∨
      ((slow.call watched call).answer.result? = some eager.step.answer ∧
        Ahead (before ++ (slow.call watched call).answer.collected) waiting
          (slow.call watched call).machine eager.step.machine) := by
  cases call with
  | step =>
      have nothing : (slow.call watched .step).answer.collected = [] := rfl
      rw [nothing, List.append_nil]
      rcases Ahead.step ahead with ⟨suspended, next⟩ | ⟨completed, answer, next⟩
      · refine .inl ⟨?_, next⟩
        simp only [Machine.call, suspended, Answer.result?]
      · refine .inr ⟨?_, next⟩
        rw [answer]
        exact Answer.result?_outcome completed
  | push value =>
      refine .inl ⟨rfl, Ahead.requeue ahead ?_ ?_⟩
      · exact List.append_assoc slow.input [value] waiting
      · exact congrArg (·.toArray ++ slow.output) (List.append_nil before)
  | extend values =>
      refine .inl ⟨rfl, Ahead.requeue ahead ?_ ?_⟩
      · exact List.append_assoc slow.input values waiting
      · exact congrArg (·.toArray ++ slow.output) (List.append_nil before)
  | pop => exact .inl ⟨rfl, Ahead.requeue ahead rfl (collected_append_pop before slow.output)⟩
  | take =>
      refine .inl ⟨rfl, Ahead.requeue ahead rfl ?_⟩
      simp [Machine.call, Machine.take, Answer.collected]
  | runFor budget => contradiction
  | run fuel => contradiction
  | reset => contradiction
  | write address value => contradiction

theorem Ahead.calls {history : List Call} (watched : Event → Bool)
    (ahead : Ahead before (history.flatMap Call.given ++ waiting) slow eager)
    (plain : ∀ call ∈ history, call.isPlain = true) :
    let answers := (slow.calls watched history).answer
    let results := answers.filterMap Answer.result?
    let reached := eager.calls watched (List.replicate results.length .step)
    reached.answer = results.map Answer.outcome ∧
      Ahead (before ++ answers.flatMap Answer.collected) waiting
        (slow.calls watched history).machine reached.machine := by
  induction history generalizing before slow eager with
  | nil =>
      refine ⟨rfl, ?_⟩
      simpa [Machine.calls] using ahead
  | cons first rest ih =>
      rw [List.flatMap_cons, List.append_assoc] at ahead
      have plainRest : ∀ call ∈ rest, call.isPlain = true :=
        fun call member => plain call (by simp [member])
      simp only [Machine.calls, List.filterMap_cons, List.flatMap_cons, ← List.append_assoc]
      rcases ahead.call watched (plain first (by simp)) with ⟨suspended, next⟩ | ⟨completed, next⟩
      · rw [suspended]
        exact ih next plainRest
      · rw [completed]
        -- The eager machine takes one step for each result.
        obtain ⟨answers, reached⟩ := ih next plainRest
        simp only [List.length_cons, List.replicate_succ, Machine.calls, List.map_cons, Machine.call]
        exact ⟨congrArg _ answers, reached⟩

/-- The machines have come equally far. -/
structure Abreast (collected waiting : List Int) (slow eager : Machine) : Prop where
  memory : eager.state.memory = slow.state.memory
  base : eager.state.base = slow.state.base
  ip : eager.state.ip = slow.state.ip
  steps : eager.state.steps = slow.state.steps
  fault : eager.state.fault = slow.state.fault
  output : eager.output.toList = collected ++ slow.output.toList
  input : eager.input = slow.input ++ waiting

theorem awake_eq (machine : Machine) :
    machine.awake = { machine with state := { machine.state with status := machine.awake.state.status } } := by
  unfold awake
  cases machine.final? <;> rfl

theorem Ahead.abreast (ahead : Ahead before waiting slow eager) :
    Abreast before waiting slow eager := by
  rw [Ahead, awake_eq, awake_eq slow] at ahead
  simp only [framed, Machine.mk.injEq, State.mk.injEq] at ahead
  obtain ⟨-, -, -, ⟨memory, base, ip, -, fault, steps⟩, input, output⟩ := ahead
  refine ⟨memory, base, ip, steps, fault, ?_, input⟩
  rw [output, Array.toList_append]

/-- However inputs and steps alternate, the steps that do not wait are the first ones of the
machine that has all inputs from the start. -/
theorem input_timing_irrelevant (watched : Event → Bool) (kind : Store.Kind) (id : Nat)
    (program : List Int) {history : List Call} (plain : ∀ call ∈ history, call.isPlain = true)
    {inputs waiting : List Int} (delivered : history.flatMap Call.given ++ waiting = inputs) :
    let slow := (load kind id program).calls watched history
    let results := slow.answer.filterMap Answer.result?
    let eager := ((load kind id program).extend inputs).calls watched
      (List.replicate results.length .step)
    eager.answer = results.map Answer.outcome ∧
      Abreast (slow.answer.flatMap Answer.collected) waiting slow.machine eager.machine := by
  have ahead : Ahead [] (history.flatMap Call.given ++ waiting) (load kind id program)
      ((load kind id program).extend inputs) := by
    rw [delivered]
    rfl
  obtain ⟨answers, reached⟩ := ahead.calls watched plain
  exact ⟨answers, reached.abreast⟩

/-- Two steps that wait, an input, and an output that is collected. -/
theorem input_timing_irrelevant_echo :
    let history : List Call := [.step, .step, .push 5, .step, .step, .take, .step]
    let slow := (load .dense 1 [3, 0, 4, 0, 3, 0, 99]).calls (fun _ => true) history
    let results := slow.answer.filterMap Answer.result?
    let eager := ((load .dense 1 [3, 0, 4, 0, 3, 0, 99]).extend [5, 6]).calls (fun _ => true)
      (List.replicate results.length .step)
    (∀ call ∈ history, call.isPlain = true) ∧ history.flatMap Call.given ++ [6] = [5, 6] ∧
      results = [.ok .executed, .ok (.output 5)] ∧
      eager.answer = results.map Answer.outcome ∧
      Abreast (slow.answer.flatMap Answer.collected) [6] slow.machine eager.machine :=
  ⟨by decide, rfl, rfl,
    input_timing_irrelevant (fun _ => true) .dense 1 [3, 0, 4, 0, 3, 0, 99] (by decide) rfl⟩

end Machine

end Intcode
