import Intcode.Proofs.Queues
import Intcode.Proofs.Slicing

/-! Nothing is lost in the queues of a machine.

A history of calls takes steps, singly or in runs, and puts values into the queues and takes
them out. `Machine.stationsIn` lists the machines from which the steps are taken. Their outputs
are what was collected and what still waits to be collected, and, unless the machine has failed,
what was given is what they stored and what is still in the queue of inputs. Both are shown for
one step, then along the steps of a run, then for each call, then for the history.
-/

namespace Intcode.Machine

/-- The value that an instruction has stored that takes an input, if the next step completes
one. -/
def stored? (machine : Machine) : Option Int :=
  match machine.step.answer with
  | .ok .executed =>
      if machine.view.number = 3 then
        some (machine.step.machine.state.memory.read (machine.view.target 1))
      else none
  | _ => none

def emittedAt (stations : List Machine) : List Int :=
  stations.filterMap fun station => emission? station.step.answer

def storedAt (stations : List Machine) : List Int :=
  stations.filterMap stored?

/-- The machines from which a run takes its steps, in order. -/
def stations : Nat → Machine → List Machine
  | 0, _ => []
  | budget + 1, machine =>
      match machine.step.stop? with
      | some _ => [machine]
      | none => machine :: stations budget machine.step.machine

def stationsOf (machine : Machine) : Call → List Machine
  | .step => [machine]
  | .runFor budget | .run budget => machine.stations budget
  | _ => []

/-- The machines from which the steps of a history are taken, those inside of runs included. -/
def stationsIn (watched : Event → Bool) (machine : Machine) : List Call → List Machine
  | [] => []
  | first :: rest =>
      machine.stationsOf first ++ (machine.call watched first).machine.stationsIn watched rest

/-- Single steps lead from one machine to the other, and are taken from the machines listed. -/
inductive Leads : Machine → List Machine → Machine → Prop where
  | here (machine : Machine) : Leads machine [] machine
  | step {machine finish : Machine} {stations : List Machine}
      (rest : Leads machine.step.machine stations finish) :
      Leads machine (machine :: stations) finish

/-- A machine that repeats a fault from now on. -/
def Failed (machine : Machine) : Prop :=
  ∃ fault, machine.final? = some (.error fault)

variable {machine start finish : Machine} {stations : List Machine} (watched : Event → Bool)

theorem leads_drive (budget : Nat) (machine : Machine) (kept : Array Event) :
    machine.Leads (machine.stations budget) (machine.drive watched budget kept).machine := by
  induction budget generalizing machine kept with
  | zero => exact .here machine
  | succ budget ih =>
      rw [Machine.stations]
      cases stops : machine.step.stop? with
      | some ending =>
          rw [drive_of_stop watched stops]
          exact .step (.here machine.step.machine)
      | none =>
          rw [drive_of_goes watched stops]
          exact .step (ih machine.step.machine _)

theorem failed_of_answer {fault : Fault} (failed : machine.step.answer = .error fault) :
    machine.step.machine.Failed := by
  cases final : machine.final? with
  | none => exact ⟨fault, final?_step_of_answer final failed (.inr rfl)⟩
  | some answer =>
      rw [step_eq, final] at failed ⊢
      cases failed
      exact ⟨fault, final⟩

theorem status_of_failed (failed : machine.Failed) : machine.state.status = .faulted := by
  obtain ⟨fault, final⟩ := failed
  simp only [final?] at final
  split at final <;> cases final
  assumption

theorem decided_of_completed {outcome : Outcome} (going : machine.final? = none)
    (completed : machine.step.answer = .ok outcome) : firstFault? machine.view.checks = none := by
  cases decided : firstFault? machine.view.checks with
  | none => rfl
  | some fault =>
      rw [step_of_fault going decided] at completed
      cases completed

theorem stored?_of_idle {outcome : Outcome} (completed : machine.step.answer = .ok outcome)
    (idle : outcome ≠ .executed) : machine.stored? = none := by
  unfold stored?
  rw [completed]
  cases outcome with
  | executed => contradiction
  | _ => rfl

theorem stored?_of_other (number : machine.view.number ≠ 3) : machine.stored? = none := by
  unfold stored?
  split
  · rw [if_neg number]
  · rfl

theorem stored?_of_taken {outcome : Outcome} {value : Int} {rest : List Int}
    (going : machine.final? = none) (completed : machine.step.answer = .ok outcome)
    (number : machine.view.number = 3) (waiting : machine.input = value :: rest) :
    machine.stored? = some value := by
  have pending : machine.view.pending = some value := congrArg List.head? waiting
  have decided := decided_of_completed going completed
  obtain ⟨rfl, written⟩ := received_stored going decided number pending completed
  obtain ⟨-, put⟩ := Store.accepts_of_write written
  unfold stored?
  rw [completed]
  simp only [number, if_true, put, Store.read_put]

theorem answer_of_starving (going : machine.final? = none)
    (decided : firstFault? machine.view.checks = none) (number : machine.view.number = 3)
    (nothing : machine.input = []) : machine.step.answer = .ok .awaitingInput := by
  have pending : machine.view.pending = none := congrArg List.head? nothing
  have starves : machine.view.starves = true := by simp [View.starves, number, pending]
  rw [step_of_action going decided, View.action_of_starving starves]
  rfl

/-- An input that leaves the queue is stored by the step that takes it, or the step fails. -/
theorem input_conserved (machine : Machine) :
    machine.step.machine.Failed ∨
      machine.input = machine.stored?.toList ++ machine.step.machine.input := by
  cases completed : machine.step.answer with
  | error fault => exact .inl (failed_of_answer completed)
  | ok outcome =>
      refine .inr ?_
      cases final : machine.final? with
      | some answer =>
          have idle : outcome ≠ .executed := by
            have stops := stop?_of_final final
            rintro rfl
            rw [Reply.stop?, completed] at stops
            cases stops
          rw [stored?_of_idle completed idle, machine_step_of_final final]
          rfl
      | none =>
          have decided := decided_of_completed final completed
          obtain ⟨known, -, -, -, placed⟩ := View.clear_checks decided
          rw [input_step_of_decided final decided, input_after known placed]
          by_cases number : machine.view.number = 3
          · rw [if_pos number]
            cases waiting : machine.input with
            | nil =>
                rw [stored?_of_idle (answer_of_starving final decided number waiting) (by simp)]
                rfl
            | cons value rest =>
                rw [stored?_of_taken final completed number waiting]
                rfl
          · rw [if_neg number, stored?_of_other number]
            rfl

theorem Leads.failed (leads : Leads start stations finish) (failed : start.Failed) :
    finish.Failed := by
  induction leads with
  | here machine => exact failed
  | step rest ih =>
      obtain ⟨fault, final⟩ := failed
      apply ih
      rw [machine_step_of_final final]
      exact ⟨fault, final⟩

theorem Leads.output (leads : Leads start stations finish) :
    finish.output.toList = start.output.toList ++ emittedAt stations := by
  induction leads with
  | here machine => exact (List.append_nil _).symm
  | @step machine finish stations rest ih =>
      rw [ih, output_after_step, List.append_assoc, emittedAt, emittedAt]
      cases emitted : emission? machine.step.answer <;> simp [emitted]

theorem Leads.input (leads : Leads start stations finish) :
    finish.Failed ∨ start.input = storedAt stations ++ finish.input := by
  induction leads with
  | here machine => exact .inr rfl
  | @step machine finish stations rest ih =>
      rcases machine.input_conserved with failed | taken
      · exact .inl (rest.failed failed)
      · rcases ih with failed | later
        · exact .inl failed
        · refine .inr ?_
          rw [taken, later, ← List.append_assoc, storedAt, storedAt]
          cases stored : machine.stored? <;> simp [stored]

theorem Failed.call (failed : machine.Failed) {call : Call} (kept : call ≠ .reset) :
    (machine.call watched call).machine.Failed := by
  cases call with
  | step => exact (Leads.step (.here machine.step.machine)).failed failed
  | runFor budget => exact (leads_drive watched budget machine #[]).failed failed
  | run fuel => exact (leads_drive watched fuel machine #[]).failed failed
  | push value | extend values | pop | take => exact failed
  | reset => contradiction
  | write address value =>
      simp only [Machine.call, Machine.write]
      split <;> exact failed

theorem queues_write (machine : Machine) (address : Nat) (value : Int) :
    (machine.write address value).2.input = machine.input ∧
      (machine.write address value).2.output = machine.output := by
  unfold Machine.write
  split <;> exact ⟨rfl, rfl⟩

theorem output_conserved_call (machine : Machine) {call : Call} (kept : call ≠ .reset) :
    (machine.call watched call).answer.collected ++
        (machine.call watched call).machine.output.toList =
      machine.output.toList ++ emittedAt (machine.stationsOf call) := by
  cases call with
  | step => exact (Leads.step (.here machine.step.machine)).output
  | runFor budget => exact (leads_drive watched budget machine #[]).output
  | run fuel =>
      have silent : (machine.call watched (.run fuel)).answer.collected = [] := by
        simp only [Machine.call]
        cases (machine.drive watched fuel #[]).answer <;> rfl
      rw [silent]
      exact (leads_drive watched fuel machine #[]).output
  | push value | extend values | pop | take => exact output_call watched machine rfl
  | reset => contradiction
  | write address value =>
      have same := (machine.queues_write address value).2
      exact (congrArg Array.toList same).trans (List.append_nil _).symm

theorem input_conserved_call (machine : Machine) {call : Call} (kept : call ≠ .reset) :
    (machine.call watched call).machine.Failed ∨
      machine.input ++ call.given =
        storedAt (machine.stationsOf call) ++ (machine.call watched call).machine.input := by
  have along : ∀ {stations finish}, machine.Leads stations finish →
      finish.Failed ∨ machine.input ++ [] = storedAt stations ++ finish.input := by
    intro stations finish leads
    rw [List.append_nil]
    exact leads.input
  cases call with
  | step => exact along (.step (.here machine.step.machine))
  | runFor budget => exact along (leads_drive watched budget machine #[])
  | run fuel => exact along (leads_drive watched fuel machine #[])
  | push value | extend values => exact .inr rfl
  | pop | take => exact .inr (List.append_nil machine.input)
  | reset => contradiction
  | write address value =>
      have same := (machine.queues_write address value).1
      exact .inr ((List.append_nil machine.input).trans same.symm)

section History

variable {history : List Call} (kept : .reset ∉ history)
include kept

theorem Failed.calls (failed : machine.Failed) : (machine.calls watched history).machine.Failed := by
  refine calls_invariant ?_ failed
  intro call member machine failed
  apply failed.call watched
  rintro rfl
  exact kept member

theorem output_conserved_calls (machine : Machine) :
    (machine.calls watched history).answer.flatMap Answer.collected ++
        (machine.calls watched history).machine.output.toList =
      machine.output.toList ++ emittedAt (machine.stationsIn watched history) := by
  induction history generalizing machine with
  | nil => exact (List.append_nil machine.output.toList).symm
  | cons first rest ih =>
      have keptLater := List.not_mem_of_not_mem_cons kept
      have now := output_conserved_call watched machine (List.ne_of_not_mem_cons kept).symm
      have later := ih keptLater (machine.call watched first).machine
      calc
        _ = (machine.call watched first).answer.collected ++
              ((machine.call watched first).machine.output.toList ++
                emittedAt ((machine.call watched first).machine.stationsIn watched rest)) := by
          rw [← later, ← List.append_assoc]
          rfl
        _ = _ := by
          rw [← List.append_assoc, now, List.append_assoc, stationsIn, emittedAt, emittedAt,
            emittedAt, List.filterMap_append]

theorem input_conserved_calls (machine : Machine) :
    (machine.calls watched history).machine.Failed ∨
      machine.input ++ history.flatMap Call.given =
        storedAt (machine.stationsIn watched history) ++
          (machine.calls watched history).machine.input := by
  induction history generalizing machine with
  | nil => exact .inr (List.append_nil machine.input)
  | cons first rest ih =>
      have keptLater := List.not_mem_of_not_mem_cons kept
      rcases input_conserved_call watched machine (List.ne_of_not_mem_cons kept).symm with failed | now
      · have failedLater := failed.calls watched keptLater
        exact .inl failedLater
      · rcases ih keptLater (machine.call watched first).machine with failed | later
        · exact .inl failed
        · refine .inr ?_
          calc
            machine.input ++ (first :: rest).flatMap Call.given =
                machine.input ++ first.given ++ rest.flatMap Call.given := by
              rw [List.flatMap_cons, List.append_assoc]
            _ = storedAt (machine.stationsOf first) ++
                  ((machine.call watched first).machine.input ++ rest.flatMap Call.given) := by
              rw [now, List.append_assoc]
            _ = storedAt (machine.stationsIn watched (first :: rest)) ++
                  (machine.calls watched (first :: rest)).machine.input := by
              rw [later, ← List.append_assoc, stationsIn, storedAt, storedAt, storedAt,
                List.filterMap_append]
              rfl

end History

theorem queues_of_reset (kind : Store.Kind) (id : Nat) (program : List Int) {earlier : List Call}
    (fresh : ∀ call ∈ earlier.getLast?, call = .reset) :
    let start := ((load kind id program).calls watched earlier).machine
    start.input = [] ∧ start.output = #[] := by
  rcases List.eq_nil_or_concat earlier with rfl | ⟨before, last, rfl⟩
  · exact ⟨rfl, rfl⟩
  · have reset : last = .reset := fresh last (by simp)
    rw [reset, List.concat_eq_append, (calls_append watched _ before [.reset]).2]
    exact ⟨rfl, rfl⟩

/-- The outputs of a history are those that were collected and those still in the queue, in
order; and, unless the machine has failed, the inputs that it was given are those that its
instructions stored and those still in the queue, in order. -/
structure Conserves (start : Machine) (history : List Call) : Prop where
  outputs : emittedAt (start.stationsIn watched history) =
    (start.calls watched history).answer.flatMap Answer.collected ++
      (start.calls watched history).machine.output.toList
  inputs : (start.calls watched history).machine.state.status ≠ .faulted →
    history.flatMap Call.given =
      storedAt (start.stationsIn watched history) ++ (start.calls watched history).machine.input

/-- From the time that a machine was loaded or reset, nothing is lost, doubled or overtaken in
its queues. -/
theorem queues_conserved (kind : Store.Kind) (id : Nat) (program : List Int)
    {earlier history : List Call} (fresh : ∀ call ∈ earlier.getLast?, call = .reset)
    (kept : .reset ∉ history) :
    ((load kind id program).calls watched earlier).machine.Conserves watched history := by
  obtain ⟨noInput, noOutput⟩ := queues_of_reset watched kind id program fresh
  refine ⟨?_, ?_⟩
  · have outputs := output_conserved_calls watched kept
      ((load kind id program).calls watched earlier).machine
    rw [noOutput] at outputs
    exact outputs.symm
  · intro sound
    rcases input_conserved_calls watched kept
      ((load kind id program).calls watched earlier).machine with failed | inputs
    · exact absurd (status_of_failed failed) sound
    · rw [noInput] at inputs
      exact inputs

/-- Of two inputs one is stored, and of the two outputs of a run one is collected. -/
theorem queues_conserved_echo :
    let earlier : List Call := [.push 1, .step, .reset]
    let history : List Call := [.extend [7, 8], .runFor 9, .pop]
    let start := ((load .sparse 1 [3, 0, 4, 0, 4, 0, 99]).calls (fun _ => true) earlier).machine
    start.Conserves (fun _ => true) history ∧
      emittedAt (start.stationsIn (fun _ => true) history) = [7, 7] ∧
      (start.calls (fun _ => true) history).answer.flatMap Answer.collected = [7] ∧
      (start.calls (fun _ => true) history).machine.state.status ≠ .faulted ∧
      storedAt (start.stationsIn (fun _ => true) history) = [7] ∧
      (start.calls (fun _ => true) history).machine.input = [8] := by
  intro earlier history start
  have fresh : ∀ call ∈ earlier.getLast?, call = .reset := by decide
  have kept : .reset ∉ history := by decide
  exact ⟨queues_conserved (fun _ => true) .sparse 1 [3, 0, 4, 0, 4, 0, 99] fresh kept,
    by decide +kernel, by decide +kernel, by decide +kernel, by decide +kernel, by decide +kernel⟩

end Intcode.Machine
