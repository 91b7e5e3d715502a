import Intcode.Proofs.InputTiming
import Intcode.Proofs.Runs

/-! Runs in slices.

A run whose budget is used up goes on where it was, and a run that has stopped stops again at
once and in the same way. So one run may be cut into two, and a run without a budget is a run
with any budget that is large enough. The events of a run do not enter into this: a machine
that waits reports it once in every slice.
-/

namespace Intcode.Machine

variable {machine : Machine}

theorem final?_step_of_answer {answer : Except Fault Outcome} (going : machine.final? = none)
    (answered : machine.step.answer = answer)
    (ended : reached answer = .halted ∨ reached answer = .faulted) :
    machine.step.machine.final? = some answer := by
  have status := status_step going
  rw [answered] at status
  cases answer with
  | error fault =>
      have recorded := (records_fault going answered).fault
      simp only [final?, status, reached, recorded]
  | ok outcome =>
      cases outcome with
      | halted => simp only [final?, status, reached]
      | _ => rcases ended with ended | ended <;> cases ended

/-- A step after which a run stops changes nothing when it is taken again. -/
theorem step_again {ending : Except Fault Status} (stopped : machine.step.stop? = some ending) :
    machine.step.machine.step.answer = machine.step.answer ∧
      machine.step.machine.step.machine = machine.step.machine := by
  cases final : machine.final? with
  | some answer =>
      have unchanged : machine.step.machine = machine := by rw [step_eq, final]
      rw [unchanged]
      exact ⟨rfl, unchanged⟩
  | none =>
      have repeats : ∀ answer, machine.step.answer = answer →
          machine.step.machine.final? = some answer →
          machine.step.machine.step.answer = machine.step.answer ∧
            machine.step.machine.step.machine = machine.step.machine := by
        intro answer answered ended
        rw [step_eq machine.step.machine, ended, answered]
        exact ⟨rfl, rfl⟩
      unfold Reply.stop? at stopped
      split at stopped
      · exact repeats _ ‹_› (final?_step_of_answer final ‹_› (.inr rfl))
      · exact repeats _ ‹_› (final?_step_of_answer final ‹_› (.inl rfl))
      · -- Only the mark that the machine waits is left, and a step does not see it.
        rcases machine.step_framed [] [] with ⟨-, awake⟩ | ⟨completed, -⟩
        · have same : machine.step.machine.step = machine.step := by
            rw [← step_awake machine.step.machine, awake, step_awake]
          rw [same]
          exact ⟨rfl, rfl⟩
        · exact absurd ‹_› completed
      · cases stopped
      · cases stopped

theorem stop?_again {ending : Except Fault Status} (stopped : machine.step.stop? = some ending) :
    machine.step.machine.step.stop? = some ending := by
  rw [← stopped, Reply.stop?, (step_again stopped).1]
  rfl

section Drive

variable {watched : Event → Bool} {first : Nat} {kept : Array Event}

theorem drive_add_of_spent (spent : (machine.drive watched first kept).answer = none)
    (second : Nat) :
    machine.drive watched (first + second) kept =
      (machine.drive watched first kept).machine.drive watched second
        (machine.drive watched first kept).log.toArray := by
  induction first generalizing machine kept with
  | zero => rw [Nat.zero_add, drive]
  | succ first ih =>
      rw [Nat.succ_add]
      cases stops : machine.step.stop? with
      | some ending =>
          rw [drive_of_stop watched stops] at spent
          cases spent
      | none =>
          rw [drive_of_goes watched stops] at spent
          rw [drive_of_goes watched stops, drive_of_goes watched stops]
          exact ih spent

variable {ending : Except Fault Status}

theorem drive_add_of_stopped (stopped : (machine.drive watched first kept).answer = some ending)
    (more : Nat) :
    machine.drive watched (first + more) kept = machine.drive watched first kept := by
  induction first generalizing machine kept with
  | zero => cases stopped
  | succ first ih =>
      rw [Nat.succ_add]
      cases stops : machine.step.stop? with
      | some ending => rw [drive_of_stop watched stops, drive_of_stop watched stops]
      | none =>
          rw [drive_of_goes watched stops] at stopped
          rw [drive_of_goes watched stops, drive_of_goes watched stops]
          exact ih stopped

theorem drive_again (stopped : (machine.drive watched first kept).answer = some ending)
    (more : Nat) (further : Array Event) :
    ((machine.drive watched first kept).machine.drive watched (more + 1) further).answer = some ending ∧
      ((machine.drive watched first kept).machine.drive watched (more + 1) further).machine =
        (machine.drive watched first kept).machine := by
  induction first generalizing machine kept with
  | zero => cases stopped
  | succ first ih =>
      cases stops : machine.step.stop? with
      | some found =>
          rw [drive_of_stop watched stops] at stopped ⊢
          rw [drive_of_stop watched (stop?_again stops)]
          exact ⟨stopped, (step_again stops).2⟩
      | none =>
          rw [drive_of_goes watched stops] at stopped ⊢
          exact ih stopped

/-- What a run is told to keep of its events changes neither its answer nor the machine. -/
theorem drive_congr (watched other : Event → Bool) (budget : Nat) (machine : Machine)
    (kept further : Array Event) :
    (machine.drive watched budget kept).answer = (machine.drive other budget further).answer ∧
      (machine.drive watched budget kept).machine = (machine.drive other budget further).machine := by
  induction budget generalizing machine kept further with
  | zero => exact ⟨rfl, rfl⟩
  | succ budget ih =>
      cases stops : machine.step.stop? with
      | some ending =>
          rw [drive_of_stop watched stops, drive_of_stop other stops]
          exact ⟨rfl, rfl⟩
      | none =>
          rw [drive_of_goes watched stops, drive_of_goes other stops]
          exact ih _ _ _

/-- The ways in which a run stops before its budget is used up. -/
inductive Stops : Except Fault Status → Prop where
  | failed (fault : Fault) : Stops (.error fault)
  | halted : Stops (.ok .halted)
  | starved : Stops (.ok .awaitingInput)

theorem Reply.stops {reply : Reply (Except Fault Outcome)} (stopped : reply.stop? = some ending) :
    Stops ending := by
  unfold Reply.stop? at stopped
  split at stopped
  · cases stopped
    exact .failed _
  · cases stopped
    exact .halted
  · cases stopped
    exact .starved
  · cases stopped
  · cases stopped

theorem stops_of_drive (stopped : (machine.drive watched first kept).answer = some ending) :
    Stops ending := by
  induction first generalizing machine kept with
  | zero => cases stopped
  | succ first ih =>
      cases stops : machine.step.stop? with
      | some found =>
          rw [drive_of_stop watched stops] at stopped
          cases stopped
          exact Reply.stops stops
      | none =>
          rw [drive_of_goes watched stops] at stopped
          exact ih stopped

end Drive

section RunFor

variable (watched : Event → Bool) (machine : Machine)

theorem runFor_of_spent {budget : Nat} (spent : (machine.drive watched budget #[]).answer = none) :
    (machine.runFor watched budget).answer =
      .ok (machine.drive watched budget #[]).machine.state.status := by
  simp only [runFor, spent, Option.getD_none]

theorem runFor_of_stopped {budget : Nat} {ending : Except Fault Status}
    (stopped : (machine.drive watched budget #[]).answer = some ending) :
    (machine.runFor watched budget).answer = ending := by
  simp only [runFor, stopped, Option.getD_some]

theorem runFor_runFor (first second : Nat) :
    ((machine.runFor watched first).machine.runFor watched second).machine =
        (machine.runFor watched (first + second)).machine ∧
      (0 < second →
        ((machine.runFor watched first).machine.runFor watched second).answer =
          (machine.runFor watched (first + second)).answer) := by
  have firstMachine : (machine.runFor watched first).machine =
    (machine.drive watched first #[]).machine := rfl
  rw [firstMachine]
  cases answer : (machine.drive watched first #[]).answer with
  | none =>
      have whole := drive_add_of_spent answer second
      obtain ⟨sameAnswer, sameMachine⟩ := drive_congr watched watched second
        (machine.drive watched first #[]).machine #[] (machine.drive watched first #[]).log.toArray
      rw [← whole] at sameAnswer sameMachine
      simp only [runFor, sameAnswer, sameMachine, implies_true, and_self]
  | some ending =>
      have whole := drive_add_of_stopped answer second
      cases second with
      | zero => exact ⟨rfl, nofun⟩
      | succ second =>
          obtain ⟨againAnswer, againMachine⟩ := drive_again answer second #[]
          simp only [runFor, whole, answer, againAnswer, againMachine, Option.getD_some,
            implies_true, and_self]

end RunFor

theorem stop?_of_final {answer : Except Fault Outcome} (final : machine.final? = some answer) :
    machine.step.stop? = some (answer.map fun _ => .halted) := by
  rw [step_eq, final]
  simp only [final?] at final
  split at final <;> cases final <;> rfl

theorem machine_step_of_final {answer : Except Fault Outcome}
    (final : machine.final? = some answer) : machine.step.machine = machine := by
  rw [step_eq, final]

theorem drive_of_final {answer : Except Fault Outcome} (watched : Event → Bool)
    (final : machine.final? = some answer) (budget : Nat)
    (kept : Array Event) :
    (machine.drive watched budget kept).machine = machine ∧
      (0 < budget →
        (machine.drive watched budget kept).answer = some (answer.map fun _ => .halted)) := by
  cases budget with
  | zero => exact ⟨rfl, nofun⟩
  | succ budget =>
      rw [drive_of_stop watched (stop?_of_final final)]
      exact ⟨machine_step_of_final final, fun _ => rfl⟩

section Steps

variable (watched : Event → Bool) (machine : Machine) (budget : Nat)

theorem steps_runFor :
    machine.state.steps ≤ (machine.runFor watched budget).machine.state.steps ∧
      (machine.runFor watched budget).machine.state.steps ≤ machine.state.steps + budget := by
  cases final : machine.final? with
  | none =>
      obtain ⟨ending, ran, -⟩ := machine.runFor_ran watched budget final
      have steps := ran.steps
      have within := ran.made_le
      omega
  | some answer =>
      have unchanged : (machine.runFor watched budget).machine = machine :=
        (drive_of_final watched final budget #[]).1
      rw [unchanged]
      omega

end Steps

section Return

variable {watched : Event → Bool} {budget : Nat}

theorem running_of_spent (positive : 0 < budget)
    (spent : (machine.drive watched budget #[]).answer = none) :
    (machine.drive watched budget #[]).machine.state.status = .running ∧
      (machine.drive watched budget #[]).machine.state.steps = machine.state.steps + budget := by
  have going : machine.final? = none := by
    cases final : machine.final? with
    | none => rfl
    | some answer =>
        rw [(drive_of_final watched final budget #[]).2 positive] at spent
        cases spent
  have ran := drive_ran watched budget machine #[] going
  rw [spent] at ran
  obtain ⟨-, steps, ends⟩ := ran
  cases ends with
  | spent exact goesOn status =>
      rw [exact] at steps
      rcases status with running | ⟨nothing, -⟩
      · exact ⟨running, steps⟩
      · omega

/-- A run that answers that the machine is running has used up its budget. -/
theorem steps_of_running (positive : 0 < budget)
    (running : (machine.runFor watched budget).answer = .ok .running) :
    (machine.runFor watched budget).machine.state.steps = machine.state.steps + budget := by
  cases answer : (machine.drive watched budget #[]).answer with
  | none => exact (running_of_spent positive answer).2
  | some ending =>
      rw [runFor_of_stopped watched machine answer] at running
      subst running
      cases stops_of_drive answer

theorem drive_of_stops (positive : 0 < budget)
    (stops : Stops (machine.runFor watched budget).answer) :
    (machine.drive watched budget #[]).answer = some (machine.runFor watched budget).answer := by
  cases answer : (machine.drive watched budget #[]).answer with
  | some ending => rw [runFor_of_stopped watched machine answer]
  | none =>
      rw [runFor_of_spent watched machine answer, (running_of_spent positive answer).1] at stops
      cases stops

theorem drive_unique {first second : Nat} {ending other : Except Fault Status}
    (stopped : (machine.drive watched first #[]).answer = some ending)
    (stoppedToo : (machine.drive watched second #[]).answer = some other) :
    machine.drive watched first #[] = machine.drive watched second #[] := by
  rcases Nat.le_total first second with within | within
  · obtain ⟨more, rfl⟩ := Nat.exists_eq_add_of_le within
    exact (drive_add_of_stopped stopped more).symm
  · obtain ⟨more, rfl⟩ := Nat.exists_eq_add_of_le within
    exact drive_add_of_stopped stoppedToo more

variable {fuel : Nat} {reply : Reply (Except Fault Status)}

theorem run?_eq_some_iff :
    machine.run? watched fuel = some reply ↔
      machine.drive watched fuel #[] = ⟨some reply.answer, reply.machine, reply.log⟩ := by
  obtain ⟨answer, after, log⟩ := reply
  simp only [run?]
  generalize machine.drive watched fuel #[] = driven
  obtain ⟨found, reached, kept⟩ := driven
  cases found with
  | none => simp
  | some ending => simp

theorem run?_of_stops (positive : 0 < budget)
    (stops : Stops (machine.runFor watched budget).answer) :
    machine.run? watched budget = some (machine.runFor watched budget) := by
  rw [run?_eq_some_iff]
  have answer := drive_of_stops positive stops
  rw [← answer]
  rfl

theorem stops_of_run? (returned : machine.run? watched fuel = some reply) :
    0 < fuel ∧ machine.runFor watched fuel = reply ∧ Stops reply.answer := by
  rw [run?_eq_some_iff] at returned
  have stopped : (machine.drive watched fuel #[]).answer = some reply.answer := by rw [returned]
  refine ⟨?_, ?_, stops_of_drive stopped⟩
  · cases fuel with
    | zero => cases stopped
    | succ fuel => exact Nat.succ_pos fuel
  · simp only [runFor, returned, Option.getD_some]

theorem run?_unique {other : Nat} {another : Reply (Except Fault Status)}
    (returned : machine.run? watched fuel = some reply)
    (returnedToo : machine.run? watched other = some another) : reply = another := by
  rw [run?_eq_some_iff] at returned returnedToo
  have same : machine.drive watched fuel #[] = machine.drive watched other #[] :=
    drive_unique (by rw [returned]) (by rw [returnedToo])
  rw [returned, returnedToo] at same
  obtain ⟨answer, after, log⟩ := reply
  obtain ⟨otherAnswer, otherAfter, otherLog⟩ := another
  cases same
  rfl

end Return

/-- What becomes of runs that are cut into slices, and of runs without a budget. -/
structure RunsInSlices (watched : Event → Bool) (machine : Machine) : Prop where
  machines : ∀ first second,
    ((machine.runFor watched first).machine.runFor watched second).machine =
      (machine.runFor watched (first + second)).machine
  answers : ∀ first second, 0 < second →
    ((machine.runFor watched first).machine.runFor watched second).answer =
      (machine.runFor watched (first + second)).answer
  bounded : ∀ budget,
    machine.state.steps ≤ (machine.runFor watched budget).machine.state.steps ∧
      (machine.runFor watched budget).machine.state.steps ≤ machine.state.steps + budget
  exact : ∀ budget, 0 < budget → (machine.runFor watched budget).answer = .ok .running →
    (machine.runFor watched budget).machine.state.steps = machine.state.steps + budget
  returns : (∃ fuel reply, machine.run? watched fuel = some reply) ↔
    ∃ budget, 0 < budget ∧ Stops (machine.runFor watched budget).answer
  same : ∀ budget, 0 < budget → Stops (machine.runFor watched budget).answer →
    ∀ fuel reply, machine.run? watched fuel = some reply → reply = machine.runFor watched budget

/-- Cutting a run into slices changes neither the machine nor the answer, and a run without a
budget is any run that stops within its budget. -/
theorem slicing_transparent (watched : Event → Bool) (machine : Machine) :
    machine.RunsInSlices watched where
  machines first second := (machine.runFor_runFor watched first second).1
  answers first second := (machine.runFor_runFor watched first second).2
  bounded := machine.steps_runFor watched
  exact budget := steps_of_running
  returns := by
    constructor
    · rintro ⟨fuel, reply, returned⟩
      obtain ⟨positive, rfl, stops⟩ := stops_of_run? returned
      exact ⟨fuel, positive, stops⟩
    · rintro ⟨budget, positive, stops⟩
      exact ⟨budget, _, run?_of_stops positive stops⟩
  same budget positive stops fuel reply returned :=
    run?_unique returned (run?_of_stops positive stops)

/-- A machine that lacks an input, met by the first slice and again by the second. -/
theorem slicing_transparent_reader :
    let machine := load .dense 1 [1101, 1, 1, 0, 3, 0, 99]
    let sliced := (machine.runFor (fun _ => true) 2).machine.runFor (fun _ => true) 3
    sliced.answer = .ok .awaitingInput ∧
      (machine.runFor (fun _ => true) 5).answer = .ok .awaitingInput ∧
      sliced.machine = (machine.runFor (fun _ => true) 5).machine ∧
      ∃ fuel reply, machine.run? (fun _ => true) fuel = some reply := by
  intro machine sliced
  have slices := slicing_transparent (fun _ => true) machine
  have waits : sliced.answer = .ok .awaitingInput := rfl
  have whole : (machine.runFor (fun _ => true) 5).answer = .ok .awaitingInput :=
    (slices.answers 2 3 (by decide)).symm.trans waits
  have stops : Stops (machine.runFor (fun _ => true) 5).answer := by
    rw [whole]
    exact .starved
  exact ⟨waits, whole, slices.machines 2 3, slices.returns.mpr ⟨5, by decide, stops⟩⟩

end Intcode.Machine
