import Intcode.Machine.Run
import Intcode.Proofs.FailedSteps

/-! Runs, step by step.

`Machine.trace` lists the replies to the single steps of a run. `Machine.drive_ran` says what
the run has come to in terms of them: the values they put out are in the queue, those that
complete an instruction are counted, and the ending tells how many that were.
-/

namespace Intcode.Machine

namespace Reply

/-- The value that the instruction has put out, if it was completed. -/
def emitted? (reply : Reply (Except Fault Outcome)) : Option Int :=
  match reply.answer with
  | .ok (.output value) => some value
  | _ => none

/-- Whether a machine that was going has completed an instruction. -/
def completes (reply : Reply (Except Fault Outcome)) : Bool :=
  match reply.answer with
  | .ok .awaitingInput | .error _ => false
  | .ok _ => true

/-- The program has neither halted nor failed. -/
def GoesOn (reply : Reply (Except Fault Outcome)) : Prop :=
  reply.answer ≠ .ok .halted ∧ ∀ fault, reply.answer ≠ .error fault

/-- How a run stops after the step, if it does. -/
def stop? (reply : Reply (Except Fault Outcome)) : Option (Except Fault Status) :=
  match reply.answer with
  | .error fault => some (.error fault)
  | .ok .halted => some (.ok .halted)
  | .ok .awaitingInput => some (.ok .awaitingInput)
  | .ok .executed | .ok (.output _) => none

variable {reply : Reply (Except Fault Outcome)}

theorem answer_of_goes (continues : reply.stop? = none) :
    reply.answer = .ok .executed ∨ ∃ value, reply.answer = .ok (.output value) := by
  unfold stop? at continues
  split at continues
  · cases continues
  · cases continues
  · cases continues
  · exact .inl ‹_›
  · exact .inr ⟨_, ‹_›⟩

theorem completes_of_goes (continues : reply.stop? = none) :
    reply.completes = true ∧ reply.GoesOn := by
  unfold completes GoesOn
  rcases answer_of_goes continues with answer | ⟨value, answer⟩
  · rw [answer]
    exact ⟨rfl, nofun, nofun⟩
  · rw [answer]
    exact ⟨rfl, nofun, nofun⟩

end Reply

/-- The status that an answer to a step goes with. -/
def reached : Except Fault Outcome → Status
  | .error _ => .faulted
  | .ok .halted => .halted
  | .ok .awaitingInput => .awaitingInput
  | .ok .executed | .ok (.output _) => .running

variable {machine : Machine}

theorem step_result (going : machine.final? = none) :
    (∃ fault, machine.step.answer = .error fault ∧
        machine.RecordsFault fault machine.step.machine) ∨
      ∃ width action, machine.step.answer = .ok action.outcome ∧
        machine.step.machine = machine.running.after width action := by
  cases answer : machine.step.answer with
  | error fault => exact .inl ⟨fault, rfl, records_fault going answer⟩
  | ok outcome =>
      cases decided : firstFault? machine.view.checks with
      | some fault =>
          rw [step_of_fault going decided] at answer
          cases answer
      | none =>
          rw [step_of_action going decided] at answer ⊢
          rw [answer_enact, guarded_eq_ok_iff, Option.or_eq_none_iff] at answer
          obtain ⟨⟨accepted, advanced⟩, rfl⟩ := answer
          exact .inr ⟨_, _, rfl, machine_enact _ _ _ accepted advanced⟩

section Step

variable (going : machine.final? = none)
include going

theorem status_step : machine.step.machine.state.status = reached machine.step.answer := by
  rcases step_result going with ⟨fault, answer, recorded⟩ | ⟨width, action, answer, after⟩
  · rw [answer]
    exact recorded.status
  · rw [answer, after]
    cases action <;> rfl

theorem steps_step :
    machine.step.machine.state.steps = machine.state.steps + machine.step.completes.toNat := by
  unfold Reply.completes
  rcases step_result going with ⟨fault, answer, recorded⟩ | ⟨width, action, answer, after⟩
  · rw [answer]
    exact recorded.steps
  · rw [answer, after]
    cases action <;> rfl

theorem output_step :
    machine.step.machine.output.toList = machine.output.toList ++ machine.step.emitted?.toList := by
  unfold Reply.emitted?
  rcases step_result going with ⟨fault, answer, recorded⟩ | ⟨width, action, answer, after⟩
  · rw [answer, recorded.output]
    exact (List.append_nil _).symm
  · rw [answer, after]
    cases action with
    | emit value => exact Array.toList_push
    | _ => exact (List.append_nil _).symm

theorem running_step (continues : machine.step.stop? = none) :
    machine.step.machine.state.status = .running := by
  rw [status_step going]
  rcases Reply.answer_of_goes continues with answer | ⟨value, answer⟩
  · rw [answer]
    rfl
  · rw [answer]
    rfl

theorem going_step (continues : machine.step.stop? = none) :
    machine.step.machine.final? = none := by
  apply final?_of_not_terminated
  rw [State.isTerminated, running_step going continues]
  rfl

end Step

theorem trace_of_stop {ending : Except Fault Status} (stopped : machine.step.stop? = some ending)
    (budget : Nat) : machine.trace (budget + 1) = [machine.step] := by
  unfold Reply.stop? at stopped
  rw [trace]
  split at stopped <;> simp_all

theorem trace_of_goes (continues : machine.step.stop? = none) (budget : Nat) :
    machine.trace (budget + 1) = machine.step :: machine.step.machine.trace budget := by
  unfold Reply.stop? at continues
  rw [trace]
  split at continues <;> simp_all

theorem drive_of_stop (watched : Event → Bool) {ending : Except Fault Status}
    (stopped : machine.step.stop? = some ending) (budget : Nat) (kept : Array Event) :
    machine.drive watched (budget + 1) kept =
      ⟨some ending, machine.step.machine, (kept ++ machine.step.log.filter watched).toList⟩ := by
  unfold Reply.stop? at stopped
  rw [drive]
  split at stopped <;> simp_all

theorem drive_of_goes (watched : Event → Bool) (continues : machine.step.stop? = none)
    (budget : Nat) (kept : Array Event) :
    machine.drive watched (budget + 1) kept =
      machine.step.machine.drive watched budget (kept ++ machine.step.log.filter watched) := by
  unfold Reply.stop? at continues
  rw [drive]
  split at continues <;> simp_all

/-- What every step keeps, a run keeps. -/
theorem drive_invariant {holds : Machine → Prop}
    (kept : ∀ machine, holds machine → holds machine.step.machine) (watched : Event → Bool)
    (budget : Nat) (events : Array Event) (start : holds machine) :
    holds (machine.drive watched budget events).machine := by
  induction budget generalizing machine events with
  | zero => exact start
  | succ budget ih =>
      cases stopped : machine.step.stop? with
      | some ending =>
          rw [drive_of_stop watched stopped]
          exact kept machine start
      | none =>
          rw [drive_of_goes watched stopped]
          exact ih _ (kept machine start)

/-- The number of instructions that a run completes. -/
def made (machine : Machine) (budget : Nat) : Nat :=
  (machine.trace budget).countP Reply.completes

/-- The values that the completed instructions of a run put out, in order. -/
def emissions (machine : Machine) (budget : Nat) : List Int :=
  (machine.trace budget).filterMap Reply.emitted?

/-- What the ending of a run says of its steps. -/
inductive Ends (budget : Nat) (before after : Machine) : Option (Except Fault Status) → Prop where
  | failed {fault : Fault} (short : before.made budget < budget)
      (reported : ∃ reply ∈ before.trace budget, reply.answer = .error fault) :
      Ends budget before after (some (.error fault))
  | halted (within : before.made budget ≤ budget)
      (reported : ∃ reply ∈ before.trace budget, reply.answer = .ok .halted) :
      Ends budget before after (some (.ok .halted))
  | starved (short : before.made budget < budget)
      (goesOn : ∀ reply ∈ before.trace budget, reply.GoesOn)
      (status : after.state.status = .awaitingInput) :
      Ends budget before after (some (.ok .awaitingInput))
  | spent (exact : before.made budget = budget)
      (goesOn : ∀ reply ∈ before.trace budget, reply.GoesOn)
      (status : after.state.status = .running ∨ budget = 0 ∧ after = before) :
      Ends budget before after none

structure Ran (budget : Nat) (before : Machine) (ending : Option (Except Fault Status))
    (after : Machine) : Prop where
  output : after.output.toList = before.output.toList ++ before.emissions budget
  steps : after.state.steps = before.state.steps + before.made budget
  ends : Ends budget before after ending

theorem Ran.made_le {budget : Nat} {before after : Machine} {ending : Option (Except Fault Status)}
    (ran : before.Ran budget ending after) : before.made budget ≤ budget := by
  rcases ran.ends with ⟨short, -⟩ | ⟨within, -⟩ | ⟨short, -, -⟩ | ⟨exact, -, -⟩ <;> omega

theorem ran_of_stop {ending : Except Fault Status} (going : machine.final? = none)
    (stopped : machine.step.stop? = some ending) (budget : Nat) :
    machine.Ran (budget + 1) (some ending) machine.step.machine := by
  have trace := trace_of_stop stopped budget
  have made : machine.made (budget + 1) = machine.step.completes.toNat := by
    rw [Machine.made, trace]
    cases counted : machine.step.completes <;> simp [counted]
  have status := status_step going
  refine ⟨?_, ?_, ?_⟩
  · rw [output_step going, emissions, trace]
    cases emitted : machine.step.emitted? <;> simp [emitted]
  · rw [steps_step going, made]
  · unfold Reply.stop? at stopped
    unfold Reply.completes at made
    split at stopped <;> rename_i answer <;> cases stopped <;> rw [answer] at made status
    · refine .failed ?_ ⟨machine.step, ?_, answer⟩
      · rw [made]
        exact Nat.succ_pos budget
      · rw [trace]
        exact List.mem_singleton_self _
    · refine .halted ?_ ⟨machine.step, ?_, answer⟩
      · rw [made]
        exact Nat.succ_le_succ (Nat.zero_le budget)
      · rw [trace]
        exact List.mem_singleton_self _
    · refine .starved ?_ ?_ status
      · rw [made]
        exact Nat.succ_pos budget
      · intro reply member
        rw [trace, List.mem_singleton] at member
        subst member
        rw [Reply.GoesOn, answer]
        exact ⟨nofun, nofun⟩

theorem Ran.cons {budget : Nat} {ending : Option (Except Fault Status)} {after : Machine}
    (going : machine.final? = none) (continues : machine.step.stop? = none)
    (rest : machine.step.machine.Ran budget ending after) : machine.Ran (budget + 1) ending after := by
  obtain ⟨completes, goesOn⟩ := Reply.completes_of_goes continues
  have trace := trace_of_goes continues budget
  have made : machine.made (budget + 1) = machine.step.machine.made budget + 1 := by
    rw [Machine.made, trace, List.countP_cons_of_pos completes, Machine.made]
  have allGoOn : (∀ reply ∈ machine.step.machine.trace budget, reply.GoesOn) →
      ∀ reply ∈ machine.trace (budget + 1), reply.GoesOn := by
    intro later reply member
    rw [trace, List.mem_cons] at member
    rcases member with rfl | member
    · exact goesOn
    · exact later reply member
  obtain ⟨output, steps, ends⟩ := rest
  refine ⟨?_, ?_, ?_⟩
  · rw [output, output_step going, emissions, emissions, trace, List.append_assoc]
    cases emitted : machine.step.emitted? <;> simp [emitted]
  · rw [steps, steps_step going, completes, made, Bool.toNat_true]
    omega
  · cases ends with
    | failed short reported =>
        obtain ⟨reply, member, answer⟩ := reported
        exact .failed (by omega) ⟨reply, trace ▸ List.mem_cons_of_mem _ member, answer⟩
    | halted within reported =>
        obtain ⟨reply, member, answer⟩ := reported
        exact .halted (by omega) ⟨reply, trace ▸ List.mem_cons_of_mem _ member, answer⟩
    | starved short later status => exact .starved (by omega) (allGoOn later) status
    | spent exact later status =>
        refine .spent (by omega) (allGoOn later) (.inl ?_)
        rcases status with running | ⟨-, same⟩
        · exact running
        · rw [same]
          exact running_step going continues

theorem drive_ran (watched : Event → Bool) (budget : Nat) (machine : Machine) (kept : Array Event)
    (going : machine.final? = none) :
    machine.Ran budget (machine.drive watched budget kept).answer
      (machine.drive watched budget kept).machine := by
  -- On the budget: the run is a step and then the run with one step less.
  induction budget generalizing machine kept with
  | zero =>
      refine ⟨(List.append_nil _).symm, rfl, .spent rfl ?_ (.inr ⟨rfl, rfl⟩)⟩
      intro reply member
      contradiction
  | succ budget ih =>
      cases stopped : machine.step.stop? with
      | some ending =>
          rw [drive_of_stop watched stopped]
          exact ran_of_stop going stopped budget
      | none =>
          rw [drive_of_goes watched stopped]
          exact (ih _ _ (going_step going stopped)).cons going stopped

theorem runFor_ran (watched : Event → Bool) (budget : Nat) (machine : Machine)
    (going : machine.final? = none) :
    ∃ ending, machine.Ran budget ending (machine.runFor watched budget).machine ∧
      (machine.runFor watched budget).answer =
        ending.getD (.ok (machine.runFor watched budget).machine.state.status) :=
  ⟨_, drive_ran watched budget machine #[] going, rfl⟩

end Intcode.Machine
