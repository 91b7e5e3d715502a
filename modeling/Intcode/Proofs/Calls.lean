import Intcode.Machine.Call

/-! Histories of calls: which calls a machine is given, what they bring and what they
collect. -/

namespace Intcode.Machine

/-- The calls that execute single instructions, give inputs and collect outputs. -/
def Call.isPlain : Call → Bool
  | .step | .push _ | .extend _ | .pop | .take => true
  | .runFor _ | .run _ | .reset | .write _ _ => false

def Call.given : Call → List Int
  | .push value => [value]
  | .extend values => values
  | _ => []

def Answer.collected : Answer → List Int
  | .value (some output) => [output]
  | .values outputs => outputs
  | _ => []

/-- What a step has come to, unless it has to be taken again. -/
def Answer.result? : Answer → Option (Except Fault Outcome)
  | .outcome (.ok .awaitingInput) => none
  | .outcome result => some result
  | _ => none

/-- The fault that an answer reports. -/
def Answer.fault? : Answer → Option Fault
  | .outcome (.error fault) | .status (.error fault) => some fault
  | _ => none

theorem Answer.result?_outcome {result : Except Fault Outcome}
    (completed : result ≠ .ok .awaitingInput) : (Answer.outcome result).result? = some result := by
  cases result with
  | error fault => rfl
  | ok outcome =>
      cases outcome with
      | awaitingInput => contradiction
      | _ => rfl

@[simp] theorem Answer.fault?_outcome {result : Except Fault Outcome} {fault : Fault} :
    (Answer.outcome result).fault? = some fault ↔ result = .error fault := by
  cases result <;> simp [fault?]

@[simp] theorem Answer.fault?_status {result : Except Fault Status} {fault : Fault} :
    (Answer.status result).fault? = some fault ↔ result = .error fault := by
  cases result <;> simp [fault?]

theorem calls_invariant {holds : Machine → Prop} {watched : Event → Bool} {history : List Call}
    (kept : ∀ call ∈ history, ∀ machine, holds machine → holds (machine.call watched call).machine)
    {machine : Machine} (start : holds machine) : holds (machine.calls watched history).machine := by
  induction history generalizing machine with
  | nil => exact start
  | cons first rest ih =>
      have next := kept first List.mem_cons_self machine start
      exact ih (fun call member => kept call (List.mem_cons_of_mem first member)) next

theorem calls_answer_invariant {holds : Machine → Prop} {fitting : Answer → Prop}
    {watched : Event → Bool} {history : List Call}
    (kept : ∀ call ∈ history, ∀ machine, holds machine →
      holds (machine.call watched call).machine ∧ fitting (machine.call watched call).answer)
    {machine : Machine} (start : holds machine) :
    ∀ answer ∈ (machine.calls watched history).answer, fitting answer := by
  induction history generalizing machine with
  | nil => exact nofun
  | cons first rest ih =>
      obtain ⟨next, said⟩ := kept first List.mem_cons_self machine start
      have later := ih (fun call member => kept call (List.mem_cons_of_mem first member)) next
      exact List.forall_mem_cons.mpr ⟨said, later⟩

theorem calls_append (watched : Event → Bool) (machine : Machine) (first second : List Call) :
    (machine.calls watched (first ++ second)).answer =
        (machine.calls watched first).answer ++
          ((machine.calls watched first).machine.calls watched second).answer ∧
      (machine.calls watched (first ++ second)).machine =
        ((machine.calls watched first).machine.calls watched second).machine := by
  induction first generalizing machine with
  | nil => exact ⟨rfl, rfl⟩
  | cons call rest ih =>
      obtain ⟨answer, reached⟩ := ih (machine.call watched call).machine
      exact ⟨congrArg _ answer, reached⟩

theorem collected_append_pop (before : List Int) (output : Array Int) :
    (before ++ (Answer.value output[0]?).collected).toArray ++ output.extract 1 =
      before.toArray ++ output := by
  obtain ⟨outputs⟩ := output
  cases outputs with
  | nil => simp [Answer.collected]
  | cons first rest => simp [Answer.collected]

end Intcode.Machine
