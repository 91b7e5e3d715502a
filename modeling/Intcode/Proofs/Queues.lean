import Intcode.Proofs.InputTiming
import Intcode.Proofs.Runs

/-! The queues of a machine over a history of calls.

What was collected and what still waits to be collected are together the outputs of the
completed instructions, in order. What was given is, in the same order, what was taken from the
queue of inputs and what is still in it. Nothing but what was given decides what the steps come
to: not when it was given, and not what was collected in between.
-/

namespace Intcode.Machine

/-- The value that a completed instruction has put out. -/
def emission? : Except Fault Outcome → Option Int
  | .ok (.output value) => some value
  | _ => none

theorem output_after_step (machine : Machine) :
    machine.step.machine.output.toList =
      machine.output.toList ++ (emission? machine.step.answer).toList := by
  cases final : machine.final? with
  | none =>
      have emitted : machine.step.emitted? = emission? machine.step.answer := rfl
      rw [output_step final, emitted]
  | some answer =>
      have silent : emission? answer = none := by
        simp only [final?] at final
        split at final <;> cases final <;> rfl
      rw [step_eq, final]
      simp [silent]

theorem Answer.emission?_result? (result : Except Fault Outcome) :
    (Answer.outcome result).result?.bind emission? = emission? result := by
  cases result with
  | error fault => rfl
  | ok outcome => cases outcome <;> rfl

theorem input_after_step (machine : Machine) :
    ∃ taken, machine.input = taken ++ machine.step.machine.input := by
  by_cases kept : machine.step.machine.input = machine.input
  · exact ⟨[], kept.symm⟩
  · obtain ⟨-, -, -, value, waiting⟩ := taken_of_input_changed kept
    exact ⟨[value], waiting⟩

variable (watched : Event → Bool) (machine : Machine)

theorem output_call {call : Call} (plain : call.isPlain = true) :
    (machine.call watched call).answer.collected ++ (machine.call watched call).machine.output.toList =
      machine.output.toList ++
        ((machine.call watched call).answer.result?.bind emission?).toList := by
  cases call with
  | step =>
      have result := Answer.emission?_result? machine.step.answer
      have output := machine.output_after_step
      simp only [Machine.call, result]
      exact output
  | push value | extend values => exact (List.append_nil _).symm
  | pop =>
      have collected := congrArg Array.toList (collected_append_pop [] machine.output)
      simpa [Machine.call, Machine.pop, Answer.result?] using collected
  | take => rfl
  | runFor budget => contradiction
  | run fuel => contradiction
  | reset => contradiction
  | write address value => contradiction

theorem input_call {call : Call} (plain : call.isPlain = true) :
    ∃ taken, machine.input ++ call.given = taken ++ (machine.call watched call).machine.input := by
  cases call with
  | step =>
      obtain ⟨taken, input⟩ := machine.input_after_step
      exact ⟨taken, (List.append_nil machine.input).trans input⟩
  | push value | extend values => exact ⟨[], rfl⟩
  | pop | take => exact ⟨[], List.append_nil machine.input⟩
  | runFor budget => contradiction
  | run fuel => contradiction
  | reset => contradiction
  | write address value => contradiction

variable {history : List Call}

/-- No output is lost, collected twice or out of order. -/
theorem output_calls (plain : ∀ call ∈ history, call.isPlain = true) :
    (machine.calls watched history).answer.flatMap Answer.collected ++
        (machine.calls watched history).machine.output.toList =
      machine.output.toList ++
        ((machine.calls watched history).answer.filterMap Answer.result?).filterMap emission? := by
  induction history generalizing machine with
  | nil => exact (List.append_nil machine.output.toList).symm
  | cons first rest ih =>
      obtain ⟨plainFirst, plainRest⟩ := List.forall_mem_cons.mp plain
      have now := output_call watched machine plainFirst
      have later := ih (machine.call watched first).machine plainRest
      simp only [Machine.calls, List.flatMap_cons, List.append_assoc, later]
      rw [← List.append_assoc, now, List.append_assoc]
      cases result : (machine.call watched first).answer.result? with
      | none => simp [result]
      | some value => cases emitted : emission? value <;> simp [result, emitted]

theorem input_calls (plain : ∀ call ∈ history, call.isPlain = true) :
    ∃ taken, machine.input ++ history.flatMap Call.given =
      taken ++ (machine.calls watched history).machine.input := by
  induction history generalizing machine with
  | nil => exact ⟨[], List.append_nil machine.input⟩
  | cons first rest ih =>
      obtain ⟨plainFirst, plainRest⟩ := List.forall_mem_cons.mp plain
      obtain ⟨now, takenNow⟩ := input_call watched machine plainFirst
      obtain ⟨later, takenLater⟩ := ih (machine.call watched first).machine plainRest
      refine ⟨now ++ later, ?_⟩
      calc
        machine.input ++ (first :: rest).flatMap Call.given =
            machine.input ++ first.given ++ rest.flatMap Call.given := by
          rw [List.flatMap_cons, List.append_assoc]
        _ = now ++ ((machine.call watched first).machine.input ++ rest.flatMap Call.given) := by
          rw [takenNow, List.append_assoc]
        _ = now ++ later ++ (machine.calls watched (first :: rest)).machine.input := by
          rw [takenLater, List.append_assoc]
          rfl

/-- Neither list contradicts the other: one of them is the first part of the other. -/
def Compatible {α : Type} (left right : List α) : Prop :=
  left <+: right ∨ right <+: left

theorem Compatible.refl {α : Type} (values : List α) : Compatible values values :=
  .inl List.prefix_rfl

theorem Compatible.of_prefixes {α : Type} {left right leftWhole rightWhole : List α}
    (compatible : Compatible leftWhole rightWhole) (first : left <+: leftWhole) (second : right <+: rightWhole) :
    Compatible left right := by
  rcases compatible with shorter | longer
  · exact List.prefix_or_prefix_of_prefix (first.trans shorter) second
  · exact List.prefix_or_prefix_of_prefix first (second.trans longer)

theorem Compatible.outputs {left right : List (Except Fault Outcome)}
    (compatible : Compatible left right) (before : List Int) :
    Compatible (before ++ left.filterMap emission?)
      (before ++ right.filterMap emission?) := by
  rcases compatible with shorter | longer
  · exact .inl ((List.prefix_append_right_inj before).mpr (shorter.filterMap _))
  · exact .inr ((List.prefix_append_right_inj before).mpr (longer.filterMap _))

theorem ahead_extend (machine : Machine) (inputs : List Int) :
    Ahead [] inputs machine (machine.extend inputs) := by
  have same : machine.extend inputs = machine.framed [] inputs := by
    simp [Machine.extend, framed]
  rw [same]
  exact machine.framed_awake [] inputs

variable {left right : List Call}

/-- Histories whose inputs are compatible follow one machine that has all inputs from the start. -/
theorem exists_eager (given : Compatible (left.flatMap Call.given) (right.flatMap Call.given)) :
    ∃ eager leftWaiting rightWaiting,
      Ahead [] (left.flatMap Call.given ++ leftWaiting) machine eager ∧
        Ahead [] (right.flatMap Call.given ++ rightWaiting) machine eager := by
  rcases given with ⟨waiting, whole⟩ | ⟨waiting, whole⟩
  · refine ⟨machine.extend (right.flatMap Call.given), waiting, [], ?_, ?_⟩
    · rw [whole]
      exact machine.ahead_extend _
    · rw [List.append_nil]
      exact machine.ahead_extend _
  · refine ⟨machine.extend (left.flatMap Call.given), [], waiting, ?_, ?_⟩
    · rw [List.append_nil]
      exact machine.ahead_extend _
    · rw [whole]
      exact machine.ahead_extend _

theorem answers_prefix_of_le {fewer more : Nat} (le : fewer ≤ more) :
    (machine.calls watched (List.replicate fewer .step)).answer <+:
      (machine.calls watched (List.replicate more .step)).answer := by
  obtain ⟨rest, rfl⟩ := Nat.exists_eq_add_of_le le
  rw [← List.replicate_append_replicate, (calls_append watched machine _ _).1]
  exact List.prefix_append _ _

theorem prefix_of_outcomes {left right : List (Except Fault Outcome)}
    (outcomes : left.map Answer.outcome <+: right.map Answer.outcome) : left <+: right := by
  obtain ⟨first, within, same⟩ := List.prefix_map_iff.mp outcomes
  rw [(List.map_inj_right fun _ _ => Answer.outcome.inj).mp same]
  exact within

/-- The machines have the same history, up to what was collected from each. -/
structure Coincide (leftCollected rightCollected : List Int) (left right : Machine) : Prop where
  memory : left.state.memory = right.state.memory
  base : left.state.base = right.state.base
  ip : left.state.ip = right.state.ip
  steps : left.state.steps = right.state.steps
  fault : left.state.fault = right.state.fault
  output : leftCollected ++ left.output.toList = rightCollected ++ right.output.toList

theorem Abreast.coincide {leftCollected rightCollected leftWaiting rightWaiting : List Int}
    {left right eager : Machine} (first : Abreast leftCollected leftWaiting left eager)
    (second : Abreast rightCollected rightWaiting right eager) :
    Coincide leftCollected rightCollected left right where
  memory := first.memory.symm.trans second.memory
  base := first.base.symm.trans second.base
  ip := first.ip.symm.trans second.ip
  steps := first.steps.symm.trans second.steps
  fault := first.fault.symm.trans second.fault
  output := first.output.symm.trans second.output

section Given

variable (plainLeft : ∀ call ∈ left, call.isPlain = true)
  (plainRight : ∀ call ∈ right, call.isPlain = true)
  (given : Compatible (left.flatMap Call.given) (right.flatMap Call.given))

include plainLeft plainRight given

/-- What a machine has been given decides what it does, however it was given. -/
theorem compatible_of_given :
    Compatible ((machine.calls watched left).answer.filterMap Answer.result?)
      ((machine.calls watched right).answer.filterMap Answer.result?) := by
  obtain ⟨eager, _, _, aheadOfLeft, aheadOfRight⟩ := machine.exists_eager given
  obtain ⟨leftAnswers, -⟩ := aheadOfLeft.calls watched plainLeft
  obtain ⟨rightAnswers, -⟩ := aheadOfRight.calls watched plainRight
  rcases Nat.le_total ((machine.calls watched left).answer.filterMap Answer.result?).length
      ((machine.calls watched right).answer.filterMap Answer.result?).length with fewer | more
  · have answers := eager.answers_prefix_of_le watched fewer
    rw [leftAnswers, rightAnswers] at answers
    exact .inl (prefix_of_outcomes answers)
  · have answers := eager.answers_prefix_of_le watched more
    rw [leftAnswers, rightAnswers] at answers
    exact .inr (prefix_of_outcomes answers)

theorem coincide_of_given
    (equally : ((machine.calls watched left).answer.filterMap Answer.result?).length =
      ((machine.calls watched right).answer.filterMap Answer.result?).length) :
    Coincide ((machine.calls watched left).answer.flatMap Answer.collected)
      ((machine.calls watched right).answer.flatMap Answer.collected)
      (machine.calls watched left).machine (machine.calls watched right).machine := by
  obtain ⟨eager, _, _, aheadOfLeft, aheadOfRight⟩ := machine.exists_eager given
  have leftAbreast := (aheadOfLeft.calls watched plainLeft).2.abreast
  have rightAbreast := (aheadOfRight.calls watched plainRight).2.abreast
  -- As many results are as many steps of the eager machine, so it is the same one.
  rw [equally] at leftAbreast
  exact leftAbreast.coincide rightAbreast

end Given

end Intcode.Machine
