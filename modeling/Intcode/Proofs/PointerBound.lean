import Mathlib.Algebra.Group.Nat.Defs
import Intcode.Proofs.Resets

/-! The instruction pointer of a machine with contiguous memory.

A jump may go to any address, so the pointer itself is not bounded. But what stands beyond the
end of an array reads as zero, and zero is no instruction: an instruction that is executed
begins inside the array. The array never outgrows the program and `Store.Dense.limit`, so the
instructions end far below the last address and the pointer never runs over it.
-/

namespace Intcode

/-- An array that has not outgrown both a program of the given length and the limit. -/
structure Store.Within (length : Nat) (memory : Store) : Prop where
  dense : memory.kind = .dense
  bounded : memory.length ≤ max length Store.Dense.limit

theorem Store.Within.put {length : Nat} {memory : Store} (within : memory.Within length)
    {address : Nat} (accepted : memory.accepts address = true) (value : Int) :
    (memory.put address value).Within length where
  dense := (Store.kind_put memory address value).trans within.dense
  bounded := by
    have grown := Store.length_put_le within.dense accepted value
    have bounded := within.bounded
    omega

theorem Table.arity_le (number : Int) : Table.arity number ≤ 3 := by
  unfold Table.arity
  split <;> decide

namespace View

variable {view : View}

theorem head_ne_zero (known : view.opcodeFault? = none) : view.head ≠ 0 := by
  intro zero
  have member := number_mem known
  rw [number, zero] at member
  exact absurd member (by decide)

theorem known_of_pointerOverflow (decided : firstFault? view.checks = some .pointerOverflow) :
    view.opcodeFault? = none := by
  cases unknown : view.opcodeFault? with
  | none => rfl
  | some fault =>
      simp only [checks, firstFault?_append, firstFault?_cons, unknown, Option.some_or] at decided
      cases decided
      simp only [opcodeFault?] at unknown
      split at unknown <;> cases unknown

end View

namespace Machine

variable {machine : Machine} {fault : Fault} (watched : Event → Bool)

theorem ip_lt_length (dense : machine.state.memory.kind = .dense)
    (known : machine.view.opcodeFault? = none) :
    machine.state.ip < machine.state.memory.length := by
  apply Nat.lt_of_not_le
  intro beyond
  exact View.head_ne_zero known (Store.read_of_length_le dense beyond)

/-- The instruction whose step runs over the last address is one of the set, and reaches up
to that address. -/
theorem reaches_last_of_pointerOverflow (going : machine.final? = none)
    (failed : machine.step.answer = .error .pointerOverflow) :
    machine.view.opcodeFault? = none ∧
      Address.last ≤ machine.state.ip + Table.arity machine.view.number := by
  rcases failure_cases going failed with
    ⟨decided, -⟩ | ⟨-, refused, -⟩ | ⟨decided, -, advanced, -⟩
  · have beyond := View.beyond_of_pointerOverflow (mem_of_firstFault? decided)
    exact ⟨View.known_of_pointerOverflow decided, Nat.le_of_lt beyond⟩
  · simp only [storageFault?] at refused
    split at refused
    · split at refused <;> cases refused
    · contradiction
  · obtain ⟨known, -⟩ := View.clear_checks decided
    obtain ⟨-, atLast⟩ := overruns_of_advanceFault? decided advanced
    exact ⟨known, Nat.le_of_eq atLast.symm⟩

theorem recorded_of_failed (failed : machine.step.answer = .error fault) :
    machine.step.machine.state.fault = some fault := by
  cases final : machine.final? with
  | none => exact (records_fault final failed).fault
  | some answer =>
      rw [step_eq, final] at failed ⊢
      simp only [final?] at final
      split at final <;> cases final <;> cases failed
      assumption

theorem recorded_of_drive {budget : Nat} {kept : Array Event}
    (failed : (machine.drive watched budget kept).answer = some (.error fault)) :
    (machine.drive watched budget kept).machine.state.fault = some fault := by
  induction budget generalizing machine kept with
  | zero => cases failed
  | succ budget ih =>
      cases stops : machine.step.stop? with
      | none =>
          rw [drive_of_goes watched stops] at failed ⊢
          exact ih failed
      | some ending =>
          rw [drive_of_stop watched stops] at failed ⊢
          cases failed
          apply recorded_of_failed
          unfold Reply.stop? at stops
          split at stops <;> cases stops
          assumption

/-- A fault that is answered is on the machine afterwards. -/
theorem recorded_of_answer {call : Call}
    (answered : (machine.call watched call).answer.fault? = some fault) :
    (machine.call watched call).machine.state.fault = some fault := by
  cases call with
  | step => exact recorded_of_failed (Answer.fault?_outcome.mp answered)
  | runFor budget =>
      apply recorded_of_drive watched
      simp only [Machine.call, runFor, Answer.fault?_status] at answered
      cases answer : (machine.drive watched budget #[]).answer with
      | none =>
          rw [answer] at answered
          cases answered
      | some ending =>
          rw [answer, Option.getD_some] at answered
          rw [answered]
  | run fuel =>
      apply recorded_of_drive watched
      simp only [Machine.call] at answered
      cases answer : (machine.drive watched fuel #[]).answer with
      | none =>
          rw [answer] at answered
          cases answered
      | some ending =>
          rw [answer, Option.elim_some, Answer.fault?_status] at answered
          rw [answered]
  | push value | extend values | pop | take | reset | write address value => cases answered

/-- A machine that was loaded with the program, whose array has not outgrown it and the limit. -/
structure Confined (id : Nat) (program : List Int) (machine : Machine) : Prop where
  loaded : machine.LoadedFrom .dense id program
  memory : machine.state.memory.Within program.length
  sound : machine.state.fault ≠ some .pointerOverflow

variable {id : Nat} {program : List Int}

theorem confined_load (id : Nat) (program : List Int) :
    (load .dense id program).Confined id program where
  loaded := ⟨rfl, rfl, rfl⟩
  memory := by
    refine ⟨Store.kind_ofCells .dense program, ?_⟩
    exact Nat.le_trans (Nat.le_of_eq (Store.length_ofCells_dense program)) (Nat.le_max_left _ _)
  sound := nofun

theorem Confined.answer_step (confined : machine.Confined id program)
    (short : program.length ≤ 2 ^ 63) : machine.step.answer ≠ .error .pointerOverflow := by
  intro failed
  cases final : machine.final? with
  | some answer =>
      have recorded := recorded_of_failed failed
      rw [machine_step_of_final final] at recorded
      exact confined.sound recorded
  | none =>
      obtain ⟨known, reaches⟩ := reaches_last_of_pointerOverflow final failed
      have inside := ip_lt_length confined.memory.dense known
      have bounded := confined.memory.bounded
      have arity := Table.arity_le machine.view.number
      have last : Address.last = 2 ^ 64 - 1 := rfl
      have limit : Store.Dense.limit = 2 ^ 24 := rfl
      omega

theorem Confined.step (confined : machine.Confined id program)
    (short : program.length ≤ 2 ^ 63) : machine.step.machine.Confined id program where
  loaded := confined.loaded.step
  memory := by
    rcases machine.memory_step with same | ⟨address, value, accepted, put⟩
    · rw [same]
      exact confined.memory
    · rw [put]
      exact confined.memory.put accepted value
  sound := by
    cases final : machine.final? with
    | some answer =>
        rw [machine_step_of_final final]
        exact confined.sound
    | none =>
        rcases step_result final with ⟨fault, answer, recorded⟩ | ⟨width, action, -, after⟩
        · rw [recorded.fault]
          intro same
          cases same
          exact confined.answer_step short answer
        · rw [after]
          exact confined.sound

theorem Confined.write (confined : machine.Confined id program) (address : Nat) (value : Int) :
    (machine.write address value).2.Confined id program := by
  refine ⟨confined.loaded.write address value, ?_, ?_⟩ <;> unfold Machine.write <;> split
  · obtain ⟨accepted, rfl⟩ := Store.accepts_of_write ‹_›
    exact confined.memory.put accepted value
  · exact confined.memory
  · exact confined.sound
  · exact confined.sound

theorem Confined.call (confined : machine.Confined id program) (short : program.length ≤ 2 ^ 63)
    (call : Call) : (machine.call watched call).machine.Confined id program := by
  have kept : ∀ machine : Machine, machine.Confined id program →
      machine.step.machine.Confined id program := fun _ confined => confined.step short
  cases call with
  | step => exact confined.step short
  | runFor budget => exact drive_invariant kept watched budget #[] confined
  | run fuel => exact drive_invariant kept watched fuel #[] confined
  | push value | extend values | pop | take =>
      exact ⟨confined.loaded.call watched _, confined.memory, confined.sound⟩
  | reset =>
      have fresh : (machine.call watched .reset).machine = load .dense id program :=
        confined.loaded.reset
      rw [fresh]
      exact confined_load id program
  | write address value => exact confined.write address value

/-- Whatever is asked of a machine with contiguous memory, and wherever its program jumps to,
its array does not outgrow the program and the limit, and its instruction pointer does not run
over the last address. -/
theorem dense_pointer_never_overflows (id : Nat) {program : List Int}
    (short : program.length ≤ 2 ^ 63) (history : List Call) :
    let reply := (load .dense id program).calls watched history
    reply.machine.state.memory.length ≤ max program.length Store.Dense.limit ∧
      reply.machine.step.answer ≠ .error .pointerOverflow ∧
      ∀ answer ∈ reply.answer, answer.fault? ≠ some .pointerOverflow := by
  intro reply
  have start := confined_load id program
  have confined : reply.machine.Confined id program :=
    calls_invariant (fun call _ _ confined => confined.call watched short call) start
  have kept : ∀ call ∈ history, ∀ machine : Machine, machine.Confined id program →
      (machine.call watched call).machine.Confined id program ∧
        (machine.call watched call).answer.fault? ≠ some .pointerOverflow := by
    intro call _ machine confined
    have next := confined.call watched short call
    exact ⟨next, fun answered => next.sound (recorded_of_answer watched answered)⟩
  exact ⟨confined.memory.bounded, confined.answer_step short, calls_answer_invariant kept start⟩

/-- A jump to the last address, where there is no instruction. -/
theorem dense_pointer_never_overflows_far_jump :
    let program : List Int := [1106, 0, 18446744073709551615]
    let jumped := ((load .dense 1 program).calls (fun _ => true) [.step]).machine
    program.length ≤ 2 ^ 63 ∧ jumped.state.ip = Address.last ∧
      jumped.step.answer = .error (.unknownOpcode 0 Address.last) ∧
      jumped.step.answer ≠ .error .pointerOverflow := by
  intro program jumped
  have short : program.length ≤ 2 ^ 63 := by decide
  exact ⟨short, rfl, rfl,
    (dense_pointer_never_overflows (fun _ => true) 1 short [.step]).2.1⟩

end Machine

end Intcode
