import Intcode.Proofs.Calls
import Intcode.Proofs.Completion

/-! Machines with different memories, side by side.

An instruction sees a memory only through what it reads, so machines that read alike take
the same decisions. They part company only where one memory accepts an address that the
other refuses. For a contiguous and a sparse memory that was loaded with the same program,
this is a store beyond the program and beyond `Store.Dense.limit`.
-/

namespace Intcode

namespace Machine

/-- Nothing but the representation of the memory tells the machines apart. -/
structure Agree (left right : Machine) : Prop where
  memory : ∀ address, left.state.memory.read address = right.state.memory.read address
  base : left.state.base = right.state.base
  ip : left.state.ip = right.state.ip
  status : left.state.status = right.state.status
  fault : left.state.fault = right.state.fault
  steps : left.state.steps = right.state.steps
  input : left.input = right.input
  output : left.output = right.output

def Reply.Alike {α : Type} (left right : Reply α) : Prop :=
  left.answer = right.answer ∧ Agree left.machine right.machine

variable {left right : Machine}

theorem Agree.view (agree : Agree left right) : left.view = right.view := by
  simp only [Machine.view, State.view, funext agree.memory, agree.base, agree.ip, agree.input]

theorem Agree.final? (agree : Agree left right) : left.final? = right.final? := by
  simp only [Machine.final?, agree.status, agree.fault]

theorem Agree.running (agree : Agree left right) : Agree left.running right.running :=
  ⟨agree.memory, agree.base, agree.ip, rfl, agree.fault, agree.steps, agree.input, agree.output⟩

theorem Agree.fail (agree : Agree left right) (log : List Event) (fault : Fault) :
    (left.fail log fault).Alike (right.fail log fault) :=
  ⟨rfl, agree.memory, agree.base, agree.ip, rfl, rfl, agree.steps, agree.input, agree.output⟩

theorem refusal?_congr {action : Action}
    (accepts : ∀ address, action.address? = some address →
      left.state.memory.accepts address = right.state.memory.accepts address) :
    left.refusal? action = right.refusal? action := by
  unfold Machine.refusal?
  cases stores : action.address? with
  | none => rfl
  | some address => simp only [accepts address stores]

theorem Agree.consume (agree : Agree left right) (action : Action) :
    Agree { left with input := action.consumed left.input }
      { right with input := action.consumed right.input } :=
  ⟨agree.memory, agree.base, agree.ip, agree.status, agree.fault, agree.steps,
    congrArg action.consumed agree.input, agree.output⟩

theorem Agree.read_stored (agree : Agree left right) (action : Action) (address : Nat) :
    (action.stored left.state.memory).read address =
      (action.stored right.state.memory).read address := by
  cases action with
  | store place value | receive place value =>
      simp only [Action.stored, Store.read_put, agree.memory]
  | _ => exact agree.memory address

theorem Agree.changed (agree : Agree left right) (action : Action) :
    Agree (left.changed action) (right.changed action) where
  memory := agree.read_stored action
  base := congrArg action.rebased agree.base
  ip := agree.ip
  status := agree.status
  fault := agree.fault
  steps := agree.steps
  input := congrArg action.consumed agree.input
  output := agree.output

theorem Agree.after (agree : Agree left right) (width : Nat) (action : Action) :
    Agree (left.after width action) (right.after width action) where
  memory := agree.read_stored action
  base := congrArg action.rebased agree.base
  ip := congrArg (action.moved width) agree.ip
  status := congrArg action.entered agree.status
  fault := agree.fault
  steps := congrArg action.counted agree.steps
  input := congrArg action.consumed agree.input
  output := congrArg action.emitted agree.output

theorem Agree.enact (agree : Agree left right) (log : List Event) (width : Nat) {action : Action}
    (accepts : ∀ address, action.address? = some address →
      left.state.memory.accepts address = right.state.memory.accepts address) :
    (left.enact log width action).Alike (right.enact log width action) := by
  have overruns : left.overrun? width action = right.overrun? width action := by
    simp only [Machine.overrun?, agree.ip]
  rw [enact_eq, enact_eq, refusal?_congr accepts, overruns]
  cases right.refusal? action with
  | some fault => exact (agree.consume action).fail log fault
  | none =>
      cases right.overrun? width action with
      | some fault => exact (agree.changed action).fail log fault
      | none => exact ⟨rfl, agree.after width action⟩

theorem kind_memory_step (machine : Machine) :
    machine.step.machine.state.memory.kind = machine.state.memory.kind := by
  rcases machine.memory_step with same | ⟨address, value, -, put⟩
  · rw [same]
  · rw [put, Store.kind_put]

theorem length_memory_step {machine : Machine} (dense : machine.state.memory.kind = .dense) :
    machine.state.memory.length ≤ machine.step.machine.state.memory.length := by
  rcases machine.memory_step with same | ⟨address, value, -, put⟩
  · exact Nat.le_of_eq (congrArg Store.length same.symm)
  · rw [put, Store.length_put_of_dense dense]
    exact Nat.le_max_left _ _

end Machine

theorem Table.mem_range_of_place? {number : Int} {position : Nat}
    (found : Table.place? number = some position) :
    position ∈ List.range' 1 (Table.arity number) := by
  simp only [Table.place?] at found
  split at found <;> cases found <;> decide

theorem View.target_of_address? {view : View} {address : Nat}
    (clear : firstFault? view.checks = none) (stores : view.action.address? = some address) :
    address ≤ Address.last ∧
      ∃ position, Table.place? view.number = some position ∧
        (view.operand position).target view.base = .ok address := by
  obtain ⟨known, -, modes, -, placed⟩ := clear_checks clear
  rw [address?_action known] at stores
  split at stores
  · contradiction
  · obtain ⟨position, found, rfl⟩ := Option.map_eq_some_iff.mp stores
    have bounds := bounds_of_placeFault? placed found
    have resolves := target_operand (modes position (Table.mem_range_of_place? found))
    have written : view.writeFault? position = none := by
      simpa only [placeFault?, found] using placed
    rw [written, guarded_none] at resolves
    refine ⟨?_, position, found, resolves⟩
    unfold View.target
    omega

namespace Machine

/-- The next step of the machines differs: a contiguous memory that was loaded with the
program refuses the address that a sparse one stores at. -/
structure Diverges (program : List Int) (dense sparse : Machine) (address : Nat) : Prop where
  refused : dense.step.answer = .error (.addressOverflow address)
  differs : sparse.step.answer ≠ dense.step.answer
  beyond : max program.length Store.Dense.limit ≤ address
  addressable : address ≤ Address.last
  resolved : ∃ position, Table.place? sparse.view.number = some position ∧
    (sparse.view.operand position).target sparse.state.base = .ok address
  stored : ∃ value,
    sparse.state.memory.write address value = .ok sparse.step.machine.state.memory

structure Paired (program : List Int) (dense sparse : Machine) : Prop where
  agree : Agree dense sparse
  contiguous : dense.state.memory.kind = .dense
  scattered : sparse.state.memory.kind = .sparse
  covers : program.length ≤ dense.state.memory.length

variable {program : List Int} {dense sparse : Machine}

theorem paired_load (id : Nat) (program : List Int) :
    Paired program (load .dense id program) (load .sparse id program) where
  agree := {
    memory := fun address =>
      (Store.read_ofCells .dense program address).trans (Store.read_ofCells .sparse program address).symm
    base := rfl
    ip := rfl
    status := rfl
    fault := rfl
    steps := rfl
    input := rfl
    output := rfl }
  contiguous := Store.kind_ofCells .dense program
  scattered := Store.kind_ofCells .sparse program
  covers := Nat.le_of_eq (Store.length_ofCells_dense program).symm

theorem Paired.of_alike (paired : Paired program dense sparse)
    (alike : dense.step.Alike sparse.step) :
    Paired program dense.step.machine sparse.step.machine where
  agree := alike.2
  contiguous := (kind_memory_step dense).trans paired.contiguous
  scattered := (kind_memory_step sparse).trans paired.scattered
  covers := Nat.le_trans paired.covers (length_memory_step paired.contiguous)

theorem Paired.diverges {address : Nat} (paired : Paired program dense sparse)
    (going : dense.final? = none) (clear : firstFault? dense.view.checks = none)
    (stores : dense.view.action.address? = some address)
    (refused : dense.state.memory.accepts address = false) :
    Diverges program dense sparse address := by
  have view := paired.agree.view
  have accepted := Store.accepts_of_sparse paired.scattered address
  have denseStep := step_of_action going clear
  have sparseStep := step_of_action (paired.agree.final? ▸ going) (view ▸ clear)
  have answer : dense.step.answer = .error (.addressOverflow address) := by
    have refusal := dense.running.refusal?_of_refused stores refused
    rw [denseStep, answer_enact, refusal]
    rfl
  have storesToo : sparse.view.action.address? = some address := view ▸ stores
  have notRefused := sparse.running.refusal?_of_accepted storesToo accepted
  obtain ⟨value, put⟩ := Action.stored_of_store storesToo
  obtain ⟨addressable, resolved⟩ := View.target_of_address? (view ▸ clear) storesToo
  exact {
    refused := answer
    differs := by
      rw [answer, sparseStep, answer_enact, notRefused, Option.none_or, Ne, guarded_eq_error_iff]
      exact sparse.running.overrun?_ne_addressOverflow _ _ address
    beyond := by
      have far := (Store.refuses_iff paired.contiguous).mp refused
      have covers := paired.covers
      omega
    addressable := addressable
    resolved := resolved
    stored := by
      refine ⟨value, ?_⟩
      rw [Store.write_of_accepts accepted, sparseStep, memory_enact, notRefused, put]
      rfl }

/-- One step: the machines stay together, or the contiguous memory has refused an address. -/
theorem Paired.step (paired : Paired program dense sparse) :
    dense.step.Alike sparse.step ∨ ∃ address, Diverges program dense sparse address := by
  have agree := paired.agree
  cases stopped : dense.final? with
  | some answer =>
      rw [step_eq dense, step_eq sparse, ← agree.final?, stopped]
      exact .inl ⟨rfl, agree⟩
  | none =>
      have stoppedToo : sparse.final? = none := agree.final? ▸ stopped
      cases failed : firstFault? dense.view.checks with
      | some fault =>
          rw [step_of_fault stopped failed, step_of_fault stoppedToo (agree.view ▸ failed), agree.view]
          exact .inl (agree.fail _ fault)
      | none =>
          -- The decision is the same; only the acceptance of the address is still open.
          have together : (∀ address, dense.view.action.address? = some address →
              dense.state.memory.accepts address = sparse.state.memory.accepts address) →
              dense.step.Alike sparse.step := by
            intro accepts
            rw [step_of_action stopped failed, step_of_action stoppedToo (agree.view ▸ failed)]
            rw [agree.view] at accepts ⊢
            exact agree.running.enact _ _ accepts
          cases stores : dense.view.action.address? with
          | none =>
              refine .inl (together ?_)
              intro address found
              rw [stores] at found
              contradiction
          | some address =>
              cases accepted : dense.state.memory.accepts address with
              | true =>
                  refine .inl (together ?_)
                  intro other found
                  obtain rfl : address = other := Option.some.inj (stores.symm.trans found)
                  rw [accepted, Store.accepts_of_sparse paired.scattered]
              | false => exact .inr ⟨address, paired.diverges stopped failed stores accepted⟩

variable (watched : Event → Bool)

theorem Paired.call {call : Call} (paired : Paired program dense sparse)
    (plain : call.isPlain = true) :
    ((dense.call watched call).answer = (sparse.call watched call).answer ∧
        Paired program (dense.call watched call).machine (sparse.call watched call).machine) ∨
      call = .step ∧ ∃ address, Diverges program dense sparse address := by
  obtain ⟨agree, contiguous, scattered, covers⟩ := paired
  cases call with
  | step =>
      rcases Paired.step ⟨agree, contiguous, scattered, covers⟩ with alike | diverges
      · exact .inl ⟨congrArg Answer.outcome alike.1,
          Paired.of_alike ⟨agree, contiguous, scattered, covers⟩ alike⟩
      · exact .inr ⟨rfl, diverges⟩
  | push value =>
      exact .inl ⟨rfl, { agree with input := congrArg (· ++ [value]) agree.input },
        contiguous, scattered, covers⟩
  | extend values =>
      exact .inl ⟨rfl, { agree with input := congrArg (· ++ values) agree.input },
        contiguous, scattered, covers⟩
  | pop =>
      exact .inl ⟨congrArg (fun output : Array Int => Answer.value output[0]?) agree.output,
        { agree with output := congrArg (·.extract 1) agree.output },
        contiguous, scattered, covers⟩
  | take =>
      exact .inl ⟨congrArg (fun output : Array Int => Answer.values output.toList) agree.output,
        { agree with output := rfl }, contiguous, scattered, covers⟩
  | runFor budget => contradiction
  | run fuel => contradiction
  | reset => contradiction
  | write address value => contradiction

theorem Reply.Alike.cons {left right : Machine} {first : Call} {rest : List Call}
    (answer : (left.call watched first).answer = (right.call watched first).answer)
    (later : ((left.call watched first).machine.calls watched rest).Alike
      ((right.call watched first).machine.calls watched rest)) :
    (left.calls watched (first :: rest)).Alike (right.calls watched (first :: rest)) :=
  ⟨by simp only [Machine.calls, answer, later.1], later.2⟩

theorem Paired.calls {history : List Call} (paired : Paired program dense sparse)
    (plain : ∀ call ∈ history, call.isPlain = true) :
    (dense.calls watched history).Alike (sparse.calls watched history) ∨
      ∃ before after address, history = before ++ .step :: after ∧
        (dense.calls watched before).Alike (sparse.calls watched before) ∧
        Diverges program (dense.calls watched before).machine
          (sparse.calls watched before).machine address := by
  -- The pair before a call that differs is the last one that is still related.
  induction history generalizing dense sparse with
  | nil => exact .inl ⟨rfl, paired.agree⟩
  | cons first rest ih =>
      rcases paired.call watched (plain first (by simp)) with
        ⟨answer, next⟩ | ⟨rfl, address, diverges⟩
      · rcases ih next (fun call member => plain call (by simp [member])) with
          alike | ⟨before, after, address, rfl, alike, diverges⟩
        · exact .inl (.cons watched answer alike)
        · exact .inr ⟨first :: before, after, address, rfl, .cons watched answer alike, diverges⟩
      · exact .inr ⟨[], rest, address, rfl, ⟨rfl, paired.agree⟩, diverges⟩

/-- A contiguous and a sparse memory give the same history of answers, up to the first store
at an address that the contiguous one refuses. -/
theorem dense_agrees_with_sparse (id : Nat) (program : List Int)
    {history : List Call} (plain : ∀ call ∈ history, call.isPlain = true) :
    ((load .dense id program).calls watched history).Alike
        ((load .sparse id program).calls watched history) ∨
      ∃ before after address, history = before ++ .step :: after ∧
        ((load .dense id program).calls watched before).Alike
          ((load .sparse id program).calls watched before) ∧
        Diverges program ((load .dense id program).calls watched before).machine
          ((load .sparse id program).calls watched before).machine address :=
  (paired_load id program).calls watched plain

/-- An input for the first address beyond the limit parts the machines at the first step. -/
theorem dense_agrees_with_sparse_far_input :
    let watched : Event → Bool := fun _ => true
    let dense := load .dense 1 [3, 0x1000000, 99]
    let sparse := load .sparse 1 [3, 0x1000000, 99]
    let fed (machine : Machine) := (machine.calls watched [.push 7]).machine
    (∀ call ∈ [Call.push 7, .step, .step], call.isPlain = true) ∧
      ¬ (dense.calls watched [.push 7, .step, .step]).Alike
        (sparse.calls watched [.push 7, .step, .step]) ∧
      (dense.calls watched [.push 7]).Alike (sparse.calls watched [.push 7]) ∧
      Diverges [3, 0x1000000, 99] (fed dense) (fed sparse) 0x1000000 ∧
      (fed dense).step.answer = .error (.addressOverflow 0x1000000) ∧
      (fed sparse).step.answer = .ok .executed := by
  intro watched dense sparse fed
  have plain : ∀ call ∈ [Call.push 7, .step, .step], call.isPlain = true := by decide
  have refused : (fed dense).step.answer = .error (.addressOverflow 0x1000000) := by decide +kernel
  have accepted : (fed sparse).step.answer = .ok .executed := by decide +kernel
  have apart : ¬ (dense.calls watched [.push 7, .step]).Alike
      (sparse.calls watched [.push 7, .step]) :=
    fun alike => absurd alike.2.status (by decide +kernel)
  have apartLater : ¬ (dense.calls watched [.push 7, .step, .step]).Alike
      (sparse.calls watched [.push 7, .step, .step]) :=
    fun alike => absurd alike.2.status (by decide +kernel)
  rcases dense_agrees_with_sparse watched 1 [3, 0x1000000, 99] plain with
    alike | ⟨before, after, address, split, alike, diverges⟩
  · exact absurd alike apartLater
  · have first : before = [.push 7] := by
      rcases before with _ | ⟨first, _ | ⟨second, rest⟩⟩
      · cases split
      · cases split
        rfl
      · simp only [List.cons_append, List.cons.injEq] at split
        obtain ⟨rfl, rfl, left⟩ := split
        -- One call is left, which is the step that differs.
        have length := congrArg List.length left
        simp only [List.length_append, List.length_cons, List.length_nil] at length
        obtain rfl : rest = [] := List.eq_nil_of_length_eq_zero (by omega)
        exact absurd alike apart
    subst first
    have same := refused.symm.trans diverges.refused
    simp only [Except.error.injEq, Fault.addressOverflow.injEq] at same
    obtain rfl : address = 0x1000000 := by omega
    exact ⟨plain, apartLater, alike, diverges, refused, accepted⟩

end Machine

end Intcode
