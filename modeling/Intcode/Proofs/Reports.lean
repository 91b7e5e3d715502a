import Intcode.Proofs.Conservation
import Intcode.Proofs.Fields

/-! # What a step reports

Three kinds of events tell how far a machine has come: an instruction was fetched, a step failed,
the machine halted.  They are the milestones of a log, and each has words of its own with which its
records begin.  What the records of a fault and of a halt say besides, the place and the time, stands
in them as decimal numbers.  A decision reports that it has fetched, and nothing else of this kind; what follows
in the log of a step is its fault or its halt.
-/

namespace Intcode

inductive Milestone where
  | fetched
  | faulted
  | halted
deriving DecidableEq, Repr

/-- How the records of a milestone begin, after the mark of the machine. -/
def Milestone.words : Milestone → String
  | .fetched => "Executing instruction"
  | .faulted => "VM Fault"
  | .halted => "Halted after"

/-- Whether a record begins with these words, after the mark of the machine with this number. -/
def Log.Record.opens (record : Log.Record) (id : Nat) (words : String) : Bool :=
  ((Event.mark id).toList ++ words.toList).isPrefixOf record.message.toList

namespace Event

open Decimal

def milestone? : Event → Option Milestone
  | .fetched .. => some .fetched
  | .faulted .. => some .faulted
  | .halted _ => some .halted
  | _ => none

theorem level_of_milestone {event : Event} {milestone : Milestone}
    (passed : event.milestone? = some milestone) : event.level = .debug := by
  cases event with
  | read position mode raw value => contradiction
  | _ => rfl

theorem exists_mark (id : Nat) : ∃ rest, (mark id).toList = '[' :: rest := by
  simp [mark]

theorem not_prefix_of_unmarked {first : Char} (other : first ≠ '[') (id : Nat) (words : String)
    (rest : List Char) : ¬ (mark id).toList ++ words.toList <+: first :: rest := by
  obtain ⟨marked, start⟩ := exists_mark id
  simp only [start, List.cons_append, List.cons_prefix_cons, other.symm, false_and,
    not_false_eq_true]

theorem exists_name (opcode : Opcode) :
    ∃ first rest, opcode.name.toList = first :: rest ∧ first ≠ '[' := by
  cases opcode <;> simp [Opcode.name]

/-- The words tell the milestones apart from each other and from everything else. -/
theorem opens_record (event : Event) (id : Nat) (milestone : Milestone) :
    (event.record id).opens id milestone.words = true ↔ event.milestone? = some milestone := by
  rw [Log.Record.opens, List.isPrefixOf_iff_prefix, record]
  delta message
  cases event with
  | loaded cells | reset | fetched ip opcode cells | faulted ip steps fault | halted steps =>
      -- After the mark the words are compared with those of the message.
      simp only [String.toList_append, List.append_assoc, List.prefix_append_right_inj]
      cases milestone <;> simp [milestone?, Milestone.words]
  | computed opcode address result | compared opcode left right address holds
  | decided opcode condition target taken =>
      obtain ⟨first, rest, name, other⟩ := exists_name opcode
      simp only [milestone?, String.toList_append, List.append_assoc, name, List.cons_append,
        not_prefix_of_unmarked other, reduceCtorEq]
  | _ =>
      simp only [milestone?, String.toList_append, String.reduceToList, List.cons_append,
        reduceCtorEq, iff_false]
      apply not_prefix_of_unmarked
      decide

/-- The mark of a machine: its number, with a zero in front of a single digit. -/
inductive Marks : String → Nat → Prop where
  | single {digit : String} {id : Nat} (small : id < 10) (writes : Writes digit id) :
      Marks ("[M0" ++ digit ++ "] ") id
  | several {digits : String} {id : Nat} (large : 10 ≤ id) (writes : Writes digits id) :
      Marks ("[M" ++ digits ++ "] ") id

/-- The text tells of a fault of a machine, where and after how many steps it happened. -/
def TellsFault (text : String) (id ip steps : Nat) (fault : Fault) : Prop :=
  ∃ mark place time, Marks mark id ∧ Writes place ip ∧ Writes time steps ∧
    text = mark ++ "VM Fault at IP " ++ place ++ " (step " ++ time ++ "): " ++ fault.message

/-- The text tells after how many steps a machine has halted. -/
def TellsHalt (text : String) (id steps : Nat) : Prop :=
  ∃ mark time, Marks mark id ∧ Writes time steps ∧
    text = mark ++ "Halted after " ++ time ++ " steps"

theorem marks_mark (id : Nat) : Marks (mark id) id := by
  have writes : Writes (renderNatural id) id := writes_iff.mpr rfl
  by_cases small : id < 10
  · have padded : mark id = "[M0" ++ renderNatural id ++ "] " := by
      apply String.toList_injective
      simp [mark, renderNatural, naturalDigits_of_lt small]
    rw [padded]
    exact .single small writes
  · have short : (naturalDigits id).length ≤ 1 ↔ id < 10 ^ 1 :=
      Nat.length_toDigits_le_iff (by decide) (by decide)
    have two : 2 ≤ (naturalDigits id).length := by omega
    have plain : mark id = "[M" ++ renderNatural id ++ "] " := by
      simp only [mark, Nat.sub_eq_zero_of_le two, List.replicate_zero, List.nil_append]
      rfl
    rw [plain]
    exact .several (by omega) writes

theorem tellsFault_message (id ip steps : Nat) (fault : Fault) :
    TellsFault ((faulted ip steps fault).message id) id ip steps fault :=
  ⟨mark id, renderNatural ip, renderNatural steps, marks_mark id, writes_iff.mpr rfl,
    writes_iff.mpr rfl, rfl⟩

theorem tellsHalt_message (id steps : Nat) : TellsHalt ((halted steps).message id) id steps :=
  ⟨mark id, renderNatural steps, marks_mark id, writes_iff.mpr rfl, rfl⟩

/-- The events of a log that are a milestone of one kind. -/
def passing (milestone : Milestone) (log : List Event) : List Event :=
  log.filter fun event => event.milestone? = some milestone

/-- Nothing in a log is a milestone. -/
def Silent (log : List Event) : Prop :=
  ∀ event ∈ log, event.milestone? = none

@[simp] theorem passing_append (milestone : Milestone) (first second : List Event) :
    passing milestone (first ++ second) = passing milestone first ++ passing milestone second :=
  List.filter_append ..

theorem Silent.passing {log : List Event} (silent : Silent log) (milestone : Milestone) :
    passing milestone log = [] := by
  rw [Event.passing, List.filter_eq_nil_iff]
  intro event member
  simp [silent event member]

theorem silent_nil : Silent [] := nofun

theorem silent_append {first second : List Event} (silentFirst : Silent first)
    (silentSecond : Silent second) : Silent (first ++ second) :=
  List.forall_mem_append.mpr ⟨silentFirst, silentSecond⟩

end Event

open Event

section Evaluation

variable {α β : Type}

theorem Eval.silent_bind {first : Eval α} {next : α → Eval β} (before : Silent first.log)
    (after : ∀ value, Silent (next value).log) : Silent (first >>= next).log := by
  cases found : first.result with
  | error fault =>
      rw [Eval.bind_of_error found]
      exact before
  | ok value =>
      rw [Eval.bind_of_ok found]
      exact silent_append before (after value)

theorem Eval.silent_report {event : Event} (inner : event.milestone? = none) :
    Silent (Eval.report event).log :=
  List.forall_mem_singleton.mpr inner

variable (view : View) (instruction : Instruction) (operands : List Operand) (index : Nat)

theorem View.silent_operandAt : Silent (view.operandAt instruction operands index).log := by
  unfold operandAt
  split <;> exact silent_nil

theorem View.silent_readAt : Silent (view.readAt instruction operands index).log := by
  apply Eval.silent_bind (view.silent_operandAt instruction operands index)
  intro operand
  apply Eval.silent_bind silent_nil
  intro value
  exact Eval.silent_bind (Eval.silent_report rfl) fun _ => silent_nil

theorem View.silent_locateAt : Silent (view.locateAt instruction operands index).log :=
  Eval.silent_bind (view.silent_operandAt instruction operands index) fun _ => silent_nil

/-- What an instruction reports while it is evaluated is no milestone. -/
theorem Family.silent_evaluate (family : Family) :
    Silent (family.evaluate view instruction operands).log := by
  have read := view.silent_readAt instruction operands
  have locate := view.silent_locateAt instruction operands
  have report : ∀ (event : Event) (action : Action), event.milestone? = none →
      Silent (do Eval.report event; return action : Eval Action).log :=
    fun event action inner => Eval.silent_bind (Eval.silent_report inner) fun _ => silent_nil
  cases family with
  | arithmetic =>
      refine Eval.silent_bind (read 0) fun left => Eval.silent_bind (read 1) fun right => ?_
      split
      · exact Eval.silent_bind (locate 2) fun address => report _ _ rfl
      · exact silent_nil
  | comparison =>
      refine Eval.silent_bind (read 0) fun left => Eval.silent_bind (read 1) fun right => ?_
      split
      · exact Eval.silent_bind (locate 2) fun address => report _ _ rfl
      · exact silent_nil
  | control =>
      simp only [Family.evaluate, Family.evaluateControl]
      split
      · exact report _ _ rfl
      · split
        · refine Eval.silent_bind (read 0) fun condition => Eval.silent_bind (read 1) fun target => ?_
          refine Eval.silent_bind (Eval.silent_report rfl) fun _ => ?_
          split
          · exact Eval.silent_bind silent_nil fun _ => silent_nil
          · exact silent_nil
        · exact silent_nil
  | channel =>
      simp only [Family.evaluate, Family.evaluateChannel]
      split
      · refine Eval.silent_bind (locate 0) fun address => ?_
        split <;> exact report _ _ rfl
      · exact Eval.silent_bind (read 0) fun value => report _ _ rfl
      · exact silent_nil
  | register =>
      simp only [Family.evaluate, Family.evaluateRegister]
      split
      · exact Eval.silent_bind (read 0) fun distance => report _ _ rfl
      · exact silent_nil

end Evaluation

namespace View

/-- The instruction is known, and its operands have addresses. -/
def fetches (view : View) : Bool :=
  (view.opcodeFault?.or view.fetchFault?).isNone

theorem fetches_iff {view : View} :
    view.fetches = true ↔
      view.opcodeFault? = none ∧ view.ip + Table.arity view.number ≤ Address.last := by
  have fetched : view.fetchFault? = none ↔ view.ip + Table.arity view.number ≤ Address.last := by
    unfold fetchFault?
    split <;> simp <;> omega
  rw [fetches, Option.isNone_iff_eq_none, Option.or_eq_none_iff, fetched]

/-- A decision reports one milestone, if it fetches an instruction. -/
theorem log_decision (view : View) :
    ∃ fetched inner, view.decision.log = fetched ++ inner ∧ Silent inner ∧
      fetched.length = view.fetches.toNat ∧
      ∀ event ∈ fetched, event.milestone? = some .fetched := by
  have fetched := view.fetch_eq
  unfold fetches
  cases refused : view.opcodeFault?.or view.fetchFault? with
  | some fault =>
      rw [refused] at fetched
      rw [decision_of_not_fetched fetched]
      exact ⟨[], [], rfl, silent_nil, rfl, nofun⟩
  | none =>
      rw [refused] at fetched
      rw [decision_of_fetched fetched]
      split
      · exact ⟨[_], [], rfl, silent_nil, rfl, List.forall_mem_singleton.mpr rfl⟩
      · refine ⟨[_], _, rfl, ?_, rfl, List.forall_mem_singleton.mpr rfl⟩
        exact Family.silent_evaluate view _ _ _

theorem length_fetched_decision (view : View) :
    (passing .fetched view.decision.log).length = view.fetches.toNat := by
  obtain ⟨fetched, inner, log, silent, length, all⟩ := view.log_decision
  have kept : passing .fetched fetched = fetched :=
    List.filter_eq_self.mpr fun event member => decide_eq_true (all event member)
  rw [log, passing_append, silent.passing, kept, List.append_nil, length]

theorem passing_decision (view : View) (milestone : Milestone) (other : milestone ≠ .fetched) :
    passing milestone view.decision.log = [] := by
  obtain ⟨fetched, inner, log, silent, -, all⟩ := view.log_decision
  have none : passing milestone fetched = [] := by
    rw [passing, List.filter_eq_nil_iff]
    intro event member
    rw [all event member]
    simp [other.symm]
  rw [log, passing_append, silent.passing, none, List.append_nil]

end View

namespace Machine

variable {machine : Machine}

/-- The log of a failed step ends with its fault, at the place and time of the step. -/
theorem log_step_of_failed {fault : Fault} (going : machine.final? = none)
    (failed : machine.step.answer = .error fault) :
    machine.step.log =
      machine.view.decision.log ++ [.faulted machine.state.ip machine.state.steps fault] := by
  cases decided : firstFault? machine.view.checks with
  | some found =>
      rw [step_of_fault going decided] at failed ⊢
      cases failed
      rfl
  | none =>
      rw [step_of_action going decided, enact_eq] at failed ⊢
      cases refused : machine.running.refusal? machine.view.action with
      | some found =>
          rw [refused] at failed
          cases failed
          rfl
      | none =>
          rw [refused] at failed
          cases overrun : machine.running.overrun? (1 + Table.arity machine.view.number)
              machine.view.action with
          | some found =>
              rw [overrun] at failed
              cases failed
              rfl
          | none =>
              rw [overrun] at failed
              cases failed

theorem log_step_of_completed {outcome : Outcome} (going : machine.final? = none)
    (completed : machine.step.answer = .ok outcome) :
    machine.step.log =
      machine.view.decision.log ++
        if outcome = .halted then [.halted (machine.state.steps + 1)] else [] := by
  have decided := decided_of_completed going completed
  rw [step_of_action going decided] at completed ⊢
  rw [answer_enact, guarded_eq_ok_iff, Option.or_eq_none_iff] at completed
  obtain ⟨⟨accepted, advanced⟩, rfl⟩ := completed
  rw [enact_eq, accepted, advanced]
  cases machine.view.action <;> rfl

theorem fetches_of_completed {outcome : Outcome} (going : machine.final? = none)
    (completed : machine.step.answer = .ok outcome) : machine.view.fetches = true := by
  obtain ⟨known, fetched, -⟩ := View.clear_checks (decided_of_completed going completed)
  rw [View.fetches, known, fetched]
  rfl

/-- The milestones of a completed step. -/
theorem passing_step_of_completed {outcome : Outcome} (going : machine.final? = none)
    (completed : machine.step.answer = .ok outcome) :
    passing .faulted machine.step.log = [] ∧
      passing .halted machine.step.log =
        (if outcome = .halted then [.halted (machine.state.steps + 1)] else []) ∧
      (passing .fetched machine.step.log).length = 1 := by
  have fetched := machine.view.length_fetched_decision
  rw [fetches_of_completed going completed] at fetched
  rw [log_step_of_completed going completed]
  simp only [passing_append, List.length_append, fetched,
    machine.view.passing_decision .faulted nofun,
    machine.view.passing_decision .halted nofun]
  split
  · exact ⟨rfl, rfl, rfl⟩
  · exact ⟨rfl, rfl, rfl⟩

/-- The milestones of a failed step. -/
theorem passing_step_of_failed {fault : Fault} (going : machine.final? = none)
    (failed : machine.step.answer = .error fault) :
    passing .faulted machine.step.log = [.faulted machine.state.ip machine.state.steps fault] ∧
      passing .halted machine.step.log = [] ∧
      (passing .fetched machine.step.log).length = machine.view.fetches.toNat := by
  rw [log_step_of_failed going failed]
  simp only [passing_append, List.length_append, machine.view.length_fetched_decision,
    machine.view.passing_decision .faulted nofun,
    machine.view.passing_decision .halted nofun]
  exact ⟨rfl, rfl, rfl⟩

theorem mem_checks_of_failed {fault : Fault} (going : machine.final? = none)
    (failed : machine.step.answer = .error fault) : some fault ∈ machine.checks := by
  rw [checks, List.mem_append]
  rcases failure_cases going failed with ⟨decided, -⟩ | ⟨-, refused, -⟩ | ⟨-, -, advanced, -⟩
  · exact .inl (mem_of_firstFault? decided)
  · exact .inr (by simp [refused])
  · exact .inr (by simp [advanced])

/-- A step fails with the instruction fetched exactly if its fault is neither that of an unknown
instruction nor that of operands beyond the last address. -/
theorem fetches_iff_of_failed {fault : Fault} (going : machine.final? = none)
    (failed : machine.step.answer = .error fault) :
    machine.view.fetches = true ↔
      (∀ cell address, fault ≠ .unknownOpcode cell address) ∧
        machine.state.ip + Table.arity machine.view.number ≤ Address.last := by
  have ip : machine.view.ip = machine.state.ip := rfl
  rw [View.fetches_iff, ip]
  refine and_congr_left' ?_
  constructor
  · rintro known cell address rfl
    rw [opcodeFault?_of_mem (mem_checks_of_failed going failed)] at known
    cases known
  · intro other
    cases unknown : machine.view.opcodeFault? with
    | none => rfl
    | some found =>
        have first : firstFault? machine.view.checks = some found := by
          simp only [View.checks, firstFault?_append, firstFault?_cons, unknown, Option.some_or]
        rw [step_of_fault going first] at failed
        cases failed
        simp only [View.opcodeFault?] at unknown
        split at unknown
        · cases unknown
          exact absurd rfl (other _ _)
        · cases unknown

end Machine

end Intcode
