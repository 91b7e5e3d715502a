import Intcode.Proofs.Reports

/-! # The log accounts for the run

The log of a history of calls is what its steps report, one step after the other.  `Accounted` ties
the milestones among these reports to the state of the machine: a fault and a halt are reported once
each, when they happen, and an instruction is fetched for every step that is completed, that waits
for an input, or that fails with its instruction in hand.  A step keeps this, and so does a run and
every call that does not reset the machine.
-/

namespace Intcode.Machine

open Event

/-- The step that is taken from a machine lacks an input. -/
def awaits (machine : Machine) : Bool :=
  match machine.step.answer with
  | .ok .awaitingInput => true
  | _ => false

/-- The step that is taken from a machine is the one that fails, and it fails after the operands
of the instruction were fetched: the instruction is known, and no operand lies beyond the last
address. -/
structure FailsFetched (machine : Machine) (fault : Fault) : Prop where
  going : machine.final? = none
  failed : machine.step.answer = .error fault
  known : ∀ cell address, fault ≠ .unknownOpcode cell address
  within : machine.state.ip + Table.arity machine.view.number ≤ Address.last

def failsFetched (machine : Machine) : Bool :=
  match machine.final?, machine.step.answer with
  | none, .error _ => machine.view.fetches
  | _, _ => false

/-- What the steps report that are taken from the machines listed. -/
def reportedAt (stations : List Machine) : List Event :=
  stations.flatMap fun station => station.step.log

variable {machine : Machine} {stations : List Machine}

theorem failsFetched_iff : machine.failsFetched = true ↔ ∃ fault, machine.FailsFetched fault := by
  unfold failsFetched
  split
  · rename_i fault going failed
    rw [fetches_iff_of_failed going failed]
    constructor
    · rintro ⟨known, within⟩
      exact ⟨fault, going, failed, known, within⟩
    · rintro ⟨other, -, failedToo, known, within⟩
      rw [failed] at failedToo
      cases failedToo
      exact ⟨known, within⟩
  · rename_i unfailed
    constructor
    · nofun
    · rintro ⟨fault, fails⟩
      exact absurd fails.failed (unfailed fault fails.going)

theorem awaits_eq_false (other : machine.step.answer ≠ .ok .awaitingInput) :
    machine.awaits = false := by
  unfold awaits
  split
  · contradiction
  · rfl

theorem fault_of_completed {outcome : Outcome} (going : machine.final? = none)
    (completed : machine.step.answer = .ok outcome) :
    machine.step.machine.state.fault = machine.state.fault := by
  rcases step_result going with ⟨found, failed, -⟩ | ⟨width, action, -, after⟩
  · rw [completed] at failed
    cases failed
  · rw [after]
    rfl

theorem countP_append_singleton (counts : Machine → Bool) (stations : List Machine)
    (machine : Machine) :
    (stations ++ [machine]).countP counts = stations.countP counts + (counts machine).toNat := by
  rw [List.countP_append, List.countP_singleton]
  cases counts machine <;> rfl

@[simp] theorem reportedAt_append (first second : List Machine) :
    reportedAt (first ++ second) = reportedAt first ++ reportedAt second :=
  List.flatMap_append

@[simp] theorem reportedAt_singleton (machine : Machine) : reportedAt [machine] = machine.step.log :=
  List.flatMap_singleton ..

theorem passing_reportedAt_concat (milestone : Milestone) (stations : List Machine)
    (machine : Machine) :
    passing milestone (reportedAt (stations ++ [machine])) =
      passing milestone (reportedAt stations) ++ passing milestone machine.step.log := by
  rw [reportedAt_append, reportedAt_singleton, passing_append]

/-! ## Logs of runs and calls -/

theorem log_drive (watched : Event → Bool) (budget : Nat) (machine : Machine) (kept : Array Event) :
    (machine.drive watched budget kept).log =
      kept.toList ++ (reportedAt (machine.stations budget)).filter watched := by
  induction budget generalizing machine kept with
  | zero => exact (List.append_nil _).symm
  | succ budget ih =>
      rw [Machine.stations]
      cases stops : machine.step.stop? with
      | some ending =>
          rw [drive_of_stop watched stops]
          simp
      | none =>
          rw [drive_of_goes watched stops, ih]
          simp [reportedAt]

theorem log_call (watched : Event → Bool) (machine : Machine) {call : Call} (kept : call ≠ .reset) :
    (machine.call watched call).log = (reportedAt (machine.stationsOf call)).filter watched := by
  cases call with
  | step =>
      rw [stationsOf, reportedAt_singleton]
      rfl
  | runFor budget => exact machine.log_drive watched budget #[]
  | run fuel => exact machine.log_drive watched fuel #[]
  | push value | extend values | pop | take | write address value => rfl
  | reset => contradiction

theorem log_calls (watched : Event → Bool) (machine : Machine) {history : List Call}
    (kept : .reset ∉ history) :
    (machine.calls watched history).log =
      (reportedAt (machine.stationsIn watched history)).filter watched := by
  induction history generalizing machine with
  | nil => rfl
  | cons first rest ih =>
      have now := log_call watched machine (List.ne_of_not_mem_cons kept).symm
      have later := ih (machine.call watched first).machine (List.not_mem_of_not_mem_cons kept)
      rw [Machine.calls, stationsIn, reportedAt_append, List.filter_append, ← now, ← later]

/-! ## What is kept along steps, runs and calls -/

/-- The milestones that the steps so far have reported, in terms of the state they have led to. -/
structure Accounted (stations : List Machine) (state : State) : Prop where
  faulted : state.status = .faulted → ∃ fault, state.fault = some fault ∧
    passing .faulted (reportedAt stations) = [.faulted state.ip state.steps fault]
  sound : state.status ≠ .faulted → state.fault = none ∧
    passing .faulted (reportedAt stations) = [] ∧ stations.countP failsFetched = 0
  halted : passing .halted (reportedAt stations) =
    if state.status = .halted then [.halted state.steps] else []
  executed : (passing .fetched (reportedAt stations)).length =
    state.steps + stations.countP awaits + stations.countP failsFetched
  once : stations.countP failsFetched ≤ 1
  same : ∀ station ∈ stations, ∀ fault, station.FailsFetched fault → state.fault = some fault

namespace Accounted

theorem load (kind : Store.Kind) (id : Nat) (program : List Int) :
    Accounted [] (Machine.load kind id program).state where
  faulted := nofun
  sound _ := ⟨rfl, rfl, rfl⟩
  halted := rfl
  executed := rfl
  once := Nat.zero_le 1
  same := List.forall_mem_nil _

section Step

variable (accounted : Accounted stations machine.state)
include accounted

/-- A step of a machine that has stopped reports nothing. -/
theorem idle {answer : Except Fault Outcome} (final : machine.final? = some answer) :
    Accounted (stations ++ [machine]) machine.step.machine.state := by
  have log : reportedAt (stations ++ [machine]) = reportedAt stations := by
    simp [step_eq, final]
  have answered : machine.step.answer = answer := by rw [step_eq, final]
  have waits : (stations ++ [machine]).countP awaits = stations.countP awaits := by
    rw [countP_append_singleton, awaits_eq_false (answered ▸ final?_ne_awaiting final)]
    rfl
  have fails : (stations ++ [machine]).countP failsFetched = stations.countP failsFetched := by
    rw [countP_append_singleton, failsFetched, final]
    rfl
  rw [machine_step_of_final final]
  exact {
    faulted := by rw [log]; exact accounted.faulted
    sound := by rw [log, fails]; exact accounted.sound
    halted := by rw [log]; exact accounted.halted
    executed := by rw [log, waits, fails]; exact accounted.executed
    once := by rw [fails]; exact accounted.once
    same := by
      refine List.forall_mem_append.mpr ⟨accounted.same, List.forall_mem_singleton.mpr ?_⟩
      intro fault fails
      rw [fails.going] at final
      cases final }

theorem unfinished (going : machine.final? = none) :
    machine.state.status ≠ .faulted ∧ machine.state.status ≠ .halted := by
  refine ⟨?_, ?_⟩
  · intro status
    obtain ⟨fault, recorded, -⟩ := accounted.faulted status
    simp [final?, status, recorded] at going
  · intro status
    simp [final?, status] at going

theorem not_failed (sound : machine.state.status ≠ .faulted) :
    ∀ station ∈ stations, ∀ fault, ¬ station.FailsFetched fault := by
  intro station member fault failed
  have recorded := accounted.same station member fault failed
  rw [(accounted.sound sound).1] at recorded
  cases recorded

/-- A completed step reports that it has fetched, and its halt. -/
theorem completed {outcome : Outcome} (going : machine.final? = none)
    (completed : machine.step.answer = .ok outcome) :
    Accounted (stations ++ [machine]) machine.step.machine.state := by
  obtain ⟨notFaulted, notHalted⟩ := accounted.unfinished going
  obtain ⟨faultless, unreported, unfailed⟩ := accounted.sound notFaulted
  obtain ⟨noFault, halt, fetched⟩ := passing_step_of_completed going completed
  have unhalted := accounted.halted
  rw [if_neg notHalted] at unhalted
  have executed := accounted.executed
  have status := status_step going
  rw [completed] at status
  have steps := steps_step going
  have fault := fault_of_completed going completed
  have fails : (stations ++ [machine]).countP failsFetched = 0 := by
    rw [countP_append_singleton, unfailed, failsFetched, going, completed]
    rfl
  refine ⟨?_, ?_, ?_, ?_, ?_, ?_⟩
  · intro ended
    rw [status] at ended
    cases outcome <;> cases ended
  · intro sound
    refine ⟨fault.trans faultless, ?_, fails⟩
    rw [passing_reportedAt_concat, unreported, noFault, List.append_nil]
  · rw [passing_reportedAt_concat, unhalted, halt, status, steps, Reply.completes, completed]
    cases outcome <;> rfl
  · rw [passing_reportedAt_concat, List.length_append, executed, fetched, unfailed, fails,
      countP_append_singleton, steps, Reply.completes, awaits, completed]
    -- What was fetched once more is one more completed step or one more wait for an input.
    cases outcome <;> simp <;> omega
  · rw [fails]
    exact Nat.zero_le 1
  · refine List.forall_mem_append.mpr ⟨?_, List.forall_mem_singleton.mpr ?_⟩
    · intro station member found failed
      exact absurd failed (accounted.not_failed notFaulted station member found)
    · intro found failed
      have contradictory := failed.failed
      rw [completed] at contradictory
      cases contradictory

/-- A failed step reports its fault, and that it has fetched if it came so far. -/
theorem failed {fault : Fault} (going : machine.final? = none)
    (failed : machine.step.answer = .error fault) :
    Accounted (stations ++ [machine]) machine.step.machine.state := by
  obtain ⟨notFaulted, notHalted⟩ := accounted.unfinished going
  obtain ⟨-, unreported, unfailed⟩ := accounted.sound notFaulted
  obtain ⟨noted, noHalt, fetched⟩ := passing_step_of_failed going failed
  have recorded := records_fault going failed
  have unhalted := accounted.halted
  rw [if_neg notHalted] at unhalted
  have waits : (stations ++ [machine]).countP awaits = stations.countP awaits := by
    rw [countP_append_singleton, awaits_eq_false (by rw [failed]; nofun)]
    rfl
  have fails : (stations ++ [machine]).countP failsFetched = machine.view.fetches.toNat := by
    rw [countP_append_singleton, unfailed, failsFetched, going, failed]
    exact Nat.zero_add _
  refine ⟨?_, ?_, ?_, ?_, ?_, ?_⟩
  · intro _
    refine ⟨fault, recorded.fault, ?_⟩
    rw [passing_reportedAt_concat, unreported, noted, recorded.ip, recorded.steps, List.nil_append]
  · intro sound
    exact absurd recorded.status sound
  · rw [passing_reportedAt_concat, unhalted, noHalt, recorded.status]
    rfl
  · rw [passing_reportedAt_concat, List.length_append, fetched, accounted.executed, unfailed, waits,
      fails, recorded.steps]
    omega
  · rw [fails]
    exact Bool.toNat_le _
  · refine List.forall_mem_append.mpr ⟨?_, List.forall_mem_singleton.mpr ?_⟩
    · intro station member found earlier
      exact absurd earlier (accounted.not_failed notFaulted station member found)
    · intro found now
      have same := now.failed
      rw [failed] at same
      cases same
      exact recorded.fault

theorem step : Accounted (stations ++ [machine]) machine.step.machine.state := by
  cases final : machine.final? with
  | some answer => exact accounted.idle final
  | none =>
      cases answer : machine.step.answer with
      | ok outcome => exact accounted.completed final answer
      | error fault => exact accounted.failed final answer

end Step

theorem leads {start finish : Machine} {more : List Machine} (way : start.Leads more finish)
    (accounted : Accounted stations start.state) : Accounted (stations ++ more) finish.state := by
  induction way generalizing stations with
  | here machine =>
      rw [List.append_nil]
      exact accounted
  | step rest ih =>
      have later := ih accounted.step
      rw [List.append_assoc] at later
      exact later

theorem call (watched : Event → Bool) {call : Call} (kept : call ≠ .reset)
    (accounted : Accounted stations machine.state) :
    Accounted (stations ++ machine.stationsOf call) (machine.call watched call).machine.state := by
  cases call with
  | step => exact accounted.step
  | runFor budget => exact accounted.leads (leads_drive watched budget machine #[])
  | run fuel => exact accounted.leads (leads_drive watched fuel machine #[])
  | push value | extend values | pop | take =>
      simp only [stationsOf, List.append_nil]
      exact accounted
  | reset => contradiction
  | write address value =>
      simp only [stationsOf, List.append_nil, Machine.call, Machine.write]
      split
      · exact ⟨accounted.faulted, accounted.sound, accounted.halted, accounted.executed,
          accounted.once, accounted.same⟩
      · exact accounted

theorem calls (watched : Event → Bool) {history : List Call} (kept : .reset ∉ history)
    (accounted : Accounted stations machine.state) :
    Accounted (stations ++ machine.stationsIn watched history)
      (machine.calls watched history).machine.state := by
  induction history generalizing machine stations with
  | nil =>
      rw [stationsIn, List.append_nil]
      exact accounted
  | cons first rest ih =>
      have now := accounted.call watched (List.ne_of_not_mem_cons kept).symm
      have later := ih (List.not_mem_of_not_mem_cons kept) now
      rw [List.append_assoc] at later
      exact later

end Accounted

/-! ## Records of a machine -/

/-- The records that a logger keeps of a machine that was loaded and is given a history of
calls. -/
def records (logger : Log.Logger) (machine : Machine) (history : List Call) : List Log.Record :=
  (machine.loadLog.filter (enabled logger) ++ (machine.calls (enabled logger) history).log).map
    (·.record machine.id)

theorem passing_filter_enabled {logger : Log.Logger}
    (shown : ∀ target, logger.enabled .debug target = true) (milestone : Milestone)
    (log : List Event) :
    passing milestone (log.filter (enabled logger)) = passing milestone log := by
  rw [passing, passing, List.filter_filter]
  apply List.filter_congr
  intro event _
  by_cases passed : event.milestone? = some milestone
  · simp [passed, enabled, level_of_milestone passed, shown]
  · simp [passed]

theorem filter_opens_map_record (id : Nat) (milestone : Milestone) (log : List Event) :
    (log.map (·.record id)).filter (·.opens id milestone.words) =
      (passing milestone log).map (·.record id) := by
  rw [List.filter_map, passing]
  refine congrArg _ (List.filter_congr fun event _ => ?_)
  rw [Function.comp_apply, Bool.eq_iff_iff, decide_eq_true_iff, opens_record]

theorem filter_opens_records {logger : Log.Logger}
    (shown : ∀ target, logger.enabled .debug target = true) (milestone : Milestone)
    (machine : Machine) {history : List Call} (kept : .reset ∉ history) :
    (machine.records logger history).filter (·.opens machine.id milestone.words) =
      (passing milestone (reportedAt (machine.stationsIn (enabled logger) history))).map
        (·.record machine.id) := by
  have unmarked : passing milestone machine.loadLog = [] := by cases milestone <;> rfl
  rw [records, filter_opens_map_record, log_calls _ _ kept, passing_append,
    passing_filter_enabled shown, passing_filter_enabled shown, unmarked, List.nil_append]

/-- The machine has failed, with the operands of the instruction fetched. -/
def FailedLate (stations : List Machine) (state : State) : Prop :=
  state.status = .faulted ∧
    ∃ fault, state.fault = some fault ∧ ∃ station ∈ stations, station.FailsFetched fault

/-- The records of a machine tell how it has fared: with its fault, where and when it happened, or
with its halt, and with one execution for every step that was completed, that lacked an input, or
that failed with its operands fetched. -/
structure Tells (records : List Log.Record) (id : Nat) (stations : List Machine) (state : State) :
    Prop where
  faulted : state.status = .faulted → ∃ fault text, state.fault = some fault ∧
    TellsFault text id state.ip state.steps fault ∧
    records.filter (·.opens id "VM Fault") =
      [⟨.debug, "vm", some "intcode::vm::machine", text⟩]
  sound : state.status ≠ .faulted → records.filter (·.opens id "VM Fault") = []
  halted : state.status = .halted → ∃ text, TellsHalt text id state.steps ∧
    records.filter (·.opens id "Halted after") =
      [⟨.debug, "vm", some "intcode::vm::machine", text⟩]
  unhalted : state.status ≠ .halted → records.filter (·.opens id "Halted after") = []
  executed : ¬ FailedLate stations state →
    (records.filter (·.opens id "Executing instruction")).length =
      state.steps + stations.countP awaits
  executedLate : FailedLate stations state →
    (records.filter (·.opens id "Executing instruction")).length =
      state.steps + stations.countP awaits + 1

theorem Accounted.countP_failsFetched {state : State} (accounted : Accounted stations state) :
    (FailedLate stations state → stations.countP failsFetched = 1) ∧
      (¬ FailedLate stations state → stations.countP failsFetched = 0) := by
  constructor
  · rintro ⟨-, fault, -, station, member, fails⟩
    have positive : 0 < stations.countP failsFetched :=
      List.countP_pos_iff.mpr ⟨station, member, failsFetched_iff.mpr ⟨fault, fails⟩⟩
    have once := accounted.once
    omega
  · intro early
    by_cases failed : state.status = .faulted
    · rw [List.countP_eq_zero]
      intro station member late
      obtain ⟨fault, fails⟩ := failsFetched_iff.mp late
      exact early ⟨failed, fault, accounted.same station member fault fails, station, member, fails⟩
    · exact (accounted.sound failed).2.2

/-- What a machine has done in a history of calls is told by its records. -/
def LogAccounts (logger : Log.Logger) (start : Machine) (history : List Call) : Prop :=
  Tells (start.records logger history) start.id (start.stationsIn (enabled logger) history)
    (start.calls (enabled logger) history).machine.state

/-- From the time that a machine was loaded, its log accounts for what it has done. -/
theorem log_accounts_for_run {logger : Log.Logger}
    (shown : ∀ target, logger.enabled .debug target = true) (kind : Store.Kind) (id : Nat)
    (program : List Int) {history : List Call} (kept : .reset ∉ history) :
    LogAccounts logger (load kind id program) history := by
  have accounted := (Accounted.load kind id program).calls (enabled logger) kept
  rw [List.nil_append] at accounted
  obtain ⟨late, early⟩ := accounted.countP_failsFetched
  have executed := congrArg List.length (filter_opens_records shown .fetched (load kind id program) kept)
  rw [List.length_map, accounted.executed] at executed
  have failures := filter_opens_records shown .faulted (load kind id program) kept
  have halts := filter_opens_records shown .halted (load kind id program) kept
  rw [accounted.halted] at halts
  refine ⟨?_, ?_, ?_, ?_, ?_, ?_⟩
  · intro failed
    obtain ⟨fault, recorded, reported⟩ := accounted.faulted failed
    rw [reported] at failures
    exact ⟨fault, _, recorded, tellsFault_message .., failures⟩
  · intro sound
    rw [(accounted.sound sound).2.1] at failures
    exact failures
  · intro halted
    rw [if_pos halted] at halts
    exact ⟨_, tellsHalt_message .., halts⟩
  · intro unhalted
    rw [if_neg unhalted] at halts
    exact halts
  · intro notLate
    rw [early notLate] at executed
    exact executed
  · intro failedLate
    rw [late failedLate] at executed
    exact executed

/-- The machine lacks an input twice, takes it, and fails when it is to store at a fixed value;
another one halts at once. -/
theorem log_accounts_for_late_failure :
    let logger : Log.Logger := ⟨.upTo .trace, none⟩
    let history : List Call := [.step, .runFor 5, .push 7, .runFor 5, .step]
    let start := load .dense 3 [3, 9, 11101, 2, 2, 9, 99]
    let finish := (start.calls (enabled logger) history).machine
    LogAccounts logger start history ∧
      finish.state.status = .faulted ∧ finish.state.ip = 2 ∧ finish.state.steps = 1 ∧
      (start.stationsIn (enabled logger) history).countP awaits = 2 ∧
      ((start.records logger history).filter (·.opens 3 "Executing instruction")).length = 4 ∧
      (start.records logger history).filter (·.opens 3 "VM Fault") =
        [⟨.debug, "vm", some "intcode::vm::machine", "[M03] VM Fault at IP 2 (step 1): " ++
          "Immediate mode used as write target for operand 3 (9)"⟩] ∧
      LogAccounts logger (load .sparse 12 [99]) [.step, .step] ∧
      ((load .sparse 12 [99]).records logger [.step, .step]).filter (·.opens 12 "Halted after") =
        [⟨.debug, "vm", some "intcode::vm::machine", "[M12] Halted after 1 steps"⟩] := by
  intro logger history start finish
  have shown : ∀ target, logger.enabled .debug target = true := fun _ => rfl
  have failing := log_accounts_for_run shown .dense 3 [3, 9, 11101, 2, 2, 9, 99]
    (show .reset ∉ history by decide)
  have halting := log_accounts_for_run shown .sparse 12 [99]
    (show .reset ∉ [Call.step, .step] by decide)
  exact ⟨failing, by decide +kernel, by decide +kernel, by decide +kernel, by decide +kernel,
    by decide +kernel, by decide +kernel, halting, by decide +kernel⟩

end Intcode.Machine
