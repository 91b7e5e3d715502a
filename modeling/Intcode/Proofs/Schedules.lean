import Intcode.Network
import Intcode.Proofs.Queues
import Mathlib.Data.List.Induction

/-! Networks of machines do not depend on their schedule.

Every machine of a network answers the calls that it is given as it would by itself, so what
it does depends on the values that were piped into it and not on when they came. What is piped
into a machine is a first part of what one other machine puts out. An induction over the acts
of a schedule closes the circle, also where the wires do.
-/

namespace Intcode.Network

open Machine (Answer Call Coincide Compatible Outcome emission?)

/-- Where the outputs of each machine are piped to. No machine is fed by two. -/
structure Wiring where
  consumer? : Nat → Option Nat
  single : ∀ {first second consumer : Nat},
    consumer? first = some consumer → consumer? second = some consumer → first = second

inductive Act where
  | step (index : Nat)
  | pipe (producer : Nat)
deriving DecidableEq, Repr

/-- What a machine of a network was asked, and what it answered. -/
structure Exchange where
  index : Nat
  call : Call
  answer : Answer

/-- What was said on the way, and the network at the end of it. -/
structure Course where
  trace : List Exchange
  network : Network

def act (wiring : Wiring) (network : Network) : Act → Course
  | .step index =>
      match network.call? index .step with
      | none => ⟨[], network⟩
      | some (answer, next) => ⟨[⟨index, .step, answer⟩], next⟩
  | .pipe producer =>
      match wiring.consumer? producer with
      | none => ⟨[], network⟩
      | some consumer =>
          let (values, next) := network.pipe producer consumer
          ⟨[⟨producer, .take, .values values⟩, ⟨consumer, .extend values, .done⟩], next⟩

def acts (wiring : Wiring) (network : Network) : List Act → Course
  | [] => ⟨[], network⟩
  | first :: rest =>
      let now := network.act wiring first
      let later := now.network.acts wiring rest
      ⟨now.trace ++ later.trace, later.network⟩

def own (index : Nat) (trace : List Exchange) : List Exchange :=
  trace.filter (·.index = index)

/-- The results of the steps of one machine that did not wait for an input. -/
def results (index : Nat) (trace : List Exchange) : List (Except Fault Outcome) :=
  (own index trace).filterMap (·.answer.result?)

def sent (index : Nat) (trace : List Exchange) : List Int :=
  (own index trace).flatMap (·.answer.collected)

def delivered (index : Nat) (trace : List Exchange) : List Int :=
  (own index trace).flatMap (·.call.given)

section Traces

variable (index : Nat) (first second : List Exchange)

theorem own_append : own index (first ++ second) = own index first ++ own index second :=
  List.filter_append first second

@[simp] theorem results_append :
    results index (first ++ second) = results index first ++ results index second := by
  simp only [results, own_append, List.filterMap_append]

@[simp] theorem sent_append :
    sent index (first ++ second) = sent index first ++ sent index second := by
  simp only [sent, own_append, List.flatMap_append]

@[simp] theorem delivered_append :
    delivered index (first ++ second) = delivered index first ++ delivered index second := by
  simp only [delivered, own_append, List.flatMap_append]

end Traces

theorem sent_step (index stepped : Nat) (result : Except Fault Outcome) :
    sent index [⟨stepped, .step, .outcome result⟩] = [] := by
  by_cases same : stepped = index <;> simp [sent, own, same, Answer.collected]

theorem delivered_step (index stepped : Nat) (result : Except Fault Outcome) :
    delivered index [⟨stepped, .step, .outcome result⟩] = [] := by
  by_cases same : stepped = index <;> simp [delivered, own, same, Call.given]

theorem results_pipe (index producer consumer : Nat) (values : List Int) :
    results index [⟨producer, .take, .values values⟩, ⟨consumer, .extend values, .done⟩] = [] := by
  by_cases first : producer = index <;> by_cases second : consumer = index <;>
    simp [results, own, first, second, Answer.result?]

theorem sent_pipe (index producer consumer : Nat) (values : List Int) :
    sent index [⟨producer, .take, .values values⟩, ⟨consumer, .extend values, .done⟩] =
      if producer = index then values else [] := by
  by_cases first : producer = index <;> by_cases second : consumer = index <;>
    simp [sent, own, first, second, Answer.collected]

theorem delivered_pipe (index producer consumer : Nat) (values : List Int) :
    delivered index [⟨producer, .take, .values values⟩, ⟨consumer, .extend values, .done⟩] =
      if consumer = index then values else [] := by
  by_cases first : producer = index <;> by_cases second : consumer = index <;>
    simp [delivered, own, first, second, Call.given]

/-- The exchanges are the whole way from one machine to the other. -/
structure Account (exchanges : List Exchange) (before after : Machine) : Prop where
  plain : ∀ exchange ∈ exchanges, exchange.call.isPlain = true
  answers : (before.calls (fun _ => false) (exchanges.map (·.call))).answer = exchanges.map (·.answer)
  reached : (before.calls (fun _ => false) (exchanges.map (·.call))).machine = after

theorem Account.nil (machine : Machine) : Account [] machine machine :=
  ⟨nofun, rfl, rfl⟩

theorem Account.append {first second : List Exchange} {before middle after : Machine}
    (start : Account first before middle) (rest : Account second middle after) :
    Account (first ++ second) before after := by
  obtain ⟨answers, reached⟩ := Machine.calls_append (fun _ => false) before
    (first.map (·.call)) (second.map (·.call))
  rw [start.answers, start.reached, rest.answers] at answers
  rw [start.reached, rest.reached] at reached
  refine ⟨List.forall_mem_append.mpr ⟨start.plain, rest.plain⟩, ?_, ?_⟩
  · rw [List.map_append, answers, List.map_append]
  · rw [List.map_append, reached]

theorem Account.join {index : Nat} {first second : List Exchange} {before middle after : Machine}
    (start : Account (own index first) before middle)
    (rest : Account (own index second) middle after) :
    Account (own index (first ++ second)) before after := by
  rw [own_append]
  exact start.append rest

def told (network : Network) (index : Nat) (call : Call) : Network :=
  ⟨network.machines.modify index fun machine => (machine.call (fun _ => false) call).machine⟩

theorem setIfInBounds_eq_modify {machines : Array Machine} {index : Nat} {machine : Machine}
    (present : machines[index]? = some machine) (change : Machine → Machine) :
    machines.setIfInBounds index (change machine) = machines.modify index change := by
  obtain ⟨inside, -⟩ := Array.getElem?_eq_some_iff.mp present
  apply Array.ext_getElem?
  intro other
  rw [Array.getElem?_setIfInBounds, Array.getElem?_modify]
  by_cases same : index = other
  · subst same
    rw [if_pos rfl, if_pos inside, if_pos rfl, present]
    rfl
  · rw [if_neg same, if_neg same]

theorem told_eq_self {network : Network} {index : Nat} {call : Call}
    (kept : ∀ machine, network.machines[index]? = some machine →
      (machine.call (fun _ => false) call).machine = machine) : network.told index call = network := by
  apply congrArg Network.mk
  apply Array.ext_getElem?
  intro other
  rw [Array.getElem?_modify]
  by_cases same : index = other
  · subst same
    rw [if_pos rfl]
    cases present : network.machines[index]? with
    | none => rfl
    | some machine => exact congrArg some (kept machine present)
  · rw [if_neg same]

theorem call?_eq (network : Network) (index : Nat) (call : Call) :
    network.call? index call = network.machines[index]?.map fun machine =>
      ((machine.call (fun _ => false) call).answer, network.told index call) := by
  unfold call? told
  cases present : network.machines[index]? with
  | none => rfl
  | some machine =>
      have same := setIfInBounds_eq_modify present fun machine =>
        (machine.call (fun _ => false) call).machine
      simp only [Option.map_some, same]

theorem pipe_eq (network : Network) (producer consumer : Nat) :
    network.pipe producer consumer =
      let values := network.machines[producer]?.elim [] (·.take.1)
      (values, (network.told producer .take).told consumer (.extend values)) := by
  unfold pipe
  cases present : network.machines[producer]? with
  | none =>
      have untaken : network.told producer .take = network := told_eq_self (by simp [present])
      have ungiven : network.told consumer (.extend []) = network :=
        told_eq_self fun machine _ => by simp [Machine.call, Machine.extend]
      simp only [Option.elim_none, untaken, ungiven]
  | some machine =>
      have same := setIfInBounds_eq_modify present fun machine =>
        (machine.call (fun _ => false) .take).machine
      simp only [Option.elim_some, told, ← same]
      rfl

theorem act_cases (wiring : Wiring) (network : Network) (act : Act) :
    network.act wiring act = ⟨[], network⟩ ∨
      (∃ index machine, network.machines[index]? = some machine ∧
        network.act wiring act =
          ⟨[⟨index, .step, .outcome machine.step.answer⟩], network.told index .step⟩) ∨
      ∃ producer consumer values, wiring.consumer? producer = some consumer ∧
        network.machines[producer]?.elim [] (·.take.1) = values ∧
        network.act wiring act =
          ⟨[⟨producer, .take, .values values⟩, ⟨consumer, .extend values, .done⟩],
            (network.told producer .take).told consumer (.extend values)⟩ := by
  cases act with
  | step index =>
      simp only [Network.act, call?_eq]
      cases present : network.machines[index]? with
      | none => exact .inl rfl
      | some machine => exact .inr (.inl ⟨index, machine, present, rfl⟩)
  | pipe producer =>
      simp only [Network.act]
      cases wired : wiring.consumer? producer with
      | none => exact .inl rfl
      | some consumer =>
          simp only [pipe_eq]
          exact .inr (.inr ⟨producer, consumer, _, wired, rfl, rfl⟩)

/-- The machine that is asked would give this answer by itself. -/
def Exchange.Truthful (network : Network) (exchange : Exchange) : Prop :=
  ∀ machine, network.machines[exchange.index]? = some machine →
    (machine.call (fun _ => false) exchange.call).answer = exchange.answer

theorem told_account {network : Network} {exchange : Exchange} (truthful : exchange.Truthful network)
    (plain : exchange.call.isPlain = true) {index : Nat} {machine : Machine}
    (present : network.machines[index]? = some machine) :
    ∃ after, (network.told exchange.index exchange.call).machines[index]? = some after ∧
      Account (own index [exchange]) machine after := by
  by_cases same : exchange.index = index
  · subst same
    have answer := truthful machine present
    refine ⟨(machine.call (fun _ => false) exchange.call).machine, ?_, ?_⟩
    · rw [told, Array.getElem?_modify, if_pos rfl, present]
      rfl
    · have whole : own exchange.index [exchange] = [exchange] := by simp [own]
      rw [whole]
      refine ⟨by simpa using plain, ?_, rfl⟩
      exact congrArg (fun answer => [answer]) answer
  · refine ⟨machine, ?_, ?_⟩
    · rw [told, Array.getElem?_modify, if_neg same, present]
    · have nothing : own index [exchange] = [] := by simp [own, same]
      rw [nothing]
      exact .nil machine

theorem act_account (wiring : Wiring) (network : Network) (act : Act) {index : Nat}
    {machine : Machine} (present : network.machines[index]? = some machine) :
    ∃ after, (network.act wiring act).network.machines[index]? = some after ∧
      Account (own index (network.act wiring act).trace) machine after := by
  obtain same | ⟨stepped, other, there, same⟩ | ⟨producer, consumer, values, -, taken, same⟩ :=
    act_cases wiring network act <;> rw [same]
  · exact ⟨machine, present, .nil machine⟩
  · have truthful : Exchange.Truthful network ⟨stepped, .step, .outcome other.step.answer⟩ := by
      intro asked found
      cases there.symm.trans found
      rfl
    exact told_account truthful rfl present
  · have taking : Exchange.Truthful network ⟨producer, .take, .values values⟩ := by
      intro asked found
      rw [found] at taken
      exact congrArg Answer.values taken
    have giving : Exchange.Truthful (network.told producer .take)
        ⟨consumer, .extend values, .done⟩ := fun _ _ => rfl
    obtain ⟨middle, atMiddle, first⟩ := told_account taking rfl present
    obtain ⟨after, atAfter, second⟩ := told_account giving rfl atMiddle
    exact ⟨after, atAfter, first.join second⟩

theorem acts_account (wiring : Wiring) (network : Network) (schedule : List Act) {index : Nat}
    {machine : Machine} (present : network.machines[index]? = some machine) :
    ∃ after, (network.acts wiring schedule).network.machines[index]? = some after ∧
      Account (own index (network.acts wiring schedule).trace) machine after := by
  induction schedule generalizing network machine with
  | nil => exact ⟨machine, present, .nil machine⟩
  | cons act rest ih =>
      obtain ⟨middle, atMiddle, first⟩ := act_account wiring network act present
      obtain ⟨after, atAfter, second⟩ := ih (network.act wiring act).network atMiddle
      exact ⟨after, atAfter, first.join second⟩

theorem acts_append_singleton (wiring : Wiring) (network : Network) (earlier : List Act) (act : Act) :
    (network.acts wiring (earlier ++ [act])).trace =
      (network.acts wiring earlier).trace ++ ((network.acts wiring earlier).network.act wiring act).trace := by
  induction earlier generalizing network with
  | nil => exact List.append_nil _
  | cons first rest ih => simp only [List.cons_append, acts, ih, List.append_assoc]

/-- No act gives something to a machine and lets one go on. -/
theorem act_silent (wiring : Wiring) (network : Network) (act : Act) :
    (∀ index, results index (network.act wiring act).trace = []) ∨
      (∀ index, delivered index (network.act wiring act).trace = []) := by
  obtain same | ⟨stepped, machine, -, same⟩ | ⟨producer, consumer, values, -, -, same⟩ :=
    act_cases wiring network act <;> rw [same]
  · exact .inl fun _ => rfl
  · exact .inr fun index => delivered_step index stepped machine.step.answer
  · exact .inl fun index => results_pipe index producer consumer values

section Wires

variable {wiring : Wiring} (network : Network) {producer consumer : Nat}

theorem delivered_act (wired : wiring.consumer? producer = some consumer) (act : Act) :
    delivered consumer (network.act wiring act).trace = sent producer (network.act wiring act).trace := by
  obtain same | ⟨stepped, machine, -, same⟩ | ⟨piped, other, values, wiredToo, -, same⟩ :=
    act_cases wiring network act <;> rw [same]
  · rfl
  · rw [delivered_step, sent_step]
  · have wires : piped = producer ↔ other = consumer := by
      constructor
      · rintro rfl
        exact Option.some.inj (wiredToo.symm.trans wired)
      · rintro rfl
        exact wiring.single wiredToo wired
    simp only [delivered_pipe, sent_pipe, wires]

/-- What is given to a machine is what is taken from the machine that feeds it. -/
theorem delivered_acts (wired : wiring.consumer? producer = some consumer) (schedule : List Act) :
    delivered consumer (network.acts wiring schedule).trace =
      sent producer (network.acts wiring schedule).trace := by
  induction schedule generalizing network with
  | nil => rfl
  | cons act rest ih =>
      simp only [acts, delivered_append, sent_append, network.delivered_act wired act, ih]

theorem delivered_act_of_unfed (unfed : ∀ producer, wiring.consumer? producer ≠ some consumer)
    (act : Act) : delivered consumer (network.act wiring act).trace = [] := by
  obtain same | ⟨stepped, machine, -, same⟩ | ⟨piped, other, values, wired, -, same⟩ :=
    act_cases wiring network act <;> rw [same]
  · rfl
  · exact delivered_step consumer stepped machine.step.answer
  · have different : other ≠ consumer := by
      rintro rfl
      exact unfed piped wired
    rw [delivered_pipe, if_neg different]

theorem delivered_acts_of_unfed (unfed : ∀ producer, wiring.consumer? producer ≠ some consumer)
    (schedule : List Act) : delivered consumer (network.acts wiring schedule).trace = [] := by
  induction schedule generalizing network with
  | nil => rfl
  | cons act rest ih =>
      simp only [acts, delivered_append, network.delivered_act_of_unfed unfed act, ih, List.append_nil]

end Wires

theorem act_of_absent {network : Network} (wiring : Wiring) {index : Nat}
    (absent : network.machines[index]? = none) (act : Act) :
    (network.act wiring act).network.machines[index]? = none ∧
      sent index (network.act wiring act).trace = [] := by
  obtain same | ⟨stepped, machine, -, same⟩ | ⟨producer, consumer, values, -, taken, same⟩ :=
    act_cases wiring network act <;> rw [same]
  · exact ⟨absent, rfl⟩
  · refine ⟨?_, sent_step index stepped machine.step.answer⟩
    simp [told, Array.getElem?_modify, absent]
  · refine ⟨?_, ?_⟩
    · simp [told, Array.getElem?_modify, absent]
    · rw [sent_pipe, ← taken]
      split
      · next same => rw [same, absent, Option.elim_none]
      · rfl

theorem sent_of_absent {network : Network} (wiring : Wiring) {index : Nat}
    (absent : network.machines[index]? = none) (schedule : List Act) :
    sent index (network.acts wiring schedule).trace = [] := by
  induction schedule generalizing network with
  | nil => rfl
  | cons act rest ih =>
      obtain ⟨absentToo, nothing⟩ := act_of_absent wiring absent act
      simp only [acts, sent_append, nothing, ih absentToo, List.append_nil]

section Accounts

variable {index : Nat} {trace : List Exchange} {before after : Machine}

theorem Account.plain_calls (account : Account (own index trace) before after) :
    ∀ call ∈ (own index trace).map (·.call), call.isPlain = true :=
  List.forall_mem_map.mpr account.plain

theorem Account.results_eq (account : Account (own index trace) before after) :
    (before.calls (fun _ => false) ((own index trace).map (·.call))).answer.filterMap Answer.result? =
      results index trace := by
  rw [account.answers, List.filterMap_map]
  rfl

theorem Account.sent_eq (account : Account (own index trace) before after) :
    (before.calls (fun _ => false) ((own index trace).map (·.call))).answer.flatMap Answer.collected =
      sent index trace := by
  rw [account.answers, List.flatMap_map]
  rfl

theorem delivered_eq (index : Nat) (trace : List Exchange) :
    ((own index trace).map (·.call)).flatMap Call.given = delivered index trace := by
  rw [List.flatMap_map]
  rfl

theorem Account.outputs (account : Account (own index trace) before after) :
    sent index trace ++ after.output.toList =
      before.output.toList ++ (results index trace).filterMap emission? := by
  have outputs := Machine.output_calls (fun _ => false) before account.plain_calls
  rwa [account.results_eq, account.sent_eq, account.reached] at outputs

theorem Account.inputs (account : Account (own index trace) before after) :
    ∃ taken, before.input ++ delivered index trace = taken ++ after.input := by
  have inputs := Machine.input_calls (fun _ => false) before account.plain_calls
  rwa [account.reached, delivered_eq] at inputs

theorem Account.compatible {left right : List Exchange} {here there : Machine}
    (leftAccount : Account (own index left) before here)
    (rightAccount : Account (own index right) before there)
    (given : Compatible (delivered index left) (delivered index right)) :
    Compatible (results index left) (results index right) ∧
      ((results index left).length = (results index right).length →
        Coincide (sent index left) (sent index right) here there) := by
  rw [← delivered_eq, ← delivered_eq] at given
  have compatible := before.compatible_of_given (fun _ => false) leftAccount.plain_calls
    rightAccount.plain_calls given
  have coincide := before.coincide_of_given (fun _ => false) leftAccount.plain_calls
    rightAccount.plain_calls given
  rw [leftAccount.results_eq, rightAccount.results_eq] at compatible coincide
  rw [leftAccount.sent_eq, rightAccount.sent_eq, leftAccount.reached, rightAccount.reached] at coincide
  exact ⟨compatible, coincide⟩

end Accounts

section Schedules

variable (wiring : Wiring) (network : Network)

theorem sent_within_outputs {index : Nat} {machine : Machine}
    (present : network.machines[index]? = some machine) (schedule : List Act) :
    sent index (network.acts wiring schedule).trace <+:
      machine.output.toList ++ (results index (network.acts wiring schedule).trace).filterMap emission? := by
  obtain ⟨after, -, account⟩ := acts_account wiring network schedule present
  exact ⟨after.output.toList, account.outputs⟩

theorem delivered_compatible {left right : List Act}
    (compatible : ∀ index machine, network.machines[index]? = some machine →
      Compatible (results index (network.acts wiring left).trace)
        (results index (network.acts wiring right).trace)) (index : Nat) :
    Compatible (delivered index (network.acts wiring left).trace)
      (delivered index (network.acts wiring right).trace) := by
  by_cases fed : ∃ producer, wiring.consumer? producer = some index
  · obtain ⟨producer, wired⟩ := fed
    rw [network.delivered_acts wired, network.delivered_acts wired]
    cases present : network.machines[producer]? with
    | none =>
        rw [sent_of_absent wiring present, sent_of_absent wiring present]
        exact .refl []
    | some machine =>
        have outputs := (compatible producer machine present).outputs machine.output.toList
        exact outputs.of_prefixes (sent_within_outputs wiring network present left)
          (sent_within_outputs wiring network present right)
  · have unfed := not_exists.mp fed
    rw [network.delivered_acts_of_unfed unfed, network.delivered_acts_of_unfed unfed]
    exact .refl []

theorem results_compatible (left right : List Act) (index : Nat) (machine : Machine)
    (present : network.machines[index]? = some machine) :
    Compatible (results index (network.acts wiring left).trace)
      (results index (network.acts wiring right).trace) := by
  -- The schedule on the right is complete from the start; the other one grows by one act.
  induction left using List.reverseRecOn generalizing index machine with
  | nil => exact .inl List.nil_prefix
  | append_singleton earlier act ih =>
      rcases act_silent wiring (network.acts wiring earlier).network act with resultless | inputless
      · rw [acts_append_singleton, results_append, resultless, List.append_nil]
        exact ih index machine present
      · have given : Compatible (delivered index (network.acts wiring (earlier ++ [act])).trace)
            (delivered index (network.acts wiring right).trace) := by
          rw [acts_append_singleton, delivered_append, inputless, List.append_nil]
          exact delivered_compatible wiring network ih index
        obtain ⟨here, -, leftAccount⟩ := acts_account wiring network (earlier ++ [act]) present
        obtain ⟨there, -, rightAccount⟩ := acts_account wiring network right present
        exact (leftAccount.compatible rightAccount given).1

/-- Every machine does the same in all schedules, as far as it comes, and no value that is
piped is lost, doubled or overtaken. -/
theorem schedule_irrelevant (left right : List Act) {index : Nat} {machine : Machine}
    (present : network.machines[index]? = some machine) :
    let leftCourse := network.acts wiring left
    let rightCourse := network.acts wiring right
    let leftResults := results index leftCourse.trace
    let rightResults := results index rightCourse.trace
    ∃ here there, leftCourse.network.machines[index]? = some here ∧
      rightCourse.network.machines[index]? = some there ∧
      Account (own index leftCourse.trace) machine here ∧
      Compatible leftResults rightResults ∧
      (leftResults.length = rightResults.length →
        Coincide (sent index leftCourse.trace) (sent index rightCourse.trace) here there) ∧
      (∀ consumer, wiring.consumer? index = some consumer →
        delivered consumer leftCourse.trace ++ here.output.toList =
          machine.output.toList ++ leftResults.filterMap emission?) ∧
      ∃ taken, machine.input ++ delivered index leftCourse.trace = taken ++ here.input := by
  obtain ⟨here, isHere, leftAccount⟩ := acts_account wiring network left present
  obtain ⟨there, isThere, rightAccount⟩ := acts_account wiring network right present
  have given := delivered_compatible wiring network (results_compatible wiring network left right) index
  obtain ⟨compatible, coincide⟩ := leftAccount.compatible rightAccount given
  refine ⟨here, there, isHere, isThere, leftAccount, compatible, coincide, ?_, leftAccount.inputs⟩
  intro consumer wired
  rw [network.delivered_acts wired]
  exact leftAccount.outputs

end Schedules

/-- Two machines feed each other, and in one schedule both have to wait for an input. -/
theorem schedule_irrelevant_circle :
    let wiring : Wiring := ⟨fun index => if index < 2 then some (1 - index) else none, by grind⟩
    let echo : List Int := [3, 0, 4, 0, 3, 0, 4, 0, 99]
    let network : Network := ⟨#[(Machine.load .dense 0 echo).extend [7], Machine.load .sparse 1 echo]⟩
    let left := network.acts wiring [.step 0, .step 0, .pipe 0, .step 1, .step 1, .pipe 1, .step 0]
    let right := network.acts wiring
      [.step 1, .step 0, .pipe 0, .step 0, .step 0, .pipe 0, .step 1, .step 1, .pipe 1, .step 0]
    (results 0 left.trace).length = 3 ∧ (results 0 right.trace).length = 3 ∧
      delivered 1 left.trace = [7] ∧ delivered 0 left.trace = [7] ∧
      ∃ here there, left.network.machines[0]? = some here ∧ right.network.machines[0]? = some there ∧
        Coincide (sent 0 left.trace) (sent 0 right.trace) here there := by
  intro wiring echo network left right
  have leftLength : (results 0 left.trace).length = 3 := by decide +kernel
  have rightLength : (results 0 right.trace).length = 3 := by decide +kernel
  obtain ⟨here, there, isHere, isThere, -, -, coincide, -, -⟩ := schedule_irrelevant wiring network
    [.step 0, .step 0, .pipe 0, .step 1, .step 1, .pipe 1, .step 0]
    [.step 1, .step 0, .pipe 0, .step 0, .step 0, .pipe 0, .step 1, .step 1, .pipe 1, .step 0]
    (rfl : network.machines[0]? = some ((Machine.load .dense 0 echo).extend [7]))
  exact ⟨leftLength, rightLength, by decide +kernel, by decide +kernel, here, there, isHere, isThere,
    coincide (leftLength.trans rightLength.symm)⟩

end Intcode.Network
