import Mathlib.Data.List.Forall2
import Intcode.Proofs.Rounds
import Intcode.Proofs.Slicing

/-! Inputs from lines, and the same inputs given beforehand.

A session that reads lines stops its machine whenever an input is missing. Beside it runs a
machine that has had all inputs from the start and does not stop there. Both make the same
steps, so the second one is at the head of every round where the first one is, with the same
budget left, and it halts within its budget exactly if the session comes to its end.
-/

namespace Intcode

namespace Machine

variable {before waiting : List Int} {slow eager : Machine}

theorem Reply.stop?_congr {left right : Reply (Except Fault Outcome)}
    (same : left.answer = right.answer) : left.stop? = right.stop? := by
  rw [Reply.stop?, Reply.stop?, same]

theorem Reply.stop?_eq_awaiting_iff {reply : Reply (Except Fault Outcome)} :
    reply.stop? = some (.ok .awaitingInput) ↔ reply.answer = .ok .awaitingInput := by
  unfold Reply.stop?
  split <;> simp_all

theorem steps_of_awaiting {machine : Machine} (awaits : machine.step.answer = .ok .awaitingInput) :
    machine.step.machine.state.steps = machine.state.steps := by
  have going : machine.final? = none := by
    cases final : machine.final? with
    | none => rfl
    | some answer =>
        rw [step_eq, final] at awaits
        exact absurd awaits (final?_ne_awaiting final)
  rw [steps_step going, Reply.completes, awaits]
  rfl

theorem steps_of_goes {machine : Machine} (continues : machine.step.stop? = none) :
    machine.step.machine.state.steps = machine.state.steps + 1 := by
  have going : machine.final? = none := by
    cases final : machine.final? with
    | none => rfl
    | some answer =>
        rw [stop?_of_final final] at continues
        cases continues
  rw [steps_step going, (Reply.completes_of_goes continues).1]
  rfl

section Drive

variable {watched : Event → Bool} {budget : Nat} {kept : Array Event} (other : Event → Bool)
  (further : Array Event)

/-- A run that lacks no input is the same with all inputs given beforehand. -/
theorem Ahead.drive_of_answered (ahead : Ahead before waiting slow eager)
    (answered : (slow.drive watched budget kept).answer ≠ some (.ok .awaitingInput)) :
    (eager.drive other budget further).answer = (slow.drive watched budget kept).answer ∧
      Ahead before waiting (slow.drive watched budget kept).machine
        (eager.drive other budget further).machine := by
  induction budget generalizing slow eager kept further with
  | zero => exact ⟨rfl, ahead⟩
  | succ budget ih =>
      rcases ahead.step with ⟨suspended, -⟩ | ⟨-, same, next⟩
      · rw [drive_of_stop watched (Reply.stop?_eq_awaiting_iff.mpr suspended)] at answered
        contradiction
      · have stops := Reply.stop?_congr same
        cases stopped : slow.step.stop? with
        | some ending =>
            rw [drive_of_stop watched stopped, drive_of_stop other (stops.trans stopped)]
            exact ⟨rfl, next⟩
        | none =>
            rw [drive_of_goes watched stopped] at answered
            rw [drive_of_goes watched stopped, drive_of_goes other (stops.trans stopped)]
            exact ih _ next answered

/-- Up to the place where a run lacks an input, both machines have made the same steps. -/
theorem Ahead.drive_of_awaiting (ahead : Ahead before waiting slow eager)
    (awaits : (slow.drive watched budget kept).answer = some (.ok .awaitingInput)) :
    ∃ spent rest, spent + rest = budget ∧
      (slow.drive watched budget kept).machine.state.steps = slow.state.steps + spent ∧
      (eager.drive other spent further).answer = none ∧
      Ahead before waiting (slow.drive watched budget kept).machine
        (eager.drive other spent further).machine := by
  induction budget generalizing slow eager kept further with
  | zero => cases awaits
  | succ budget ih =>
      rcases ahead.step with ⟨suspended, next⟩ | ⟨completed, same, next⟩
      · rw [drive_of_stop watched (Reply.stop?_eq_awaiting_iff.mpr suspended)]
        exact ⟨0, budget + 1, Nat.zero_add _, steps_of_awaiting suspended, rfl, next⟩
      · cases stopped : slow.step.stop? with
        | some ending =>
            rw [drive_of_stop watched stopped] at awaits
            cases awaits
            exact absurd (Reply.stop?_eq_awaiting_iff.mp stopped) completed
        | none =>
            have continues : eager.step.stop? = none := (Reply.stop?_congr same).trans stopped
            rw [drive_of_goes watched stopped] at awaits ⊢
            obtain ⟨spent, rest, total, steps, unfinished, reached⟩ := ih
              (further ++ eager.step.log.filter other) next awaits
            refine ⟨spent + 1, rest, by omega, ?_, ?_, ?_⟩
            · rw [steps, steps_of_goes stopped]
              omega
            · rw [drive_of_goes other continues]
              exact unfinished
            · rw [drive_of_goes other continues]
              exact reached

end Drive

/-- With no more inputs to come, a machine that waits does so in every frame. -/
theorem answer_step_framed (machine : Machine) (before : List Int) :
    (machine.framed before []).step.answer = machine.step.answer := by
  have final : (machine.framed before []).final? = machine.final? := rfl
  have view : (machine.framed before []).view = machine.view := by
    simp only [Machine.view, framed, List.append_nil]
  cases stopped : machine.final? with
  | some answer => rw [step_eq machine, step_eq (machine.framed before []), final, stopped]
  | none =>
      cases failed : firstFault? machine.view.checks with
      | some fault =>
          rw [step_of_fault stopped failed, step_of_fault (final.trans stopped) (view ▸ failed)]
          rfl
      | none =>
          rw [step_of_action stopped failed, step_of_action (final.trans stopped) (view ▸ failed),
            answer_enact, answer_enact, view]
          rfl

theorem Ahead.starved {other : Event → Bool} {budget : Nat} {kept : Array Event}
    (ahead : Ahead before [] slow eager) (awaits : slow.step.answer = .ok .awaitingInput) :
    (eager.drive other budget kept).answer ≠ some (.ok .halted) := by
  have same : eager.step.answer = .ok .awaitingInput := by
    rw [← step_awake eager, ahead, ← framed_awake, step_awake, answer_step_framed, awaits]
  cases budget with
  | zero => nofun
  | succ budget =>
      rw [drive_of_stop other (Reply.stop?_eq_awaiting_iff.mpr same)]
      nofun

theorem awaiting_again {machine : Machine} {watched : Event → Bool} {budget : Nat}
    {kept : Array Event}
    (awaits : (machine.drive watched budget kept).answer = some (.ok .awaitingInput)) :
    (machine.drive watched budget kept).machine.step.answer = .ok .awaitingInput := by
  have again := (drive_again awaits 0 #[]).1
  rw [← Reply.stop?_eq_awaiting_iff]
  cases stopped : (machine.drive watched budget kept).machine.step.stop? with
  | some ending =>
      rw [drive_of_stop watched stopped] at again
      exact again
  | none =>
      rw [drive_of_goes watched stopped] at again
      cases again

end Machine

namespace CommandLine

open Machine (Ahead)

namespace Session

/-- The run of the machine in the round that begins here. -/
def driven (session : Session) : Machine.Reply (Option (Except Fault Status)) :=
  session.machine.drive (Event.enabled session.options.logger) session.remaining #[]

/-- The session after the round that begins here, when the outputs have been collected. -/
def rested (session : Session) : Session where
  options := session.options
  machine := { session.driven.machine with output := #[] }
  remaining := session.remaining - (session.driven.machine.state.steps - session.machine.state.steps)

variable {session : Session}

theorem turn_of_halted (halted : session.driven.answer = some (.ok .halted)) :
    ∃ records, session.turn =
      ⟨session.rested, session.driven.machine.output.toList, records, .nothing⟩ := by
  rw [driven] at halted
  simp only [turn, Machine.runFor, halted, Option.getD_some]
  exact ⟨_, rfl⟩

theorem turn_of_awaiting (awaits : session.driven.answer = some (.ok .awaitingInput)) :
    ∃ records, session.turn =
      ⟨session.rested, session.driven.machine.output.toList, records,
        if session.options.interactive then .line
        else .surrender (.inputExhausted session.driven.machine.state.ip)⟩ := by
  rw [driven] at awaits
  simp only [turn, Machine.runFor, awaits, Option.getD_some]
  split <;> exact ⟨_, rfl⟩

theorem turn_of_failed {fault : Fault} (failed : session.driven.answer = some (.error fault)) :
    session.turn.demand = .surrender (.faulted fault) := by
  rw [driven] at failed
  simp only [turn, Machine.runFor, failed, Option.getD_some]

theorem Sound.turn_of_spent (sound : session.Sound) (spent : session.driven.answer = none) :
    session.turn.demand = .surrender (.stepLimit session.options.maxSteps) := by
  have ran := Machine.drive_ran (Event.enabled session.options.logger) session.remaining
    session.machine #[] (Machine.final?_of_not_terminated sound.going)
  rw [driven] at spent
  rw [spent] at ran
  obtain ⟨-, steps, ends⟩ := ran
  cases ends with
  | spent exact goesOn status =>
      rw [exact] at steps
      have nothingLeft : ∀ before, session.remaining - (before + session.remaining - before) = 0 := by
        omega
      rcases sound.status_of_spent status with status | status <;>
        simp only [turn, Machine.runFor, spent, Option.getD_none, Machine.take, status, steps,
          nothingLeft, if_true]

theorem Sound.turn_of_other (sound : session.Sound)
    (notHalted : session.driven.answer ≠ some (.ok .halted))
    (notAwaiting : session.driven.answer ≠ some (.ok .awaitingInput)) :
    ∃ cause, session.turn.demand = .surrender cause := by
  cases answer : session.driven.answer with
  | none => exact ⟨_, sound.turn_of_spent answer⟩
  | some ending =>
      cases Machine.stops_of_drive answer with
      | failed fault => exact ⟨_, turn_of_failed answer⟩
      | halted => contradiction
      | starved => contradiction

theorem Turns.sound_of_line {round : Round} (turns : session.Turns round)
    (asks : round.demand = .line) : round.session.Sound := by
  cases turns with
  | starved continues _ => exact continues.sound
  | _ => contradiction

theorem playFor_of_surrender {cause : Failure} (gaveUp : session.turn.demand = .surrender cause)
    (rounds : Nat) (lines : List (Except ReadError String)) :
    (session.playFor (rounds + 1) lines).ending = .failed cause := by
  simp only [playFor, gaveUp]
  rfl

end Session

/-- A transcript that ends as a run of a machine does, if the program halts: the values are those
that the machine has put out, less some that were written before, and the dump shows its
memory. -/
structure HaltsAs (options : Options) (before : List Int)
    (driven : Machine.Reply (Option (Except Fault Status))) (transcript : Transcript) : Prop where
  ending : transcript.ending = .halted ↔ driven.answer = some (.ok .halted)
  values : transcript.ending = .halted → before ++ transcript.values = driven.machine.output.toList
  dump : transcript.ending = .halted →
    transcript.dump = Session.dump ⟨options, driven.machine, 0⟩

variable {options : Options} {before waiting : List Int} {transcript : Transcript}
  {driven ahead : Machine.Reply (Option (Except Fault Status))}

theorem HaltsAs.of_failed {cause : Failure} (failed : transcript.ending = .failed cause)
    (goesOn : driven.answer ≠ some (.ok .halted)) : HaltsAs options before driven transcript := by
  have notHalted : transcript.ending ≠ .halted := by
    rw [failed]
    nofun
  exact ⟨iff_of_false notHalted goesOn, fun halted => absurd halted notHalted,
    fun halted => absurd halted notHalted⟩

theorem HaltsAs.of_ahead (halts : HaltsAs options [] driven transcript)
    (answer : ahead.answer = driven.answer)
    (reached : Ahead before waiting driven.machine ahead.machine) :
    HaltsAs options before ahead transcript := by
  have abreast := reached.abreast
  refine ⟨?_, ?_, ?_⟩
  · rw [halts.ending, answer]
  · intro halted
    rw [abreast.output, ← halts.values halted, List.nil_append]
  · intro halted
    rw [halts.dump halted]
    simp only [Session.dump, abreast.memory]

theorem HaltsAs.after {values : List Int} (halts : HaltsAs options (before ++ values) driven transcript)
    (records : List Log.Record) : HaltsAs options before driven (transcript.after values records) where
  ending := halts.ending
  values halted := (List.append_assoc _ _ _).symm.trans (halts.values halted)
  dump := halts.dump

theorem HaltsAs.reported (halts : HaltsAs options before driven transcript)
    (records : List Log.Record) : HaltsAs options before driven (transcript.after [] records) :=
  ⟨halts.ending, halts.values, halts.dump⟩

namespace Session

variable {session : Session}

/-- A round that asks for no line is the last one. -/
theorem Sound.last_round (sound : session.Sound) (settled : session.turn.demand ≠ .line)
    (rounds : Nat) (lines : List (Except ReadError String)) :
    HaltsAs session.options [] session.driven (session.playFor (rounds + 1) lines) := by
  by_cases halted : session.driven.answer = some (.ok .halted)
  · obtain ⟨records, turned⟩ := turn_of_halted halted
    simp only [playFor, turned]
    exact ⟨iff_of_true rfl halted, fun _ => List.append_nil _, fun _ => rfl⟩
  · by_cases awaits : session.driven.answer = some (.ok .awaitingInput)
    · obtain ⟨records, turned⟩ := turn_of_awaiting awaits
      cases interactive : session.options.interactive with
      | true =>
          rw [turned, interactive] at settled
          contradiction
      | false =>
          have gaveUp : session.turn.demand =
              .surrender (.inputExhausted session.driven.machine.state.ip) := by
            rw [turned, interactive]
            rfl
          exact .of_failed (playFor_of_surrender gaveUp rounds lines) halted
    · obtain ⟨cause, gaveUp⟩ := sound.turn_of_other halted awaits
      exact .of_failed (playFor_of_surrender gaveUp rounds lines) halted

theorem demand_ne_line (answered : session.driven.answer ≠ some (.ok .awaitingInput))
    (sound : session.Sound) : session.turn.demand ≠ .line := by
  by_cases halted : session.driven.answer = some (.ok .halted)
  · obtain ⟨records, turned⟩ := turn_of_halted halted
    rw [turned]
    nofun
  · obtain ⟨cause, gaveUp⟩ := sound.turn_of_other halted answered
    rw [gaveUp]
    nofun

theorem turn_of_line (interactive : session.options.interactive = true)
    (awaits : session.driven.answer = some (.ok .awaitingInput)) :
    ∃ records, session.turn =
      ⟨session.rested, session.driven.machine.output.toList, records, .line⟩ := by
  obtain ⟨records, turned⟩ := turn_of_awaiting awaits
  rw [interactive] at turned
  exact ⟨records, turned⟩

/-- The session after the round that begins here, with the inputs of the next line. -/
def given (session : Session) (values : List Int) : Session :=
  { session.rested with machine := session.rested.machine.extend values }

theorem feed_of_parsed {line : String} {values : List Int} (parsed : Listing.parse line = .ok values) :
    session.rested.feed (some (.ok line)) = .ok (session.given values) := by
  simp only [feed, parsed]
  rfl

section Line

variable (interactive : session.options.interactive = true)
  (awaits : session.driven.answer = some (.ok .awaitingInput))
include interactive awaits

theorem playFor_of_line {line : String} {values : List Int}
    (parsed : Listing.parse line = .ok values) (rounds : Nat)
    (lines : List (Except ReadError String)) :
    ∃ records, session.playFor (rounds + 1) (.ok line :: lines) =
      ((session.given values).playFor rounds lines).after session.driven.machine.output.toList
        records := by
  obtain ⟨records, turned⟩ := turn_of_line interactive awaits
  simp only [playFor, turned, List.head?_cons, List.tail_cons, feed_of_parsed parsed]
  exact ⟨records, rfl⟩

theorem playFor_of_closed (rounds : Nat) :
    (session.playFor (rounds + 1) []).ending = .failed .inputClosed := by
  obtain ⟨records, turned⟩ := turn_of_line interactive awaits
  simp only [playFor, turned]
  rfl

theorem Sound.given (sound : session.Sound) (values : List Int) : (session.given values).Sound := by
  obtain ⟨records, turned⟩ := turn_of_line interactive awaits
  have rested := sound.turns.sound_of_line
  rw [turned] at rested
  obtain ⟨balance, going, hopeful, drained⟩ := rested rfl
  exact ⟨balance, going, hopeful, drained⟩

end Line

theorem ahead_given {waiting values : List Int} {eager : Machine}
    (reached : Ahead before (values ++ waiting) session.driven.machine eager) :
    Ahead (before ++ session.driven.machine.output.toList) waiting
      (session.given values).machine eager := by
  have outputs : (before ++ session.driven.machine.output.toList).toArray ++ #[] =
      before.toArray ++ session.driven.machine.output := by simp
  exact reached.requeue (List.append_assoc _ _ _) outputs

/-- A session that reads its inputs from lines halts as the machine does that has had them from
the start. -/
theorem Sound.halts_as (other : Event → Bool) (further : Array Event) {eager : Machine}
    {lines : List String} {inputs : List (List Int)} {rounds : Nat} (sound : session.Sound)
    (interactive : session.options.interactive = true)
    (read : List.Forall₂ (fun line values => Listing.parse line = .ok values) lines inputs)
    (ahead : Ahead before inputs.flatten session.machine eager) (enough : lines.length < rounds) :
    HaltsAs session.options before (eager.drive other session.remaining further)
      (session.playFor rounds (lines.map .ok)) := by
  -- Over the lines: a round that takes one leaves the machines abreast again.
  induction read generalizing session before eager further rounds with
  | nil =>
      cases rounds with
      | zero => contradiction
      | succ rounds =>
          by_cases awaits : session.driven.answer = some (.ok .awaitingInput)
          · obtain ⟨spent, rest, total, -, unfinished, reached⟩ :=
              ahead.drive_of_awaiting other further awaits
            rw [← total, Machine.drive_add_of_spent unfinished]
            exact .of_failed (playFor_of_closed interactive awaits rounds)
              (reached.starved (Machine.awaiting_again awaits))
          · obtain ⟨answer, reached⟩ := ahead.drive_of_answered other further awaits
            exact (sound.last_round (demand_ne_line awaits sound) rounds _).of_ahead answer reached
  | @cons line values lines inputs parsed read ih =>
      cases rounds with
      | zero => contradiction
      | succ rounds =>
          by_cases awaits : session.driven.answer = some (.ok .awaitingInput)
          · obtain ⟨spent, rest, total, steps, unfinished, reached⟩ :=
              ahead.drive_of_awaiting other further awaits
            obtain ⟨records, played⟩ :=
              playFor_of_line interactive awaits parsed rounds (lines.map .ok)
            have remaining : (session.given values).remaining = rest := by
              have made : session.driven.machine.state.steps = session.machine.state.steps + spent := steps
              simp only [Session.given, rested, made]
              omega
            have later : HaltsAs session.options (before ++ session.driven.machine.output.toList)
                ((eager.drive other spent further).machine.drive other (session.given values).remaining
                  (eager.drive other spent further).log.toArray)
                ((session.given values).playFor rounds (lines.map .ok)) :=
              ih _ (sound.given interactive awaits values) interactive (ahead_given reached)
                (Nat.lt_of_succ_lt_succ enough)
            rw [remaining, ← Machine.drive_add_of_spent unfinished, total] at later
            rw [List.map_cons, played]
            exact later.after records
          · obtain ⟨answer, reached⟩ := ahead.drive_of_answered other further awaits
            exact (sound.last_round (demand_ne_line awaits sound) rounds _).of_ahead answer reached

theorem Sound.asks_no_line (sound : session.Sound) (direct : session.options.interactive = false) :
    session.turn.demand ≠ .line := by
  by_cases awaits : session.driven.answer = some (.ok .awaitingInput)
  · obtain ⟨records, turned⟩ := turn_of_awaiting awaits
    rw [turned, direct]
    nofun
  · exact demand_ne_line awaits sound

theorem opening_halts_as {reading supplied : Options} {lines : List String}
    {inputs : List (List Int)} (interactive : reading.interactive = true)
    (sparse : reading.sparse = supplied.sparse) (limit : reading.maxSteps = supplied.maxSteps)
    (read : List.Forall₂ (fun line values => Listing.parse line = .ok values) lines inputs)
    (program values : List Int) :
    HaltsAs reading [] (opening supplied program (values ++ inputs.flatten)).driven
      ((opening reading program values).play (lines.map .ok)) := by
  have kind : reading.kind = supplied.kind := by simp only [Options.kind, sparse]
  have ahead : Ahead [] inputs.flatten (opening reading program values).machine
      (opening supplied program (values ++ inputs.flatten)).machine := by
    simp only [opening, kind]
    rfl
  have enough : lines.length < (lines.map (.ok : String → Except ReadError String)).length + 1 := by
    rw [List.length_map]
    exact Nat.lt_succ_self _
  have halts := (sound_opening reading program values).halts_as (Event.enabled supplied.logger) #[]
    interactive read ahead enough
  have remaining : (opening reading program values).remaining = supplied.maxSteps := limit
  rw [remaining] at halts
  exact halts

end Session

theorem Transcript.exitCode_eq_zero_iff (transcript : Transcript) :
    transcript.exitCode = 0 ↔ transcript.ending = .halted := by
  unfold exitCode
  cases transcript.ending <;> simp

theorem HaltsAs.agree {other : Options} {another : Transcript}
    (halts : HaltsAs options before driven transcript)
    (haltsToo : HaltsAs other before driven another)
    (sparse : options.sparse = other.sparse) (dumps : options.dumpMemory = other.dumpMemory) :
    (transcript.exitCode = 0 ↔ another.exitCode = 0) ∧
      (transcript.exitCode = 0 → transcript.output = another.output) := by
  have together : transcript.ending = .halted ↔ another.ending = .halted :=
    halts.ending.trans haltsToo.ending.symm
  rw [transcript.exitCode_eq_zero_iff, another.exitCode_eq_zero_iff]
  refine ⟨together, ?_⟩
  intro halted
  have values : transcript.values = another.values := List.append_cancel_left
    ((halts.values halted).trans (haltsToo.values (together.mp halted)).symm)
  have shown : transcript.dump = another.dump := by
    rw [halts.dump halted, haltsToo.dump (together.mp halted)]
    simp only [Session.dump, sparse, dumps]
  simp only [Transcript.output, values, shown]

/-- A program that cannot be loaded is not run. -/
theorem exitCode_of_unloaded {text : Except ReadError String}
    (unloaded : ∀ source program, text = .ok source → Listing.parse source ≠ .ok program)
    (options : Options) (lines : List (Except ReadError String)) :
    (run options text lines).exitCode ≠ 0 := by
  rw [Ne, Transcript.exitCode_eq_zero_iff]
  intro halted
  cases text with
  | error cause => cases halted
  | ok source =>
      cases parsed : Listing.parse source with
      | ok program => exact absurd parsed (unloaded source program rfl)
      | error error =>
          simp only [run, Session.start, parsed] at halted
          cases halted

/-- Inputs read from lines and the same inputs given beforehand lead to the same end: the
program halts with both or with neither, and then the same is written. -/
theorem interactive_as_given {reading supplied : Options}
    (interactive : reading.interactive = true) (direct : supplied.interactive = false)
    (sparse : reading.sparse = supplied.sparse) (limit : reading.maxSteps = supplied.maxSteps)
    (dumps : reading.dumpMemory = supplied.dumpMemory) {values : List Int} {lines : List String}
    {inputs : List (List Int)} (given : Listing.parse reading.inputText = .ok values)
    (read : List.Forall₂ (fun line values => Listing.parse line = .ok values) lines inputs)
    (whole : Listing.parse supplied.inputText = .ok (values ++ inputs.flatten))
    (text : Except ReadError String) (unread : List (Except ReadError String)) :
    let played := run reading text (lines.map .ok)
    let ran := run supplied text unread
    (played.exitCode = 0 ↔ ran.exitCode = 0) ∧
      (played.exitCode = 0 → played.output = ran.output) := by
  intro played ran
  by_cases loaded : ∃ source program, text = .ok source ∧ Listing.parse source = .ok program
  · obtain ⟨source, program, rfl, parsed⟩ := loaded
    have reads := Session.opening_halts_as interactive sparse limit read program values
    have sound := Session.sound_opening supplied program (values ++ inputs.flatten)
    have runs := sound.last_round (sound.asks_no_line direct) unread.length unread
    obtain ⟨records, playedAs⟩ := run_of_parsed parsed given (lines.map .ok)
    obtain ⟨furtherRecords, ranAs⟩ := run_of_parsed parsed whole unread
    simp only [played, ran, playedAs, ranAs]
    exact (reads.reported records).agree (runs.reported furtherRecords) sparse dumps
  · have unloaded : ∀ source program, text = .ok source → Listing.parse source ≠ .ok program :=
      fun source program found parsed => loaded ⟨source, program, found, parsed⟩
    have failed := exitCode_of_unloaded unloaded reading (lines.map .ok)
    have failedToo := exitCode_of_unloaded unloaded supplied unread
    exact ⟨iff_of_false failed failedToo, fun halted => absurd halted failed⟩

/-- The sum of two inputs: the first is given beforehand, a blank line brings none, the next line
brings one more than is needed, and the last one is not read. -/
theorem interactive_as_given_sum :
    let reading : Options := ⟨"sum", ["2"], true, 5, false, true, none, "off"⟩
    let supplied : Options := ⟨"sum", ["2", "5", "6", "7"], false, 5, false, true, none, "off"⟩
    let text := "3,11,3,12,1,11,12,13,4,13,99"
    let played := run reading (.ok text) [.ok " ", .ok "5, 6", .ok "7,"]
    let direct := run supplied (.ok text) []
    Listing.parse reading.inputText = .ok [2] ∧
      Listing.parse supplied.inputText = .ok ([2] ++ [[], [5, 6], [7]].flatten) ∧
      played.exitCode = 0 ∧ direct.exitCode = 0 ∧ played.output = direct.output := by
  intro reading supplied text played direct
  have given : Listing.parse reading.inputText = .ok [2] := by
    rw [show reading.inputText = "2" from rfl]
    rfl
  have whole : Listing.parse supplied.inputText = .ok ([2] ++ [[], [5, 6], [7]].flatten) := by
    rw [show supplied.inputText = "2,5,6,7" from rfl]
    rfl
  have read : List.Forall₂ (fun line values => Listing.parse line = .ok values)
      [" ", "5, 6", "7,"] [[], [5, 6], [7]] := .cons rfl (.cons rfl (.cons rfl .nil))
  obtain ⟨together, same⟩ :=
    @interactive_as_given reading supplied rfl rfl rfl rfl rfl _ _ _ given read whole (.ok text) []
  have halts : played.exitCode = 0 := by decide +kernel
  exact ⟨given, whole, halts, together.mp halts, same halts⟩

end CommandLine

end Intcode
