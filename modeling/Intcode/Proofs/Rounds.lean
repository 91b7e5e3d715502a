import Intcode.CommandLine.Session
import Intcode.Proofs.Runs

/-! The rounds of a session.

`Session.heads` lists the sessions at the heads of the rounds, each with the lines that are
still there. A session is `Sound` at every head: what it may still spend and what it has
spent add up to the limit, its machine is going, and nothing waits to be written. From that
a round is either the last one, and `Concludes` says in which ways, or it took a line and
`Continues`. `Session.Plays` is the whole session put together from such rounds, without a
bound on their number.
-/

namespace Intcode.CommandLine

namespace Session

/-- The replies to the steps of the round that begins here. -/
def replies (session : Session) : List (Machine.Reply (Except Fault Machine.Outcome)) :=
  session.machine.trace session.remaining

/-- The number of instructions completed in the round that begins here. -/
def made (session : Session) : Nat :=
  session.machine.made session.remaining

/-- The values put out in the round that begins here. -/
def emissions (session : Session) : List Int :=
  session.machine.emissions session.remaining

structure Sound (session : Session) : Prop where
  balance : session.remaining + session.machine.state.steps = session.options.maxSteps
  going : session.machine.state.isTerminated = false
  hopeful : session.remaining = 0 → session.machine.state.status ≠ .awaitingInput
  drained : session.machine.output = #[]

variable {session : Session}

theorem Sound.feed {line : Option (Except ReadError String)} {fed : Session}
    (sound : session.Sound) (accepted : session.feed line = .ok fed) :
    line ≠ none ∧ fed.Sound ∧ fed.options = session.options ∧ fed.remaining = session.remaining := by
  unfold Session.feed at accepted
  split at accepted
  · cases accepted
  · cases accepted
  · split at accepted
    · cases accepted
    · cases accepted
      exact ⟨nofun, ⟨sound.balance, sound.going, sound.hopeful, sound.drained⟩, rfl, rfl⟩

/-- What cannot be read is neither a fault of the program nor its step limit. -/
theorem feed_refused {line : Option (Except ReadError String)} {cause : Failure}
    (refused : session.feed line = .error cause) :
    (∀ limit, cause ≠ .stepLimit limit) ∧ ∀ fault, cause ≠ .faulted fault := by
  unfold Session.feed at refused
  split at refused
  · cases refused
    exact ⟨nofun, nofun⟩
  · cases refused
    exact ⟨nofun, nofun⟩
  · split at refused
    · cases refused
      exact ⟨nofun, nofun⟩
    · cases refused

/-- The machine lacked an input; the next round spends what this one has left. -/
structure Continues (session next : Session) : Prop where
  short : session.made < session.remaining
  goesOn : ∀ reply ∈ session.replies, reply.GoesOn
  sound : next.Sound
  options : next.options = session.options
  remaining : next.remaining + session.made = session.remaining

inductive Turns (session : Session) : Round → Prop where
  | failed {next : Session} {records : List Log.Record} {fault : Fault}
      (short : session.made < session.remaining)
      (reported : ∃ reply ∈ session.replies, reply.answer = .error fault) :
      Turns session ⟨next, [], records, .surrender (.faulted fault)⟩
  | halted {next : Session} {records : List Log.Record} (within : session.made ≤ session.remaining)
      (reported : ∃ reply ∈ session.replies, reply.answer = .ok .halted) :
      Turns session ⟨next, session.emissions, records, .nothing⟩
  | starved {next : Session} {records : List Log.Record} {demand : Demand}
      (continues : session.Continues next)
      (asks : demand = .line ∨ demand = .surrender (.inputExhausted next.machine.state.ip)) :
      Turns session ⟨next, session.emissions, records, demand⟩
  | spent {next : Session} {records : List Log.Record} (exact : session.made = session.remaining)
      (goesOn : ∀ reply ∈ session.replies, reply.GoesOn) :
      Turns session
        ⟨next, session.emissions, records, .surrender (.stepLimit session.options.maxSteps)⟩

/-- Without a step the machine stays as it was, and that is as it was loaded. -/
theorem Sound.status_of_spent {after : Machine} (sound : session.Sound)
    (status : after.state.status = .running ∨ session.remaining = 0 ∧ after = session.machine) :
    after.state.status = .running ∨ after.state.status = .ready := by
  rcases status with running | ⟨nothing, rfl⟩
  · exact .inl running
  · have going := sound.going
    have hopeful := sound.hopeful nothing
    rw [State.isTerminated] at going
    cases status : session.machine.state.status with
    | ready => exact .inr rfl
    | running => exact .inl rfl
    | awaitingInput => contradiction
    | halted | faulted =>
        rw [status] at going
        contradiction

theorem Sound.turns (sound : session.Sound) : session.Turns session.turn := by
  have ran := session.machine.runFor_ran (Event.enabled session.options.logger) session.remaining
    (Machine.final?_of_not_terminated sound.going)
  simp only [Session.turn]
  generalize session.machine.runFor (Event.enabled session.options.logger) session.remaining =
    reply at ran ⊢
  obtain ⟨ending, ⟨output, steps, ends⟩, answer⟩ := ran
  rw [sound.drained, Array.toList_empty, List.nil_append] at output
  have balance := sound.balance
  cases ends with
  | failed short reported =>
      simp only [answer, Option.getD_some]
      exact .failed short reported
  | halted within reported =>
      simp only [answer, Option.getD_some, Machine.take, output]
      exact .halted within reported
  | starved short goesOn status =>
      simp only [answer, Option.getD_some, Machine.take, output]
      have continues : session.Continues ⟨session.options, { reply.machine with output := #[] },
          session.remaining - (reply.machine.state.steps - session.machine.state.steps)⟩ := by
        refine ⟨short, goesOn, ⟨?_, ?_, ?_, rfl⟩, rfl, ?_⟩
        · simp only
          omega
        · simp only [State.isTerminated, status]
          rfl
        · -- A run that lacks an input has not completed as many steps as it was allowed.
          intro nothing
          simp only at nothing
          omega
        · simp only [made]
          omega
      split
      · exact .starved continues (.inl rfl)
      · exact .starved continues (.inr rfl)
  | spent exact goesOn status =>
      -- All of the budget is gone, so the round cannot ask for another one without a line.
      have nothing : session.remaining - (reply.machine.state.steps - session.machine.state.steps) = 0 := by
        omega
      simp only [answer, Option.getD_none, Machine.take, output, nothing, if_true]
      rcases sound.status_of_spent status with running | ready
      · rw [running]
        exact .spent exact goesOn
      · rw [ready]
        exact .spent exact goesOn

theorem Sound.demand_ne_round (sound : session.Sound) : session.turn.demand ≠ .round := by
  have turns := sound.turns
  generalize session.turn = round at turns
  cases turns with
  | starved continues asks => rcases asks with rfl | rfl <;> nofun
  | _ => nofun

end Session

/-- A session at the head of a round, with the lines that are left. -/
structure Head where
  session : Session
  lines : List (Except ReadError String)

namespace Session

/-- The heads of the rounds, if there are at most `rounds`. -/
def heads : Nat → Session → List (Except ReadError String) → List Head
  | 0, _, _ => []
  | rounds + 1, session, lines =>
      ⟨session, lines⟩ ::
        match session.turn.demand with
        | .line =>
            match session.turn.session.feed lines.head? with
            | .error _ => []
            | .ok fed => fed.heads rounds lines.tail
        | .round => session.turn.session.heads rounds lines
        | .nothing | .surrender _ => []

/-- The ways in which a session ends, with the values of its last round. -/
inductive Concludes (session : Session) (transcript : Transcript) : Prop where
  | failed {fault : Fault} (short : session.made < session.remaining)
      (reported : ∃ reply ∈ session.replies, reply.answer = .error fault)
      (values : transcript.values = []) (ending : transcript.ending = .failed (.faulted fault))
  | halted (within : session.made ≤ session.remaining)
      (reported : ∃ reply ∈ session.replies, reply.answer = .ok .halted)
      (values : transcript.values = session.emissions) (ending : transcript.ending = .halted)
  | starved {cause : Failure} (short : session.made < session.remaining)
      (goesOn : ∀ reply ∈ session.replies, reply.GoesOn)
      (values : transcript.values = session.emissions) (ending : transcript.ending = .failed cause)
      (other : (∀ limit, cause ≠ .stepLimit limit) ∧ ∀ fault, cause ≠ .faulted fault)
  | spent (exact : session.made = session.remaining)
      (goesOn : ∀ reply ∈ session.replies, reply.GoesOn)
      (values : transcript.values = session.emissions)
      (ending : transcript.ending = .failed (.stepLimit session.options.maxSteps))

variable {session : Session} {lines : List (Except ReadError String)}

/-- A round is the last one, however many more are allowed, or it takes a line. -/
theorem Sound.unroll (sound : session.Sound) (lines : List (Except ReadError String)) :
    (∃ transcript, session.Concludes transcript ∧ ∀ rounds,
        session.heads (rounds + 1) lines = [⟨session, lines⟩] ∧
          session.playFor (rounds + 1) lines = transcript) ∨
      ∃ next records, session.Continues next ∧ lines ≠ [] ∧ ∀ rounds,
        session.heads (rounds + 1) lines = ⟨session, lines⟩ :: next.heads rounds lines.tail ∧
          session.playFor (rounds + 1) lines =
            (next.playFor rounds lines.tail).after session.emissions records := by
  have turns := sound.turns
  simp only [heads, playFor]
  generalize session.turn = round at turns ⊢
  cases turns with
  | @failed next records fault short reported =>
      refine .inl ⟨(Transcript.failure (.faulted fault)).after [] records, ?_, fun _ => ⟨rfl, rfl⟩⟩
      exact .failed short reported rfl rfl
  | @halted next records within reported =>
      refine .inl ⟨Transcript.after ⟨[], next.dump, [], .halted⟩ session.emissions records, ?_,
        fun _ => ⟨rfl, rfl⟩⟩
      exact .halted within reported (List.append_nil _) rfl
  | @spent next records exact goesOn =>
      refine .inl ⟨(Transcript.failure (.stepLimit session.options.maxSteps)).after
        session.emissions records, ?_, fun _ => ⟨rfl, rfl⟩⟩
      exact .spent exact goesOn (List.append_nil _) rfl
  | @starved next records demand continues asks =>
      have gaveUp : ∀ cause,
          (∀ limit, cause ≠ Failure.stepLimit limit) ∧ (∀ fault, cause ≠ .faulted fault) →
          session.Concludes ((Transcript.failure cause).after session.emissions records) :=
        fun cause other =>
          .starved continues.short continues.goesOn (List.append_nil _) rfl other
      rcases asks with rfl | rfl
      · cases fed : next.feed lines.head? with
        | error cause => exact .inl ⟨_, gaveUp cause (feed_refused fed), fun _ => ⟨rfl, rfl⟩⟩
        | ok later =>
            obtain ⟨present, soundLater, options, remaining⟩ := continues.sound.feed fed
            refine .inr ⟨later, records, ?_, ?_, fun _ => ⟨rfl, rfl⟩⟩
            · exact ⟨continues.short, continues.goesOn, soundLater, options.trans continues.options,
                remaining ▸ continues.remaining⟩
            · rintro rfl
              contradiction
      · have other := gaveUp (.inputExhausted next.machine.state.ip) ⟨nofun, nofun⟩
        exact .inl ⟨_, other, fun _ => ⟨rfl, rfl⟩⟩

/-- A session from the head of a round to its end. -/
inductive Plays : Session → List (Except ReadError String) → List Head → Transcript → Prop where
  | last {session : Session} {lines : List (Except ReadError String)} {transcript : Transcript}
      (sound : session.Sound) (concludes : session.Concludes transcript) :
      Plays session lines [⟨session, lines⟩] transcript
  | next {session next : Session} {line : Except ReadError String}
      {lines : List (Except ReadError String)} {heads : List Head} {transcript : Transcript}
      {records : List Log.Record} (sound : session.Sound) (continues : session.Continues next)
      (later : Plays next lines heads transcript) :
      Plays session (line :: lines) (⟨session, line :: lines⟩ :: heads)
        (transcript.after session.emissions records)

theorem Sound.plays {rounds : Nat} (sound : session.Sound) (enough : lines.length < rounds) :
    session.Plays lines (session.heads rounds lines) (session.playFor rounds lines) := by
  induction rounds generalizing session lines with
  | zero => contradiction
  | succ rounds ih =>
      rcases sound.unroll lines with
        ⟨transcript, concludes, unrolled⟩ | ⟨next, records, continues, present, unrolled⟩
      · obtain ⟨heads, played⟩ := unrolled rounds
        rw [heads, played]
        exact .last sound concludes
      · obtain ⟨heads, played⟩ := unrolled rounds
        rw [heads, played]
        cases lines with
        | nil => contradiction
        | cons line lines =>
            have enoughLater : lines.length < rounds := Nat.lt_of_succ_lt_succ enough
            exact .next sound continues (ih continues.sound enoughLater)

/-- A round more than there are lines is never used. -/
theorem Sound.spare_round {rounds : Nat} (sound : session.Sound) (enough : lines.length < rounds) :
    session.heads (rounds + 1) lines = session.heads rounds lines ∧
      session.playFor (rounds + 1) lines = session.playFor rounds lines := by
  induction rounds generalizing session lines with
  | zero => contradiction
  | succ rounds ih =>
      rcases sound.unroll lines with
        ⟨transcript, -, unrolled⟩ | ⟨next, records, continues, present, unrolled⟩
      · obtain ⟨heads, played⟩ := unrolled rounds
        obtain ⟨moreHeads, morePlayed⟩ := unrolled (rounds + 1)
        exact ⟨moreHeads.trans heads.symm, morePlayed.trans played.symm⟩
      · have shorter := List.length_pos_iff.mpr present
        have enoughLater : lines.tail.length < rounds := by
          rw [List.length_tail]
          omega
        obtain ⟨sameHeads, samePlayed⟩ := ih continues.sound enoughLater
        obtain ⟨heads, played⟩ := unrolled rounds
        obtain ⟨moreHeads, morePlayed⟩ := unrolled (rounds + 1)
        rw [moreHeads, heads, morePlayed, played, sameHeads, samePlayed]
        exact ⟨rfl, rfl⟩

theorem Sound.spare_rounds (sound : session.Sound) (lines : List (Except ReadError String))
    (more : Nat) :
    session.heads (lines.length + 1 + more) lines = session.heads (lines.length + 1) lines ∧
      session.playFor (lines.length + 1 + more) lines = session.play lines := by
  induction more with
  | zero => exact ⟨rfl, rfl⟩
  | succ more ih =>
      have enough : lines.length < lines.length + 1 + more := by omega
      obtain ⟨heads, played⟩ := sound.spare_round enough
      exact ⟨heads.trans ih.1, played.trans ih.2⟩

/-- The heads of all rounds. -/
def rounds (session : Session) (lines : List (Except ReadError String)) : List Head :=
  session.heads (lines.length + 1) lines

/-- The replies to all steps of a session. -/
def history (session : Session) (lines : List (Except ReadError String)) :
    List (Machine.Reply (Except Fault Machine.Outcome)) :=
  (session.rounds lines).flatMap (·.session.replies)

theorem Sound.plays_rounds (sound : session.Sound) (lines : List (Except ReadError String)) :
    session.Plays lines (session.rounds lines) (session.play lines) :=
  sound.plays (Nat.lt_succ_self lines.length)

/-- A session before its first round, with the cells of the program and the values given
with it. -/
def opening (options : Options) (program values : List Int) : Session where
  options := options
  machine := (Machine.load options.kind machineId program).extend values
  remaining := options.maxSteps

theorem sound_opening (options : Options) (program values : List Int) :
    (opening options program values).Sound :=
  ⟨rfl, rfl, nofun, rfl⟩

end Session

theorem run_of_parsed {options : Options} {text : String} {program values : List Int}
    (parsed : Listing.parse text = .ok program)
    (given : Listing.parse options.inputText = .ok values)
    (lines : List (Except ReadError String)) :
    ∃ records, run options (.ok text) lines =
      ((Session.opening options program values).play lines).after [] records := by
  simp only [run, Session.start, parsed, given]
  exact ⟨_, rfl⟩

end Intcode.CommandLine
