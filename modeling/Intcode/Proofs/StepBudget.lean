import Intcode.Proofs.Rounds

/-! The step budget of a session.

What is left of the budget and the steps that the machine has made add up to the limit at
the head of every round. A round that does not end the session leaves some of the budget
and takes a line, so the lines bound the rounds, and the session ends at its limit exactly
if as many instructions as that were completed and the program went on after each of them.
-/

namespace Intcode.CommandLine

open Machine (Reply)

namespace Session

variable {session : Session} {lines : List (Except ReadError String)} {heads : List Head}
  {transcript : Transcript}

theorem Plays.sound_of_mem (plays : session.Plays lines heads transcript) {head : Head}
    (member : head ∈ heads) : head.session.Sound ∧ head.session.options = session.options := by
  induction plays with
  | last sound concludes =>
      rw [List.mem_singleton] at member
      subst member
      exact ⟨sound, rfl⟩
  | next sound continues later ih =>
      rcases List.mem_cons.mp member with rfl | member
      · exact ⟨sound, rfl⟩
      · obtain ⟨soundHead, options⟩ := ih member
        exact ⟨soundHead, options.trans continues.options⟩

/-- Every round but the last takes one line. -/
theorem Plays.lines_of_getElem? (plays : session.Plays lines heads transcript) {index : Nat}
    {head : Head} (found : heads[index]? = some head) :
    index ≤ lines.length ∧ head.lines = lines.drop index := by
  induction plays generalizing index with
  | last sound concludes =>
      cases index with
      | zero =>
          cases found
          exact ⟨Nat.zero_le _, rfl⟩
      | succ index => contradiction
  | next sound continues later ih =>
      cases index with
      | zero =>
          cases found
          exact ⟨Nat.zero_le _, rfl⟩
      | succ index =>
          obtain ⟨within, left⟩ := ih found
          exact ⟨Nat.succ_le_succ within, left⟩

theorem Plays.length_le (plays : session.Plays lines heads transcript) :
    heads.length ≤ lines.length + 1 := by
  induction plays with
  | last sound concludes => exact Nat.succ_le_succ (Nat.zero_le _)
  | next sound continues later ih => exact Nat.succ_le_succ ih

theorem Plays.finished (plays : session.Plays lines heads transcript) :
    transcript.ending ≠ .unfinished := by
  induction plays with
  | last sound concludes =>
      rcases concludes with ⟨-, -, -, ending⟩ | ⟨-, -, -, ending⟩ | ⟨-, -, -, ending, -⟩ | ⟨-, -, -, ending⟩
      all_goals
        rw [ending]
        nofun
  | next sound continues later ih => exact ih

/-- Among the steps of the rounds, those that complete an instruction. -/
def completed (heads : List Head) : Nat :=
  (heads.flatMap (·.session.replies)).countP Reply.completes

theorem completed_cons (head : Head) (heads : List Head) :
    completed (head :: heads) = head.session.made + completed heads := by
  simp only [completed, List.flatMap_cons, List.countP_append]
  rfl

theorem completed_singleton (head : Head) : completed [head] = head.session.made :=
  completed_cons head []

theorem Concludes.made_le (concludes : session.Concludes transcript) :
    session.made ≤ session.remaining := by
  rcases concludes with ⟨short, -, -, -⟩ | ⟨within, -, -, -⟩ | ⟨short, -, -, -, -⟩ | ⟨exact, -, -, -⟩ <;>
    omega

theorem Plays.completed_le (plays : session.Plays lines heads transcript) :
    completed heads ≤ session.remaining := by
  induction plays with
  | last sound concludes =>
      rw [completed_singleton]
      exact concludes.made_le
  | next sound continues later ih =>
      have remaining := continues.remaining
      rw [completed_cons]
      simp only
      omega

/-- In the last round: the limit is what ended the session exactly if all of the budget was
spent and the program did not end with it. -/
theorem Concludes.limit_iff (concludes : session.Concludes transcript) (limit : Nat) :
    transcript.ending = .failed (.stepLimit limit) ↔
      limit = session.options.maxSteps ∧ session.made = session.remaining ∧
        ∀ reply ∈ session.replies, reply.GoesOn := by
  rcases concludes with ⟨short, reported, -, ending⟩ | ⟨-, reported, -, ending⟩ |
    ⟨short, -, -, ending, other⟩ | ⟨exact, goesOn, -, ending⟩
  · rw [ending]
    refine iff_of_false nofun ?_
    rintro ⟨-, exact, -⟩
    omega
  · rw [ending]
    refine iff_of_false nofun ?_
    rintro ⟨-, -, goesOn⟩
    obtain ⟨reply, member, answer⟩ := reported
    exact (goesOn reply member).1 answer
  · rw [ending]
    refine iff_of_false ?_ ?_
    · intro same
      cases same
      exact other.1 limit rfl
    · rintro ⟨-, exact, -⟩
      omega
  · rw [ending]
    constructor
    · intro same
      cases same
      exact ⟨rfl, exact, goesOn⟩
    · rintro ⟨rfl, -, -⟩
      rfl

theorem Plays.limit_iff (plays : session.Plays lines heads transcript) (limit : Nat) :
    transcript.ending = .failed (.stepLimit limit) ↔
      limit = session.options.maxSteps ∧ completed heads = session.remaining ∧
        ∀ reply ∈ heads.flatMap (·.session.replies), reply.GoesOn := by
  induction plays with
  | last sound concludes =>
      rw [completed_singleton, List.flatMap_singleton]
      exact concludes.limit_iff limit
  | @next session next line lines heads transcript records sound continues later ih =>
      have remaining := continues.remaining
      have spent : session.made + completed heads = session.remaining ↔
          completed heads = next.remaining := by omega
      rw [completed_cons, List.flatMap_cons, List.forall_mem_append]
      simp only [spent, ← continues.options]
      refine Iff.trans ih ?_
      exact and_congr_right fun _ => and_congr_right fun _ =>
        ⟨fun goesOn => ⟨continues.goesOn, goesOn⟩, fun goesOn => goesOn.2⟩

theorem Sound.spending (sound : session.Sound) (watched : Event → Bool) :
    session.machine.state.steps ≤
        (session.machine.runFor watched session.remaining).machine.state.steps ∧
      (session.machine.runFor watched session.remaining).machine.state.steps -
        session.machine.state.steps ≤ session.remaining := by
  obtain ⟨ending, ran, -⟩ := session.machine.runFor_ran watched session.remaining
    (Machine.final?_of_not_terminated sound.going)
  have steps := ran.steps
  have within := ran.made_le
  omega

end Session

/-- The rounds of a loaded session, their budget and their number. -/
structure KeepsBudget (options : Options) (session : Session)
    (lines : List (Except ReadError String)) (transcript : Transcript) : Prop where
  balance : ∀ head ∈ session.rounds lines,
    head.session.remaining + head.session.machine.state.steps = options.maxSteps
  spending : ∀ head ∈ session.rounds lines,
    let after := (head.session.machine.runFor (Event.enabled options.logger)
      head.session.remaining).machine
    head.session.machine.state.steps ≤ after.state.steps ∧
      after.state.steps - head.session.machine.state.steps ≤ head.session.remaining
  within : (session.history lines).countP Reply.completes ≤ options.maxSteps
  stopped : ∀ head ∈ session.rounds lines, head.session.turn.demand ≠ .round
  consumed : ∀ index head, (session.rounds lines)[index]? = some head →
    index ≤ lines.length ∧ head.lines = lines.drop index
  length : (session.rounds lines).length ≤ lines.length + 1
  -- The rounds end by themselves: a higher bound on them changes nothing.
  unbounded : ∀ more,
    session.heads (lines.length + 1 + more) lines = session.rounds lines ∧
      session.playFor (lines.length + 1 + more) lines = session.play lines
  finished : transcript.ending ≠ .unfinished
  limit : ∀ limit, transcript.ending = .failed (.stepLimit limit) ↔
    limit = options.maxSteps ∧
      (session.history lines).countP Reply.completes = options.maxSteps ∧
      ∀ reply ∈ session.history lines, reply.GoesOn

/-- The step budget is exact, and the rounds end. -/
theorem step_budget_exact {options : Options} {text : String} {program values : List Int}
    (parsed : Listing.parse text = .ok program)
    (given : Listing.parse options.inputText = .ok values)
    (lines : List (Except ReadError String)) :
    KeepsBudget options (.opening options program values) lines (run options (.ok text) lines) := by
  have sound := Session.sound_opening options program values
  have plays := sound.plays_rounds lines
  obtain ⟨records, ran⟩ := run_of_parsed parsed given lines
  rw [ran]
  exact {
    balance := by
      intro head member
      obtain ⟨soundHead, same⟩ := plays.sound_of_mem member
      have balance := soundHead.balance
      rw [same] at balance
      exact balance
    spending := fun head member => (plays.sound_of_mem member).1.spending _
    within := plays.completed_le
    stopped := fun head member => (plays.sound_of_mem member).1.demand_ne_round
    consumed := fun index head => plays.lines_of_getElem?
    length := plays.length_le
    unbounded := sound.spare_rounds lines
    finished := plays.finished
    limit := plays.limit_iff }

/-- A program that reads forever. One line has no input, the next one is enough to spend the
budget, and the last one is not read. -/
theorem step_budget_exact_reader :
    let options : Options := ⟨"reader", ["-1"], true, 4, false, false, none, "off"⟩
    let lines : List (Except ReadError String) := [.ok " ", .ok "7", .ok "8"]
    let session := Session.opening options [3, 5, 1105, 1, 0] [-1]
    Listing.parse "3,5,1105,1,0" = .ok [3, 5, 1105, 1, 0] ∧
      Listing.parse options.inputText = .ok [-1] ∧
      KeepsBudget options session lines (run options (.ok "3,5,1105,1,0") lines) ∧
      (session.rounds lines).length = 3 ∧
      (run options (.ok "3,5,1105,1,0") lines).ending = .failed (.stepLimit 4) := by
  intro options lines session
  have parsed : Listing.parse "3,5,1105,1,0" = .ok [3, 5, 1105, 1, 0] := rfl
  have inputs : options.inputText = "-1" := rfl
  have given : Listing.parse options.inputText = .ok [-1] := by
    rw [inputs]
    rfl
  exact ⟨parsed, given, step_budget_exact parsed given lines, by decide +kernel, by decide +kernel⟩

end Intcode.CommandLine
