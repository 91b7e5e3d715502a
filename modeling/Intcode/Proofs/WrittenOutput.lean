import Intcode.Proofs.Rounds

/-! What a session writes.

A round hands over the values of its completed output instructions unless it ends with a
fault, and then it keeps them. So a session without a fault writes all its values in the
order in which they were put out, and one with a fault writes all but those of its last
round.
-/

namespace Intcode.CommandLine

open Machine (Reply)

/-- Lines of text, each with its end. -/
def textLines (lines : List String) : String :=
  String.join (lines.map (· ++ "\n"))

theorem Transcript.output_eq (transcript : Transcript) :
    transcript.output =
      textLines (transcript.values.map Decimal.render) ++ textLines transcript.dump := by
  rw [output, List.map_append, String.join_append]
  rfl

namespace Session

/-- The values put out in the rounds, written or not. -/
def emitted (heads : List Head) : List Int :=
  (heads.flatMap (·.session.replies)).filterMap Reply.emitted?

theorem emitted_cons (head : Head) (heads : List Head) :
    emitted (head :: heads) = head.session.emissions ++ emitted heads := by
  rw [emitted, List.flatMap_cons, List.filterMap_append]
  rfl

theorem emitted_singleton (head : Head) : emitted [head] = head.session.emissions :=
  (emitted_cons head []).trans (List.append_nil _)

variable {session : Session} {lines : List (Except ReadError String)} {heads : List Head}
  {transcript : Transcript}

theorem Plays.ne_nil (plays : session.Plays lines heads transcript) : heads ≠ [] := by
  cases plays <;> nofun

theorem Concludes.values_of_fault (concludes : session.Concludes transcript) {fault : Fault}
    (faulted : transcript.ending = .failed (.faulted fault)) :
    (∃ reply ∈ session.replies, reply.answer = .error fault) ∧ transcript.values = [] := by
  rcases concludes with ⟨-, reported, values, ending⟩ | ⟨-, -, -, ending⟩ |
    ⟨-, -, -, ending, other⟩ | ⟨-, -, -, ending⟩
  all_goals
    rw [ending] at faulted
    cases faulted
  · exact ⟨reported, values⟩
  · exact absurd rfl (other.2 fault)

theorem Concludes.values_of_no_fault (concludes : session.Concludes transcript)
    (faultless : ∀ fault, transcript.ending ≠ .failed (.faulted fault)) :
    transcript.values = session.emissions := by
  rcases concludes with ⟨-, -, -, ending⟩ | ⟨-, -, values, -⟩ | ⟨-, -, values, -, -⟩ | ⟨-, -, values, -⟩
  · exact absurd ending (faultless _)
  · exact values
  · exact values
  · exact values

/-- A fault ends the session in its last round, whose values are missing. -/
theorem Plays.emitted_of_fault (plays : session.Plays lines heads transcript) {fault : Fault}
    (faulted : transcript.ending = .failed (.faulted fault)) :
    ∃ head, heads.getLast? = some head ∧
      (∃ reply ∈ head.session.replies, reply.answer = .error fault) ∧
      emitted heads = transcript.values ++ head.session.emissions := by
  induction plays with
  | @last session lines transcript sound concludes =>
      obtain ⟨reported, values⟩ := concludes.values_of_fault faulted
      refine ⟨⟨session, lines⟩, rfl, reported, ?_⟩
      rw [emitted_singleton, values]
      rfl
  | next sound continues later ih =>
      obtain ⟨head, last, reported, values⟩ := ih faulted
      refine ⟨head, ?_, reported, ?_⟩
      · rw [List.getLast?_cons_of_ne_nil later.ne_nil]
        exact last
      · rw [emitted_cons, values]
        exact (List.append_assoc _ _ _).symm

theorem Plays.emitted_of_no_fault (plays : session.Plays lines heads transcript)
    (faultless : ∀ fault, transcript.ending ≠ .failed (.faulted fault)) :
    emitted heads = transcript.values := by
  induction plays with
  | last sound concludes =>
      rw [emitted_singleton]
      exact (concludes.values_of_no_fault faultless).symm
  | next sound continues later ih =>
      rw [emitted_cons, ih faultless]
      rfl

/-- Everything is written unless a fault comes after a value in the same round. -/
theorem Plays.emitted_eq_values_iff (plays : session.Plays lines heads transcript) :
    emitted heads = transcript.values ↔
      ∀ fault head, transcript.ending = .failed (.faulted fault) → heads.getLast? = some head →
        head.session.emissions = [] := by
  constructor
  · -- What a fault holds back stands behind all that is written.
    intro complete fault head faulted last
    obtain ⟨ended, sameLast, -, values⟩ := plays.emitted_of_fault faulted
    cases last.symm.trans sameLast
    exact List.self_eq_append_right.mp (complete.symm.trans values)
  · intro nothing
    by_cases faultless : ∀ fault, transcript.ending ≠ .failed (.faulted fault)
    · exact plays.emitted_of_no_fault faultless
    · obtain ⟨fault, faulted⟩ := Classical.not_forall.mp faultless
      obtain ⟨head, last, -, values⟩ := plays.emitted_of_fault (Classical.not_not.mp faulted)
      rw [values, nothing fault head (Classical.not_not.mp faulted) last, List.append_nil]

end Session

/-- What a transcript shows of the values that the completed instructions of a session have
put out. -/
structure WritesOutput (session : Session) (lines : List (Except ReadError String))
    (transcript : Transcript) : Prop where
  text : transcript.output =
    textLines (transcript.values.map Decimal.render) ++ textLines transcript.dump
  complete : (∀ fault, transcript.ending ≠ .failed (.faulted fault)) →
    (session.history lines).filterMap Reply.emitted? = transcript.values
  faulted : ∀ fault, transcript.ending = .failed (.faulted fault) →
    ∃ head, (session.rounds lines).getLast? = some head ∧
      (∃ reply ∈ head.session.replies, reply.answer = .error fault) ∧
      (session.history lines).filterMap Reply.emitted? =
        transcript.values ++ head.session.emissions
  exact : (session.history lines).filterMap Reply.emitted? = transcript.values ↔
    ∀ fault head, transcript.ending = .failed (.faulted fault) →
      (session.rounds lines).getLast? = some head → head.session.emissions = []

/-- Every value is written, except those of a round that ends with a fault. -/
theorem output_written_unless_faulted {options : Options} {text : String}
    {program values : List Int} (parsed : Listing.parse text = .ok program)
    (given : Listing.parse options.inputText = .ok values)
    (lines : List (Except ReadError String)) :
    WritesOutput (.opening options program values) lines (run options (.ok text) lines) := by
  have plays := (Session.sound_opening options program values).plays_rounds lines
  obtain ⟨records, ran⟩ := run_of_parsed parsed given lines
  rw [ran]
  exact {
    text := Transcript.output_eq _
    complete := plays.emitted_of_no_fault
    faulted := fun fault => plays.emitted_of_fault
    exact := plays.emitted_eq_values_iff }

/-- A program that puts out a value in each of two rounds and ends with a fault in the
second one. -/
theorem output_written_unless_faulted_second_round :
    let options : Options := ⟨"program", [], true, 100, false, false, none, "off"⟩
    let lines : List (Except ReadError String) := [.ok "7"]
    let session := Session.opening options [104, 1, 3, 7, 104, 2, 0] []
    Listing.parse "104,1,3,7,104,2,0" = .ok [104, 1, 3, 7, 104, 2, 0] ∧
      Listing.parse options.inputText = .ok [] ∧
      WritesOutput session lines (run options (.ok "104,1,3,7,104,2,0") lines) ∧
      (run options (.ok "104,1,3,7,104,2,0") lines).output = "1\n" ∧
      (session.history lines).filterMap Reply.emitted? = [1, 2] := by
  intro options lines session
  have parsed : Listing.parse "104,1,3,7,104,2,0" = .ok [104, 1, 3, 7, 104, 2, 0] := rfl
  have given : Listing.parse options.inputText = .ok [] := rfl
  exact ⟨parsed, given, output_written_unless_faulted parsed given lines, by decide +kernel,
    by decide +kernel⟩

/-- A value that was put out before a fault is not written. -/
theorem faulted_output_is_lost :
    let options : Options := ⟨"program", [], false, 100, false, false, none, "off"⟩
    let transcript := run options (.ok "104,5,0") []
    let session := Session.opening options [104, 5, 0] []
    Listing.parse "104,5,0" = .ok [104, 5, 0] ∧ Listing.parse options.inputText = .ok [] ∧
      textLines (((session.history []).filterMap Reply.emitted?).map Decimal.render) = "5\n" ∧
      transcript.output = "" ∧
      transcript.ending = .failed (.faulted (.unknownOpcode 0 2)) := by
  intro options transcript session
  have parsed : Listing.parse "104,5,0" = .ok [104, 5, 0] := rfl
  have given : Listing.parse options.inputText = .ok [] := rfl
  exact ⟨parsed, given, by decide +kernel, by decide +kernel, by decide +kernel⟩

end Intcode.CommandLine
