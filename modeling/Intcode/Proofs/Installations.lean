import Mathlib.Data.List.Forall2
import Intcode.Log.Installation
import Intcode.Proofs.Fields

/-! # The first logger that is offered

An installation keeps the logger it made first; the facade keeps the logger in use and the
threshold.  From the first offer on the three agree, and no later offer changes any of them, as long
as the facade does what it promises.  `Offer.Shows` says which records the logger of an offer shows,
in terms of the text of the filter, and `Line` what is written for a record; the log is one such line
for each record that is shown.
-/

namespace Intcode.Text

theorem mem_join_of_mem {α : Type} {separator c : α} {piece : List α} {pieces : List (List α)}
    (among : piece ∈ pieces) (inPiece : c ∈ piece) : c ∈ join separator pieces := by
  induction pieces with
  | nil => contradiction
  | cons first rest ih =>
      cases rest with
      | nil =>
          rw [join_singleton, ← List.mem_singleton.mp among]
          exact inPiece
      | cons next rest =>
          rw [join_cons_cons, List.mem_append, List.mem_cons]
          rcases List.mem_cons.mp among with rfl | later
          · exact .inl inPiece
          · exact .inr (.inr (ih later))

end Intcode.Text

namespace Intcode.Log

open Intcode.Text

/-- What a logger is made from. -/
structure Offer where
  threshold : Threshold
  filter : Option String

namespace Offer

def logger (offer : Offer) : Logger :=
  .create offer.threshold offer.filter

/-- The target begins with a piece of the filter text: with what stands between two of its commas,
less the blanks at both ends, if that is not empty. -/
def Lists (filter target : String) : Prop :=
  ∃ pieces, Cuts ',' filter.toList pieces ∧
    ∃ piece ∈ pieces, ∃ core, Trimmed piece core ∧ core ≠ [] ∧ core <+: target.toList

/-- The records that are shown: those up to the threshold, and of the diagnostic ones among them,
where there is a filter, those whose target it lists. -/
structure Shows (offer : Offer) (level : Level) (target : String) : Prop where
  admitted : ∃ bound, offer.threshold = .upTo bound ∧ level.rank ≤ bound.rank
  listed : ∀ filter, offer.filter = some filter →
    level ∈ [.error, .warn, .info] ∨ Lists filter target

end Offer

theorem Threshold.admits_iff {threshold : Threshold} {level : Level} :
    threshold.admits level = true ↔ ∃ bound, threshold = .upTo bound ∧ level.rank ≤ bound.rank := by
  cases threshold with
  | off => simp [admits]
  | upTo bound => simp [admits]

theorem Level.isDiagnostic_eq_false_iff {level : Level} :
    level.isDiagnostic = false ↔ level ∈ [.error, .warn, .info] := by
  cases level <;> decide

namespace Logger

theorem mem_pieces_iff {filter : String} {core : List Char} :
    core ∈ pieces filter ↔
      core ≠ [] ∧ ∃ piece ∈ split ',' filter.toList, Trimmed piece core := by
  simp only [pieces, List.mem_filter, List.mem_map, trim_eq_iff, Bool.not_eq_true',
    List.isEmpty_eq_false_iff]
  exact and_comm

theorem any_pieces_iff {filter target : String} :
    ((pieces filter).any fun core => core.isPrefixOf target.toList) = true ↔
      Offer.Lists filter target := by
  rw [List.any_eq_true]
  constructor
  · rintro ⟨core, member, begins⟩
    obtain ⟨nonempty, piece, among, trimmed⟩ := mem_pieces_iff.mp member
    exact ⟨_, split_eq_iff.mp rfl, piece, among, core, trimmed, nonempty,
      List.isPrefixOf_iff_prefix.mp begins⟩
  · rintro ⟨pieces, cuts, piece, among, core, trimmed, nonempty, begins⟩
    rw [← split_eq_iff.mpr cuts] at among
    exact ⟨core, mem_pieces_iff.mpr ⟨nonempty, piece, among, trimmed⟩,
      List.isPrefixOf_iff_prefix.mpr begins⟩

theorem selects_create {threshold : Threshold} {filter : Option String} {level : Level}
    {target : String} :
    (create threshold filter).selects level target = true ↔
      ∀ text, filter = some text → level ∈ [.error, .warn, .info] ∨ Offer.Lists text target := by
  cases filter with
  | none => simp [create, selects]
  | some text =>
      simp only [create, selects, Option.map_some, Bool.or_eq_true, Bool.not_eq_true',
        Level.isDiagnostic_eq_false_iff, any_pieces_iff, Option.some.injEq, forall_eq']

end Logger

theorem Offer.enabled_logger {offer : Offer} {level : Level} {target : String} :
    offer.logger.enabled level target = true ↔ offer.Shows level target := by
  rw [Offer.logger, Logger.enabled, Bool.and_eq_true, Logger.selects_create]
  have admitted : (Logger.create offer.threshold offer.filter).threshold = offer.threshold := rfl
  rw [admitted, Threshold.admits_iff]
  exact ⟨fun shown => ⟨shown.1, shown.2⟩, fun shows => ⟨shows.admitted, shows.listed⟩⟩

/-- A filter that consists of blanks and commas lists no target. -/
theorem Offer.not_lists_of_blank {filter target : String}
    (blank : ∀ c ∈ filter.toList, c = ',' ∨ isBlank c) : ¬ Lists filter target := by
  rintro ⟨pieces, cuts, piece, among, core, trimmed, nonempty, -⟩
  obtain ⟨c, rest, rfl⟩ := List.exists_cons_of_ne_nil nonempty
  obtain ⟨before, after, -, -, around⟩ := trimmed.around
  have inPiece : c ∈ piece := by simp [around]
  have apart : c ≠ ',' := by
    rintro rfl
    exact cuts.apart piece among inPiece
  have solid : isBlank c = false := trimmed.first c rfl
  have inFilter : c ∈ filter.toList := by
    rw [← cuts.joined]
    exact mem_join_of_mem among inPiece
  rcases blank c inFilter with comma | blankHere
  · exact apart comma
  · rw [solid] at blankHere
    contradiction

/-! ## Lines -/

/-- The name of a level in its colour, in five columns. -/
def Level.painted : Level → String
  | .error => "\x1b[31mERROR\x1b[0m"
  | .warn => "\x1b[33mWARN \x1b[0m"
  | .info => "\x1b[32mINFO \x1b[0m"
  | .debug => "\x1b[36mDEBUG\x1b[0m"
  | .trace => "\x1b[35mTRACE\x1b[0m"

/-- The line for a record at a time of day.  The part of the program that wrote the record stands at
the end, in brackets, if it is known and not the topic itself. -/
inductive Line (time : String) (record : Record) : String → Prop where
  | short (untold : record.origin = none ∨ record.origin = some record.target) :
      Line time record
        (time ++ " " ++ record.level.painted ++ " " ++ record.target ++ ": " ++ record.message ++ "\n")
  | long {origin : String} (told : record.origin = some origin) (other : origin ≠ record.target) :
      Line time record
        (time ++ " " ++ record.level.painted ++ " " ++ record.target ++ ": " ++ record.message ++
          " [" ++ origin ++ "]\n")

theorem Level.painted_eq (level : Level) :
    level.painted = "\x1b[" ++ level.colour ++ "m" ++ level.column ++ "\x1b[0m" := by
  cases level <;> decide

theorem Record.line_eq (record : Record) (time : String) :
    record.line time =
      time ++ " " ++ record.level.painted ++ " " ++ record.target ++ ": " ++ record.message ++
        record.suffix ++ "\n" := by
  have first : " \x1b[" = " " ++ "\x1b[" := rfl
  have last : "\x1b[0m " = "\x1b[0m" ++ " " := rfl
  rw [Record.line, Level.painted_eq, first, last]
  simp only [String.append_assoc]

theorem line_of_record (record : Record) (time : String) : Line time record (record.line time) := by
  rw [Record.line_eq]
  cases told : record.origin with
  | none =>
      have suffix : record.suffix = "" := by simp only [Record.suffix, told]
      rw [suffix, String.append_empty]
      exact .short (.inl told)
  | some origin =>
      by_cases same : origin = record.target
      · have suffix : record.suffix = "" := by simp only [Record.suffix, told, if_pos same]
        rw [suffix, String.append_empty]
        exact .short (.inr (told.trans (congrArg some same)))
      · have suffix : record.suffix = " [" ++ origin ++ "]" := by
          simp only [Record.suffix, told, if_neg same]
        have ending : "]\n" = "]" ++ "\n" := rfl
        have line : Line time record _ := .long told same
        rw [ending] at line
        simpa only [suffix, String.append_assoc] using line

/-! ## Offers -/

namespace Installation

variable {σ : Type} {facade : Facade σ} {installation : Installation σ} {logger : Logger}

structure Holds (facade : Facade σ) (installation : Installation σ) (logger : Logger) : Prop where
  made : installation.made = some logger
  used : facade.logger installation.contents = some logger
  threshold : facade.threshold installation.contents = logger.threshold

theorem install_unset (documented : facade.Documented) {contents : σ}
    (unset : facade.logger contents = none) (offered : Logger) :
    (install ⟨none, contents⟩ facade offered).1 = .ok () ∧
      Holds facade (install ⟨none, contents⟩ facade offered).2 offered := by
  obtain ⟨accepted, used⟩ := documented.accepts contents offered unset
  cases result : facade.setLogger contents offered with
  | mk answer after =>
      rw [result] at accepted used
      cases accepted
      simp only [install, Option.getD_none, result, true_and]
      exact ⟨rfl, (documented.keepsLogger ..).trans used, documented.setsThreshold ..⟩

/-- An offer to an installation that holds a logger is refused and changes nothing. -/
theorem Holds.install (holds : Holds facade installation logger) (documented : facade.Documented)
    (offered : Logger) :
    (installation.install facade offered).1 = .error .alreadySet ∧
      Holds facade (installation.install facade offered).2 logger := by
  obtain ⟨refused, used⟩ := documented.refuses installation.contents logger logger holds.used
  have kept := documented.keepsThreshold installation.contents logger
  cases result : facade.setLogger installation.contents logger with
  | mk answer after =>
      rw [result] at refused used kept
      cases refused
      simp only [Installation.install, holds.made, Option.getD_some, result, true_and]
      exact ⟨rfl, used, kept.trans holds.threshold⟩

theorem Holds.installAll (holds : Holds facade installation logger)
    (documented : facade.Documented) (offered : List Logger) :
    (installation.installAll facade offered).1 = offered.map (fun _ => .error .alreadySet) ∧
      Holds facade (installation.installAll facade offered).2 logger := by
  induction offered generalizing installation with
  | nil => exact ⟨rfl, holds⟩
  | cons next later ih =>
      obtain ⟨refused, holdsNext⟩ := holds.install documented next
      obtain ⟨answers, holdsLast⟩ := ih holdsNext
      simp only [Installation.installAll, List.map_cons, refused, answers, true_and]
      exact holdsLast

theorem installAll_unset (documented : facade.Documented) {contents : σ}
    (unset : facade.logger contents = none) (first : Logger) (later : List Logger) :
    (installAll ⟨none, contents⟩ facade (first :: later)).1 =
        .ok () :: later.map (fun _ => .error .alreadySet) ∧
      Holds facade (installAll ⟨none, contents⟩ facade (first :: later)).2 first := by
  obtain ⟨accepted, holds⟩ := install_unset documented unset first
  obtain ⟨answers, holdsLast⟩ := holds.installAll documented later
  simp only [installAll, accepted, answers, true_and]
  exact holdsLast

/-! ## Records -/

/-- What is written for records that are logged one after the other, each at its time of day. -/
def log (installation : Installation σ) (facade : Facade σ) : List (String × Record) → String
  | [] => ""
  | (time, record) :: later =>
      installation.write facade time [record] ++ installation.log facade later

/-- The records that are enabled, each with its time of day. -/
def shown (installation : Installation σ) (facade : Facade σ) (entries : List (String × Record)) :
    List (String × Record) :=
  entries.filter fun entry => installation.enabled facade entry.2.level entry.2.target

theorem write_singleton (installation : Installation σ) (time : String) (record : Record) :
    installation.write facade time [record] =
      if installation.enabled facade record.level record.target then record.line time else "" := by
  unfold write enabled
  cases facade.logger installation.contents with
  | none => rfl
  | some logger =>
      by_cases shown : logger.enabled record.level record.target = true
      · simp [Logger.write, shown]
      · simp [Logger.write, shown]

/-- The log is made of one line for each record that is enabled. -/
theorem log_lines (installation : Installation σ) (entries : List (String × Record)) :
    ∃ lines, installation.log facade entries = String.join lines ∧
      List.Forall₂ (fun entry line => Line entry.1 entry.2 line)
        (installation.shown facade entries) lines := by
  induction entries with
  | nil => exact ⟨[], rfl, .nil⟩
  | cons entry later ih =>
      obtain ⟨lines, joined, formed⟩ := ih
      rw [log, write_singleton, joined]
      by_cases enabled : installation.enabled facade entry.2.level entry.2.target = true
      · rw [if_pos enabled, shown, List.filter_cons, if_pos enabled]
        exact ⟨entry.2.line entry.1 :: lines, String.join_cons.symm,
          .cons (line_of_record entry.2 entry.1) formed⟩
      · rw [if_neg enabled, shown, List.filter_cons, if_neg enabled, String.empty_append]
        exact ⟨lines, rfl, formed⟩

theorem Holds.enabled {offer : Offer} (holds : Holds facade installation offer.logger)
    (level : Level) (target : String) :
    installation.enabled facade level target = true ↔ offer.Shows level target := by
  rw [Installation.enabled, holds.used]
  exact Offer.enabled_logger

/-- What has come of a list of offers to a facade that had no logger: the first is the only one that
succeeds and that counts. -/
structure FirstDecides (facade : Facade σ) (contents : σ) (offers : List Offer)
    (answers : List (Except Facade.Error Unit)) (final : Installation σ) : Prop where
  nothing : offers = [] → answers = [] ∧ final = ⟨none, contents⟩
  first : ∀ offer later, offers = offer :: later →
    answers = .ok () :: later.map (fun _ => .error .alreadySet) ∧
      final.made = some offer.logger ∧ facade.logger final.contents = some offer.logger ∧
      facade.threshold final.contents = offer.threshold
  enabled : ∀ level target, final.enabled facade level target = true ↔
    ∃ offer ∈ offers.head?, offer.Shows level target
  unlisted : ∀ offer ∈ offers.head?, ∀ filter ∈ offer.filter,
    (∀ c ∈ filter.toList, c = ',' ∨ isBlank c) →
      ∀ level target, level ∈ [.debug, .trace] → final.enabled facade level target = false
  written : ∀ entries, ∃ lines, final.log facade entries = String.join lines ∧
    List.Forall₂ (fun entry line => Line entry.1 entry.2 line) (final.shown facade entries) lines

/-- Of all loggers that are offered the first is installed, and it alone decides what is written. -/
theorem first_offer_decides (documented : facade.Documented) {contents : σ}
    (unset : facade.logger contents = none) (offers : List Offer) :
    FirstDecides facade contents offers
      (installAll ⟨none, contents⟩ facade (offers.map Offer.logger)).1
      (installAll ⟨none, contents⟩ facade (offers.map Offer.logger)).2 := by
  cases offers with
  | nil =>
      exact {
        nothing := fun _ => ⟨rfl, rfl⟩
        first := nofun
        enabled := fun level target => by simp [installAll, enabled, unset]
        unlisted := nofun
        written := log_lines _ }
  | cons offer later =>
      obtain ⟨answers, holds⟩ := installAll_unset documented unset offer.logger (later.map Offer.logger)
      rw [List.map_cons]
      refine ⟨nofun, ?_, ?_, ?_, log_lines _⟩
      · intro first rest same
        cases same
        refine ⟨?_, holds.made, holds.used, holds.threshold⟩
        rw [answers, List.map_map]
        rfl
      · intro level target
        rw [holds.enabled]
        simp
      · intro first head filter given blank level target diagnostic
        cases head
        rw [← Bool.not_eq_true, holds.enabled]
        intro shows
        rcases shows.listed filter given with grave | listed
        · cases level <;> simp at diagnostic grave
        · exact Offer.not_lists_of_blank blank listed

/-- The second offer comes too late.  The filter of the first lists one topic of two, and grave
records pass it whatever their topic is. -/
theorem first_offer_decides_filtered :
    let offers : List Offer := [⟨.upTo .trace, some " vm,, instr"⟩, ⟨.off, none⟩]
    let outcome := installAll ⟨none, .empty⟩ Facade.slots (offers.map Offer.logger)
    outcome.1 = [.ok (), .error .alreadySet] ∧
      Facade.slots.threshold outcome.2.contents = .upTo .trace ∧
      outcome.2.enabled Facade.slots .debug "intcode" = false ∧
      outcome.2.log Facade.slots
          [("07:05:00.000", ⟨.debug, "vm", some "intcode::vm::machine", "[M01] Reset"⟩),
            ("07:05:00.001", ⟨.debug, "intcode", some "intcode", "not listed"⟩),
            ("07:05:00.002", ⟨.warn, "intcode", some "intcode", "Step limit of 7 reached"⟩)] =
        "07:05:00.000 \x1b[36mDEBUG\x1b[0m vm: [M01] Reset [intcode::vm::machine]\n" ++
          "07:05:00.002 \x1b[33mWARN \x1b[0m intcode: Step limit of 7 reached\n" := by
  intro offers outcome
  have decides := @first_offer_decides _ _ Facade.slots_documented .empty rfl offers
  obtain ⟨answers, -, -, threshold⟩ := decides.first _ _ rfl
  exact ⟨answers, threshold, by decide +kernel, by decide +kernel⟩

end Installation

end Intcode.Log
