import Intcode.CommandLine.Session
import Intcode.Proofs.Grammar

/-! # Layouts of listings

A layout is a list of cells with everything that may stand around their canonical forms: blanks
at both ends and around each of them, and a comma after the last.  `fields_eq` reads the fields
of any text off its pieces, so that blanks never matter and a comma at the end adds one blank
piece that is dropped again.  Every layout is read as its cells, the one of a memory dump included.
-/

namespace Intcode.Text

theorem Trimmed.padded {before text after core : List Char} (blankBefore : ∀ c ∈ before, isBlank c)
    (trimmed : Trimmed text core) (blankAfter : ∀ c ∈ after, isBlank c) :
    Trimmed (before ++ (text ++ after)) core := by
  obtain ⟨left, right, blankLeft, blankRight, rfl⟩ := trimmed.around
  refine ⟨⟨before ++ left, right ++ after, ?_, ?_, by simp⟩, trimmed.first, trimmed.last⟩
  · exact List.forall_mem_append.mpr ⟨blankBefore, blankLeft⟩
  · exact List.forall_mem_append.mpr ⟨blankRight, blankAfter⟩

theorem trim_padded {before after : List Char} (blankBefore : ∀ c ∈ before, isBlank c)
    (text : List Char) (blankAfter : ∀ c ∈ after, isBlank c) :
    trim (before ++ (text ++ after)) = trim text :=
  ((trimmed_trim text).padded blankBefore blankAfter).trim_eq

section Pieces

variable {α : Type} (separator : α)

theorem append_join_cons (extra piece : List α) (pieces : List (List α)) :
    extra ++ join separator (piece :: pieces) = join separator ((extra ++ piece) :: pieces) := by
  cases pieces with
  | nil => rw [join_singleton, join_singleton]
  | cons next pieces => rw [join_cons_cons, join_cons_cons, List.append_assoc]

theorem join_concat {pieces : List (List α)} (nonempty : pieces ≠ []) (piece : List α) :
    join separator (pieces ++ [piece]) = join separator pieces ++ separator :: piece := by
  induction pieces with
  | nil => contradiction
  | cons first rest ih =>
      cases rest with
      | nil => rw [List.singleton_append, join_cons_cons, join_singleton, join_singleton]
      | cons next rest =>
          rw [List.cons_append, List.cons_append, join_cons_cons, ← List.cons_append,
            ih (by simp), join_cons_cons, List.append_assoc, List.cons_append]

theorem join_concat_append (pieces : List (List α)) (piece extra : List α) :
    join separator (pieces ++ [piece]) ++ extra = join separator (pieces ++ [piece ++ extra]) := by
  by_cases empty : pieces = []
  · subst empty
    rw [List.nil_append, List.nil_append, join_singleton, join_singleton]
  · rw [join_concat separator empty, join_concat separator empty, List.append_assoc,
      List.cons_append]

theorem mem_join {c : α} {pieces : List (List α)} (member : c ∈ join separator pieces) :
    c = separator ∨ ∃ piece ∈ pieces, c ∈ piece := by
  induction pieces with
  | nil => simp at member
  | cons first rest ih =>
      cases rest with
      | nil =>
          rw [join_singleton] at member
          exact .inr ⟨first, by simp, member⟩
      | cons next rest =>
          rw [join_cons_cons, List.mem_append, List.mem_cons] at member
          rcases member with inFirst | same | later
          · exact .inr ⟨first, by simp, inFirst⟩
          · exact .inl same
          · rcases ih later with same | ⟨piece, among, inPiece⟩
            · exact .inl same
            · exact .inr ⟨piece, List.mem_cons_of_mem _ among, inPiece⟩

end Pieces

/-! ## Pieces between commas, less their blanks -/

theorem comma_notMem_blanks {blanks : List Char} (blank : ∀ c ∈ blanks, isBlank c) :
    ',' ∉ blanks := fun member => absurd (blank ',' member) (by decide)

/-- The pieces of a text between its commas, without the blanks around them. -/
def trimmedPieces (text : List Char) : List (List Char) :=
  (split ',' text).map trim

theorem cuts_split (text : List Char) : Cuts ',' text (split ',' text) :=
  split_eq_iff.mp rfl

theorem pieces_eq_of_cuts {text : List Char} {pieces : List (List Char)} (cuts : Cuts ',' text pieces) :
    trimmedPieces text = pieces.map trim :=
  congrArg (List.map trim) (split_eq_iff.mpr cuts)

theorem pieces_append_left {blanks : List Char} (blank : ∀ c ∈ blanks, isBlank c)
    (text : List Char) : trimmedPieces (blanks ++ text) = trimmedPieces text := by
  have cuts := cuts_split text
  obtain ⟨piece, pieces, cut⟩ := List.exists_cons_of_ne_nil cuts.nonempty
  rw [cut] at cuts
  have padded : Cuts ',' (blanks ++ text) ((blanks ++ piece) :: pieces) := by
    refine ⟨by simp, ?_, ?_⟩
    · rw [← append_join_cons, cuts.joined]
    · have apart := List.forall_mem_cons.mp cuts.apart
      refine List.forall_mem_cons.mpr ⟨?_, apart.2⟩
      rw [List.mem_append, not_or]
      exact ⟨comma_notMem_blanks blank, apart.1⟩
  have trimmed : trim (blanks ++ (piece ++ [])) = trim piece := trim_padded blank piece (by simp)
  rw [List.append_nil] at trimmed
  rw [pieces_eq_of_cuts padded, pieces_eq_of_cuts cuts, List.map_cons, trimmed, List.map_cons]

theorem pieces_append_right (text : List Char) {blanks : List Char}
    (blank : ∀ c ∈ blanks, isBlank c) : trimmedPieces (text ++ blanks) = trimmedPieces text := by
  have cuts := cuts_split text
  obtain ⟨pieces, piece, cut⟩ := (List.eq_nil_or_concat' _).resolve_left cuts.nonempty
  rw [cut] at cuts
  have padded : Cuts ',' (text ++ blanks) (pieces ++ [piece ++ blanks]) := by
    refine ⟨by simp, ?_, ?_⟩
    · rw [← join_concat_append, cuts.joined]
    · have apart := List.forall_mem_append.mp cuts.apart
      refine List.forall_mem_append.mpr ⟨apart.1, List.forall_mem_singleton.mpr ?_⟩
      rw [List.mem_append, not_or]
      exact ⟨apart.2 piece (by simp), comma_notMem_blanks blank⟩
  have trimmed : trim ([] ++ (piece ++ blanks)) = trim piece := trim_padded (by simp) piece blank
  rw [List.nil_append] at trimmed
  rw [pieces_eq_of_cuts padded, pieces_eq_of_cuts cuts, List.map_append, List.map_append,
    List.map_singleton, trimmed, List.map_singleton]

theorem pieces_trim (text : List Char) : trimmedPieces (trim text) = trimmedPieces text := by
  obtain ⟨before, after, blankBefore, blankAfter, cut⟩ := (trimmed_trim text).around
  have padded : trimmedPieces (before ++ (trim text ++ after)) = trimmedPieces (trim text) := by
    rw [pieces_append_left blankBefore, pieces_append_right _ blankAfter]
  rw [← padded, ← cut]

theorem pieces_append_comma (text : List Char) {last : List Char} (apart : ',' ∉ last) :
    trimmedPieces (text ++ ',' :: last) = trimmedPieces text ++ [trim last] := by
  have cuts := cuts_split text
  have longer : Cuts ',' (text ++ ',' :: last) (split ',' text ++ [last]) := by
    refine ⟨by simp, ?_, ?_⟩
    · rw [join_concat ',' cuts.nonempty, cuts.joined]
    · exact List.forall_mem_append.mpr ⟨cuts.apart, List.forall_mem_singleton.mpr apart⟩
  rw [pieces_eq_of_cuts longer, List.map_append, List.map_singleton, trimmedPieces]

/-- A text whose last piece is blank ends with a comma or with a blank. -/
theorem ends_of_blank_piece {text : List Char} (blank : (trimmedPieces text).getLast? = some []) :
    ∀ c ∈ text.getLast?, c = ',' ∨ isBlank c := by
  have cuts := cuts_split text
  obtain ⟨pieces, piece, cut⟩ := (List.eq_nil_or_concat' _).resolve_left cuts.nonempty
  rw [cut] at cuts
  rw [pieces_eq_of_cuts cuts, List.map_append, List.map_singleton, List.getLast?_concat,
    Option.some.injEq, trim_eq_nil_iff] at blank
  intro c last
  by_cases empty : pieces = []
  · have alone : text = piece := by
      rw [← cuts.joined, empty, List.nil_append, join_singleton]
    rw [alone] at last
    exact .inr (blank c (List.mem_of_getLast? last))
  · have parted : text = join ',' pieces ++ ',' :: piece := by
      rw [← cuts.joined, join_concat ',' empty]
    rw [parted, List.getLast?_append_of_ne_nil _ (List.cons_ne_nil _ _)] at last
    exact (List.mem_cons.mp (List.mem_of_getLast? last)).imp_right (blank c)

end Intcode.Text

namespace Intcode.Decimal

open Intcode.Text

theorem sign_or_digit_of_mem_digits {value : Int} {c : Char} (member : c ∈ digits value) :
    c = '-' ∨ c.isDigit = true := by
  cases value with
  | ofNat n => exact .inr (isDigit_of_mem_naturalDigits member)
  | negSucc n => exact (List.mem_cons.mp member).imp_right isDigit_of_mem_naturalDigits

theorem not_isBlank_of_isDigit {c : Char} (digit : c.isDigit = true) : isBlank c = false := by
  obtain ⟨d, rfl, -⟩ := exists_digitChar digit
  revert d
  decide

theorem not_isBlank_of_mem_digits {value : Int} {c : Char} (member : c ∈ digits value) :
    isBlank c = false := by
  rcases sign_or_digit_of_mem_digits member with rfl | digit
  · rfl
  · exact not_isBlank_of_isDigit digit

theorem digits_ne_nil (value : Int) : digits value ≠ [] := by
  cases value with
  | ofNat n => exact naturalDigits_ne_nil n
  | negSucc n => exact List.cons_ne_nil _ _

theorem comma_notMem_digits (value : Int) : ',' ∉ digits value := by
  intro member
  rcases sign_or_digit_of_mem_digits member with sign | digit
  · contradiction
  · contradiction

theorem trim_digits (value : Int) : trim (digits value) = digits value := by
  refine Trimmed.trim_eq ⟨⟨[], [], by simp, by simp, by simp⟩, ?_, ?_⟩
  · intro c first
    exact not_isBlank_of_mem_digits (List.mem_of_head? first)
  · intro c last
    exact not_isBlank_of_mem_digits (List.mem_of_getLast? last)

end Intcode.Decimal

namespace Intcode.Listing

open Intcode.Text Intcode.Decimal

/-- The fields of a text are its pieces, less the last one where that is blank. -/
theorem fields_eq (text : List Char) :
    fields text =
      if (trimmedPieces text).getLast? = some [] then (trimmedPieces text).dropLast
      else trimmedPieces text := by
  have trimmed := trimmed_trim text
  rw [← pieces_trim, fields]
  by_cases blank : trim text = []
  · -- A blank text is one blank piece, and nothing is left without it.
    rw [if_pos blank, blank]
    rfl
  · rw [if_neg blank, dropFinalComma]
    by_cases closed : (trim text).getLast? = some ','
    · obtain ⟨body, cut⟩ := List.getLast?_eq_some_iff.mp closed
      have longer : trimmedPieces (body ++ [',']) = trimmedPieces body ++ [trim []] :=
        pieces_append_comma body (by simp)
      rw [trim_nil] at longer
      rw [if_pos closed, cut, longer, List.getLast?_concat, if_pos rfl, List.dropLast_concat,
        List.dropLast_concat]
      rfl
    · have filled : (trimmedPieces (trim text)).getLast? ≠ some [] := by
        -- What is trimmed ends with no blank, and here with no comma either.
        intro blankPiece
        obtain ⟨c, last⟩ := Option.ne_none_iff_exists'.mp (mt List.getLast?_eq_none_iff.mp blank)
        rcases ends_of_blank_piece blankPiece c last with rfl | blankEnd
        · exact closed last
        · rw [trimmed.last c last] at blankEnd
          contradiction
      rw [if_neg closed, if_neg filled]
      rfl

/-! ## Layouts -/

structure Blanks where
  text : List Char
  blank : ∀ c ∈ text, isBlank c

/-- A cell with the blanks around its canonical form. -/
structure Entry where
  before : Blanks
  cell : Int
  after : Blanks

structure Layout where
  leading : Blanks
  entries : List Entry
  /-- Whether a comma follows the last cell. -/
  closed : Bool
  closable : closed = true → entries ≠ []
  trailing : Blanks

def Entry.text (entry : Entry) : List Char :=
  entry.before.text ++ (digits entry.cell ++ entry.after.text)

namespace Layout

def cells (layout : Layout) : List Int :=
  layout.entries.map (·.cell)

def ending (layout : Layout) : List Char :=
  match layout.closed with
  | true => ',' :: layout.trailing.text
  | false => layout.trailing.text

def text (layout : Layout) : List Char :=
  layout.leading.text ++ (join ',' (layout.entries.map Entry.text) ++ layout.ending)

end Layout

theorem Entry.trim_text (entry : Entry) : trim entry.text = digits entry.cell := by
  rw [Entry.text, trim_padded entry.before.blank _ entry.after.blank, trim_digits]

theorem Entry.comma_notMem_text (entry : Entry) : ',' ∉ entry.text := by
  rw [Entry.text, List.mem_append, List.mem_append, not_or, not_or]
  exact ⟨comma_notMem_blanks entry.before.blank, comma_notMem_digits entry.cell,
    comma_notMem_blanks entry.after.blank⟩

theorem pieces_join_entries {entries : List Entry} (nonempty : entries ≠ []) :
    trimmedPieces (join ',' (entries.map Entry.text)) =
      entries.map fun entry => digits entry.cell := by
  have cuts : Cuts ',' (join ',' (entries.map Entry.text)) (entries.map Entry.text) := by
    refine ⟨by simpa using nonempty, rfl, ?_⟩
    intro piece member
    obtain ⟨entry, -, rfl⟩ := List.mem_map.mp member
    exact entry.comma_notMem_text
  rw [pieces_eq_of_cuts cuts, List.map_map]
  exact List.map_congr_left fun entry _ => entry.trim_text

theorem Layout.fields_text (layout : Layout) :
    fields layout.text = layout.cells.map digits := by
  have canonical : layout.cells.map digits = layout.entries.map fun entry => digits entry.cell :=
    List.map_map
  rw [fields_eq, Layout.text, pieces_append_left layout.leading.blank, canonical]
  by_cases empty : layout.entries = []
  · have unclosed : layout.closed = false := by
      rw [← Bool.not_eq_true]
      exact fun closed => layout.closable closed empty
    have blank := pieces_append_right [] layout.trailing.blank
    rw [List.nil_append] at blank
    simp only [empty, Layout.ending, unclosed, List.map_nil, join_nil, List.nil_append, blank]
    rfl
  · have pieces := pieces_join_entries empty
    unfold Layout.ending
    cases layout.closed with
    | true =>
        have trimmed : trim layout.trailing.text = [] := trim_eq_nil_iff.mpr layout.trailing.blank
        rw [pieces_append_comma _ (comma_notMem_blanks layout.trailing.blank), pieces, trimmed,
          List.getLast?_concat, if_pos rfl, List.dropLast_concat]
    | false =>
        have filled : (layout.entries.map fun entry => digits entry.cell).getLast? ≠ some [] := by
          intro last
          obtain ⟨entry, -, blank⟩ := List.mem_map.mp (List.mem_of_getLast? last)
          exact digits_ne_nil entry.cell blank
        rw [pieces_append_right _ layout.trailing.blank, pieces, if_neg filled]

theorem Layout.parse_text (layout : Layout) :
    parse (String.ofList layout.text) = .ok layout.cells := by
  rw [parse, numbered_eq_ok_iff, String.toList_ofList, layout.fields_text,
    List.forall₂_map_left_iff, List.forall₂_same]
  intro cell _
  exact readInteger?_eq_some_iff.mp (readInteger?_digits cell)

def Blanks.none : Blanks :=
  ⟨[], by simp⟩

/-- The layout without blanks and without a comma at the end. -/
def Layout.plain (cells : List Int) : Layout where
  leading := .none
  entries := cells.map fun cell => ⟨.none, cell, .none⟩
  closed := false
  closable := nofun
  trailing := .none

theorem Layout.cells_plain (cells : List Int) : (plain cells).cells = cells := by
  simp [plain, Layout.cells, Function.comp_def]

theorem Layout.text_plain (cells : List Int) : String.ofList (plain cells).text = render cells := by
  have canonical : ((plain cells).entries.map Entry.text) = cells.map digits := by
    simp [plain, Entry.text, Blanks.none, Function.comp_def]
  rw [Layout.text, canonical, render]
  simp [plain, Layout.ending, Blanks.none]

theorem parse_render (cells : List Int) : parse (render cells) = .ok cells := by
  rw [← Layout.text_plain, Layout.parse_text, Layout.cells_plain]

theorem newline_notMem_render (cells : List Int) : '\n' ∉ (render cells).toList := by
  rw [render, String.toList_ofList]
  intro member
  rcases mem_join ',' member with comma | ⟨piece, among, inPiece⟩
  · contradiction
  · obtain ⟨cell, -, rfl⟩ := List.mem_map.mp among
    rcases sign_or_digit_of_mem_digits inPiece with sign | digit
    · contradiction
    · contradiction

end Intcode.Listing

namespace Intcode

theorem Store.Dense.values_entries (memory : Store.Dense) :
    memory.entries.map (·.2) = memory.cells.toList := by
  rw [entries, List.map_map]
  exact List.zipIdx_map_fst 0 memory.cells.toList

theorem Store.Dense.ofCells_toList (memory : Store.Dense) : ofCells memory.cells.toList = memory := by
  rw [ofCells, Array.toArray_toList]

namespace CommandLine

theorem Session.dump_of_dense {session : Session} {memory : Store.Dense}
    (asked : session.options.dumpMemory = true) (contiguous : session.options.sparse = false)
    (held : session.machine.state.memory = .dense memory) :
    session.dump = [Listing.render memory.cells.toList] := by
  rw [Session.dump, asked, contiguous, held, Store.entries, memory.values_entries]
  rfl

/-- Every layout of a list of cells is read as that list.  So the one line that shows a contiguous
memory is read as the cells of that memory, and loading them gives it back. -/
theorem listing_reloads :
    (∀ layout : Listing.Layout, Listing.parse (String.ofList layout.text) = .ok layout.cells) ∧
      (∀ cells, Listing.parse (Listing.render cells) = .ok cells) ∧
      ∀ (session : Session) (memory : Store.Dense), session.options.dumpMemory = true →
        session.options.sparse = false → session.machine.state.memory = .dense memory →
          ∃ line, session.dump = [line] ∧ '\n' ∉ line.toList ∧
            Listing.parse line = .ok memory.cells.toList ∧
            Store.ofCells .dense memory.cells.toList = .dense memory := by
  refine ⟨Listing.Layout.parse_text, Listing.parse_render, ?_⟩
  intro session memory asked contiguous held
  refine ⟨_, Session.dump_of_dense asked contiguous held, Listing.newline_notMem_render _,
    Listing.parse_render _, ?_⟩
  rw [Store.ofCells, memory.ofCells_toList]

theorem listing_reloads_spaced :
    let layout : Listing.Layout :=
      { leading := ⟨['\n'], List.all_eq_true.mp rfl⟩
        entries :=
          [⟨⟨[' ', '\u3000'], List.all_eq_true.mp rfl⟩, -12, ⟨['\t'], List.all_eq_true.mp rfl⟩⟩,
            ⟨.none, 0, .none⟩]
        closed := true
        closable := by simp
        trailing := ⟨['\r', '\n'], List.all_eq_true.mp rfl⟩ }
    let options : Options := ⟨"echo", [], false, 9, false, true, none, "off"⟩
    let session : Session := ⟨options, Machine.load .dense 1 [104, -7, 99], 9⟩
    String.ofList layout.text = "\n \u3000-12\t,0,\r\n" ∧
      Listing.parse (String.ofList layout.text) = .ok [-12, 0] ∧
      session.options.dumpMemory = true ∧ session.options.sparse = false ∧
      session.machine.state.memory = .dense ⟨#[104, -7, 99]⟩ ∧
      ∃ line, session.dump = [line] ∧ Listing.parse line = .ok [104, -7, 99] := by
  intro layout options session
  obtain ⟨layouts, -, dumps⟩ := listing_reloads
  obtain ⟨line, shown, -, parsed, -⟩ := dumps session ⟨#[104, -7, 99]⟩ rfl rfl rfl
  exact ⟨by decide +kernel, layouts layout, rfl, rfl, rfl, line, shown, parsed⟩

end CommandLine

end Intcode
