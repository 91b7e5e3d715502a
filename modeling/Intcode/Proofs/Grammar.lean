import Mathlib.Data.List.Forall2
import Intcode.Listing
import Intcode.Proofs.Fields

/-! # The grammar of listings

`Lists` is the grammar: a blank text lists nothing, and any other text lists the integers its
fields denote.  `FirstBad` is what a text outside the grammar has instead, the first field that
is no literal.  `parse` accepts the first kind of text and refuses the second at that field.
The integers themselves may be read by any reader that knows every literal (`parseBy`).
-/

namespace Intcode.Listing

open Intcode.Text Intcode.Decimal

/-- A text and what is left of it without a comma at its end. -/
def Unclosed (core body : List Char) : Prop :=
  core = body ++ [','] ∨ core = body ∧ core.getLast? ≠ some ','

theorem dropFinalComma_eq_iff {core body : List Char} :
    dropFinalComma core = body ↔ Unclosed core body := by
  unfold dropFinalComma Unclosed
  split
  · rename_i closed
    obtain ⟨start, rfl⟩ := List.getLast?_eq_some_iff.mp closed
    simp
  · rename_i unclosed
    constructor
    · intro same
      exact .inr ⟨same, unclosed⟩
    · intro parted
      rcases parted with rfl | ⟨same, -⟩
      · simp at unclosed
      · exact same

/-- The fields of a text that is not blank: what its commas part, less the blanks around each. -/
def Fielded (text : List Char) (parts : List (List Char)) : Prop :=
  ∃ core body pieces, Trimmed text core ∧ core ≠ [] ∧ Unclosed core body ∧
    Cuts ',' body pieces ∧ List.Forall₂ Trimmed pieces parts

theorem map_trim_eq_iff {pieces parts : List (List Char)} :
    pieces.map trim = parts ↔ List.Forall₂ Trimmed pieces parts := by
  rw [← List.forall₂_eq_eq_eq, List.forall₂_map_left_iff]
  simp only [trim_eq_iff]

theorem fielded_iff {text : List Char} {parts : List (List Char)} :
    Fielded text parts ↔ trim text ≠ [] ∧ fields text = parts := by
  constructor
  · intro fielded
    obtain ⟨core, body, pieces, trimmed, nonempty, unclosed, cuts, trimmedParts⟩ := fielded
    rw [← trimmed.trim_eq] at nonempty unclosed
    rw [← dropFinalComma_eq_iff] at unclosed
    rw [← split_eq_iff, ← unclosed] at cuts
    rw [← map_trim_eq_iff, ← cuts] at trimmedParts
    rw [fields, if_neg nonempty]
    exact ⟨nonempty, trimmedParts⟩
  · intro found
    obtain ⟨nonempty, rfl⟩ := found
    rw [fields, if_neg nonempty]
    exact ⟨_, _, _, trimmed_trim text, nonempty, dropFinalComma_eq_iff.mp rfl,
      split_eq_iff.mp rfl, map_trim_eq_iff.mp rfl⟩

theorem fields_of_blank {text : List Char} (blank : ∀ c ∈ text, isBlank c) : fields text = [] :=
  if_pos (trim_eq_nil_iff.mpr blank)

/-- The texts of the grammar, with the cells they list. -/
inductive Lists (text : List Char) : List Int → Prop where
  | nothing (blank : ∀ c ∈ text, isBlank c) : Lists text []
  | cells {parts : List (List Char)} {cells : List Int} (fielded : Fielded text parts)
      (denoted : List.Forall₂ Literal parts cells) : Lists text cells

/-- The field at an index is the first one that is no literal. -/
def FirstIn (parts : List (List Char)) (index : Nat) (bad : List Char) : Prop :=
  ∃ before after, parts = before ++ bad :: after ∧ before.length = index ∧
    (∀ field ∈ before, ∃ cell, Literal field cell) ∧ ∀ cell, ¬ Literal bad cell

def FirstBad (text : List Char) (index : Nat) (bad : List Char) : Prop :=
  ∃ parts, Fielded text parts ∧ FirstIn parts index bad

theorem firstIn_cons_of_bad {field : List Char} (fieldBad : ∀ cell, ¬ Literal field cell)
    {rest : List (List Char)} {index : Nat} {bad : List Char} :
    FirstIn (field :: rest) index bad ↔ index = 0 ∧ bad = field := by
  constructor
  · intro first
    obtain ⟨before, after, parted, counted, good, -⟩ := first
    cases before with
    | nil =>
        obtain ⟨rfl, rfl⟩ := List.cons.inj parted
        exact ⟨counted.symm, rfl⟩
    | cons other before =>
        obtain ⟨rfl, rfl⟩ := List.cons.inj parted
        obtain ⟨cell, literal⟩ := good field (by simp)
        exact absurd literal (fieldBad cell)
  · intro here
    obtain ⟨rfl, rfl⟩ := here
    exact ⟨[], rest, rfl, rfl, by simp, fieldBad⟩

theorem firstIn_cons_of_literal {field : List Char} {cell : Int} (literal : Literal field cell)
    {rest : List (List Char)} {index : Nat} {bad : List Char} :
    FirstIn (field :: rest) index bad ↔ ∃ later, index = later + 1 ∧ FirstIn rest later bad := by
  constructor
  · intro first
    obtain ⟨before, after, parted, counted, good, isBad⟩ := first
    cases before with
    | nil =>
        obtain ⟨rfl, rfl⟩ := List.cons.inj parted
        exact absurd literal (isBad cell)
    | cons other before =>
        obtain ⟨rfl, rfl⟩ := List.cons.inj parted
        exact ⟨before.length, counted.symm, before, after, rfl, rfl,
          (List.forall_mem_cons.mp good).2, isBad⟩
  · intro deeper
    obtain ⟨later, rfl, before, after, rfl, rfl, good, isBad⟩ := deeper
    refine ⟨field :: before, after, rfl, rfl, ?_, isBad⟩
    exact List.forall_mem_cons.mpr ⟨⟨cell, literal⟩, good⟩

/-! ## One field -/

theorem readField_eq_ok_iff {field : List Char} {cell : Int} :
    readField field = .ok cell ↔ Literal field cell := by
  rw [← readInteger?_eq_some_iff, readField]
  cases readInteger? field with
  | some value => simp
  | none =>
      simp only [reduceCtorEq, iff_false]
      split <;> simp

def causeOf (field : List Char) : Cause :=
  if field = [] then .empty else .malformed (String.ofList field)

theorem readField_eq_error_iff {field : List Char} {cause : Cause} :
    readField field = .error cause ↔ (∀ cell, ¬ Literal field cell) ∧ cause = causeOf field := by
  simp only [← readInteger?_eq_some_iff]
  rw [readField, causeOf]
  cases readInteger? field with
  | some value => simp
  | none => by_cases empty : field = [] <;> simp [empty, eq_comm]

theorem Cause.message_empty : Cause.empty.message = "Empty cell" := rfl

theorem Cause.message_malformed (literal : String) :
    (Cause.malformed literal).message = "Invalid integer literal '" ++ literal ++ "'" := rfl

theorem Cause.message_eq_empty_iff {cause : Cause} :
    cause.message = "Empty cell" ↔ cause = .empty := by
  cases cause with
  | empty => simp only [Cause.message_empty]
  | malformed literal =>
      rw [Cause.message_malformed]
      refine iff_of_false (fun same => ?_) (by simp)
      -- The two messages differ in their first letter.
      have first := congrArg (fun text : String => text.toList.head?) same
      simp at first

theorem causeOf_eq_empty_iff {field : List Char} : causeOf field = .empty ↔ field = [] := by
  unfold causeOf
  split <;> simp [*]

/-! ## The fields in order -/

theorem numbered_cons (start : Nat) (field : List Char) (parts : List (List Char)) :
    ((field :: parts).zipIdx start).mapM readNumbered =
      match readField field with
      | .ok cell => ((parts.zipIdx (start + 1)).mapM readNumbered).map (cell :: ·)
      | .error cause => .error ⟨start, cause⟩ := by
  rw [List.zipIdx_cons, List.mapM_cons, readNumbered]
  cases readField field with
  | ok cell => cases (parts.zipIdx (start + 1)).mapM readNumbered <;> rfl
  | error cause => rfl

theorem numbered_eq_ok_iff (start : Nat) (parts : List (List Char)) (cells : List Int) :
    (parts.zipIdx start).mapM readNumbered = .ok cells ↔ List.Forall₂ Literal parts cells := by
  induction parts generalizing start cells with
  | nil => simp [pure, Except.pure, eq_comm]
  | cons field rest ih =>
      rw [numbered_cons]
      cases read : readField field with
      | error cause =>
          have bad := (readField_eq_error_iff.mp read).1
          simp [List.forall₂_cons_left_iff, bad]
      | ok cell =>
          have unique (value : Int) : Literal field value ↔ cell = value := by
            rw [← readField_eq_ok_iff, read, Except.ok.injEq]
          have onRest (values : List Int) := ih (start + 1) values
          simp only [List.forall₂_cons_left_iff, unique, ← onRest]
          cases (rest.zipIdx (start + 1)).mapM readNumbered with
          | error error => simp [Except.map]
          | ok values => simp [Except.map, eq_comm]

theorem numbered_eq_error_iff (start : Nat) (parts : List (List Char)) (error : Error) :
    (parts.zipIdx start).mapM readNumbered = .error error ↔
      ∃ index bad, FirstIn parts index bad ∧ error = ⟨start + index, causeOf bad⟩ := by
  induction parts generalizing start with
  | nil => simp [pure, Except.pure, FirstIn]
  | cons field rest ih =>
      rw [numbered_cons]
      cases read : readField field with
      | error cause =>
          obtain ⟨bad, rfl⟩ := readField_eq_error_iff.mp read
          simp [firstIn_cons_of_bad bad, eq_comm]
      | ok cell =>
          have onRest : ((rest.zipIdx (start + 1)).mapM readNumbered).map (cell :: ·) =
              .error error ↔ (rest.zipIdx (start + 1)).mapM readNumbered = .error error := by
            cases (rest.zipIdx (start + 1)).mapM readNumbered <;> simp [Except.map]
          simp only [onRest, ih, firstIn_cons_of_literal (readField_eq_ok_iff.mp read)]
          constructor
          · intro found
            obtain ⟨later, bad, first, rfl⟩ := found
            refine ⟨later + 1, bad, ⟨later, rfl, first⟩, ?_⟩
            rw [Nat.add_right_comm, Nat.add_assoc]
          · intro found
            obtain ⟨index, bad, ⟨later, rfl, first⟩, rfl⟩ := found
            refine ⟨later, bad, first, ?_⟩
            rw [Nat.add_right_comm, Nat.add_assoc]

/-! ## The whole text -/

theorem parse_eq_ok_iff {text : String} {cells : List Int} :
    parse text = .ok cells ↔ Lists text.toList cells := by
  rw [parse, numbered_eq_ok_iff]
  constructor
  · intro denoted
    by_cases blank : trim text.toList = []
    · have blank := trim_eq_nil_iff.mp blank
      rw [fields_of_blank blank, List.forall₂_nil_left_iff] at denoted
      subst denoted
      exact .nothing blank
    · exact .cells (fielded_iff.mpr ⟨blank, rfl⟩) denoted
  · intro lists
    cases lists with
    | nothing blank =>
        rw [fields_of_blank blank]
        exact .nil
    | cells fielded denoted =>
        rw [(fielded_iff.mp fielded).2]
        exact denoted

theorem firstBad_iff {text : List Char} {index : Nat} {bad : List Char} :
    FirstBad text index bad ↔ FirstIn (fields text) index bad := by
  constructor
  · intro found
    obtain ⟨parts, fielded, first⟩ := found
    rw [(fielded_iff.mp fielded).2]
    exact first
  · intro first
    refine ⟨fields text, fielded_iff.mpr ⟨?_, rfl⟩, first⟩
    -- A blank text has no fields, so none of them is bad.
    intro blank
    obtain ⟨before, after, parted, -⟩ := first
    rw [fields_of_blank (trim_eq_nil_iff.mp blank)] at parted
    simp at parted

theorem parse_eq_error_iff {text : String} {error : Error} :
    parse text = .error error ↔
      ∃ bad, FirstBad text.toList error.index bad ∧ error.cause = causeOf bad := by
  simp only [parse, numbered_eq_error_iff, firstBad_iff, Nat.zero_add]
  constructor
  · intro found
    obtain ⟨index, bad, first, rfl⟩ := found
    exact ⟨bad, first, rfl⟩
  · intro found
    obtain ⟨bad, first, named⟩ := found
    exact ⟨error.index, bad, first, by rw [← named]⟩

/-! ## A reader of integers from outside -/

/-- Why a field is refused when a reader is asked for its integer. -/
inductive Refusal where
  | cause (cause : Cause)
  | unread (literal : List Char) (reason : String)
deriving DecidableEq, Repr

def magnitude (field : List Char) : List Char :=
  if field.head? = some '-' then field.tail else field

/-- Checks the form of a field and leaves the integer to a reader. -/
def readFieldBy (reader : List Char → Except String Int) (field : List Char) :
    Except Refusal Int :=
  if field = [] then .error (.cause .empty)
  else if magnitude field = [] ∨ ¬ (magnitude field).all Char.isDigit then
    .error (.cause (.malformed (String.ofList field)))
  else (reader field).mapError (.unread field)

/-- Reads a listing as `parse` does, with the integers left to a reader. -/
def parseBy (reader : List Char → Except String Int) (text : String) :
    Except (Nat × Refusal) (List Int) :=
  (fields text.toList).zipIdx.mapM fun (field, index) =>
    (readFieldBy reader field).mapError (index, ·)

/-- The reader accepts every literal, with the integer it denotes. -/
def Knows (reader : List Char → Except String Int) : Prop :=
  ∀ literal value, Literal literal value → reader literal = .ok value

theorem magnitude_digits_iff {field : List Char} :
    magnitude field ≠ [] ∧ (magnitude field).all Char.isDigit ↔ ∃ value, Literal field value := by
  rw [List.all_eq_true]
  constructor
  · intro shape
    obtain ⟨nonempty, digits⟩ := shape
    by_cases signed : field.head? = some '-'
    · rw [magnitude, if_pos signed] at nonempty digits
      obtain ⟨text, rfl⟩ := List.head?_eq_some_iff.mp signed
      exact ⟨_, .negated (.of_digits nonempty digits)⟩
    · rw [magnitude, if_neg signed] at nonempty digits
      exact ⟨_, .plain (.of_digits nonempty digits)⟩
  · intro denotes
    obtain ⟨value, literal⟩ := denotes
    cases literal with
    | plain numeral =>
        have unsigned : field.head? ≠ some '-' := by
          intro signed
          obtain ⟨text, rfl⟩ := List.head?_eq_some_iff.mp signed
          exact numeral.no_sign
        rw [magnitude, if_neg unsigned]
        exact ⟨numeral.nonempty, numeral.isDigit⟩
    | negated numeral => exact ⟨numeral.nonempty, numeral.isDigit⟩

theorem readFieldBy_eq {reader : List Char → Except String Int} (knows : Knows reader)
    (field : List Char) : readFieldBy reader field = (readField field).mapError .cause := by
  cases read : readField field with
  | ok cell =>
      have literal := readField_eq_ok_iff.mp read
      obtain ⟨nonempty, digits⟩ := magnitude_digits_iff.mpr ⟨cell, literal⟩
      have filled : field ≠ [] := by
        intro empty
        rw [empty] at nonempty
        exact nonempty rfl
      rw [readFieldBy, if_neg filled, if_neg (by simp [nonempty, digits]), knows field cell literal]
      rfl
  | error cause =>
      obtain ⟨bad, rfl⟩ := readField_eq_error_iff.mp read
      have misshapen : magnitude field = [] ∨ ¬ (magnitude field).all Char.isDigit := by
        by_contra shape
        rw [not_or, not_not] at shape
        obtain ⟨value, literal⟩ := magnitude_digits_iff.mp shape
        exact bad value literal
      unfold readFieldBy causeOf
      rw [if_pos misshapen]
      split <;> rfl

theorem mapError_mapM {α β ε δ : Type} (read : α → Except ε β) (rename : ε → δ) (items : List α) :
    (items.mapM read).mapError rename = items.mapM fun item => (read item).mapError rename := by
  induction items with
  | nil => rfl
  | cons item rest ih =>
      rw [List.mapM_cons, List.mapM_cons, ← ih]
      cases read item with
      | error error => rfl
      | ok value => cases rest.mapM read <;> rfl

theorem parseBy_eq {reader : List Char → Except String Int} (knows : Knows reader)
    (text : String) :
    parseBy reader text = (parse text).mapError fun error => (error.index, .cause error.cause) := by
  rw [parse, mapError_mapM, parseBy]
  congr 1
  funext ⟨field, index⟩
  change (readFieldBy reader field).mapError (index, ·) = _
  rw [readFieldBy_eq knows, readNumbered]
  cases readField field <;> rfl

/-- A text is read exactly if it is in the grammar, and then as the cells it lists; any other
text is refused at its first bad field, as an empty cell just if that field is empty.  With a
reader that knows the literals the result is the same, and a refusal of its own never shows. -/
theorem parse_decides_grammar (text : String) :
    (∀ cells, parse text = .ok cells ↔ Lists text.toList cells) ∧
      ((∀ cells, ¬ Lists text.toList cells) → ∃ error, parse text = .error error) ∧
      (∀ error, parse text = .error error ↔
        ∃ bad, FirstBad text.toList error.index bad ∧ error.cause = causeOf bad ∧
          (error.cause.message = "Empty cell" ↔ bad = [])) ∧
      ∀ reader, Knows reader →
        parseBy reader text =
            (parse text).mapError (fun error => (error.index, .cause error.cause)) ∧
          ∀ index literal reason, parseBy reader text ≠ .error (index, .unread literal reason) := by
  refine ⟨fun cells => parse_eq_ok_iff, ?_, fun error => ?_, fun reader knows => ?_⟩
  · intro outside
    cases parsed : parse text with
    | ok cells => exact absurd (parse_eq_ok_iff.mp parsed) (outside cells)
    | error error => exact ⟨error, rfl⟩
  · rw [parse_eq_error_iff]
    refine exists_congr fun bad => and_congr_right fun _ => ?_
    constructor
    · intro named
      rw [Cause.message_eq_empty_iff, named, causeOf_eq_empty_iff]
      exact ⟨rfl, Iff.rfl⟩
    · exact And.left
  · have same := parseBy_eq knows text
    refine ⟨same, fun index literal reason unread => ?_⟩
    rw [same] at unread
    cases parsed : parse text with
    | ok cells => simp [parsed, Except.mapError] at unread
    | error error => simp [parsed, Except.mapError] at unread

def ownReader (literal : List Char) : Except String Int :=
  match readInteger? literal with
  | some value => .ok value
  | none => .error "invalid digit found in string"

theorem knows_ownReader : Knows ownReader := by
  intro literal value denoted
  rw [ownReader, readInteger?_eq_some_iff.mpr denoted]

theorem parse_decides_grammar_blank_field :
    Lists "\n 007 ,\u3000-03,\t".toList [7, -3] ∧
      FirstBad "7,-03,\u00a0\n,+1,,".toList 2 [] ∧
      Knows ownReader ∧
      parseBy ownReader "7,-03,\u00a0\n,+1,," = .error (2, .cause .empty) := by
  have accepted : parse "\n 007 ,\u3000-03,\t" = .ok [7, -3] := by decide +kernel
  have refused : parse "7,-03,\u00a0\n,+1,," = .error ⟨2, .empty⟩ := by decide +kernel
  obtain ⟨-, -, refusals, readers⟩ := parse_decides_grammar "7,-03,\u00a0\n,+1,,"
  obtain ⟨bad, first, -, empty⟩ := (refusals _).mp refused
  have blank : bad = [] := empty.mp rfl
  have same := (readers ownReader knows_ownReader).1
  rw [refused] at same
  exact ⟨((parse_decides_grammar _).1 _).mp accepted, blank ▸ first, knows_ownReader, same⟩

end Intcode.Listing
