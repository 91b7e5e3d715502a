import Mathlib.Data.List.Induction
import Mathlib.Data.List.TakeWhile
import Intcode.Text.Blank
import Intcode.Text.Decimal
import Intcode.Text.Fields

/-! # Trimmed texts, cut texts and literals

`Trimmed`, `Cuts` and `Literal` say what a text without its outer blanks, the pieces of a text
between its separators and a decimal integer are, and nothing about how they are found.  Each
is decided by the function that computes it: `trim`, `split` and `readInteger?`.  A natural number
has one decimal form without zeros in front, the one that is rendered.
-/

namespace Intcode.Text

/-- All that stands between the blanks at the two ends of a text. -/
structure Trimmed (text core : List Char) : Prop where
  around : ∃ before after, (∀ c ∈ before, isBlank c) ∧ (∀ c ∈ after, isBlank c) ∧
    text = before ++ (core ++ after)
  first : ∀ c ∈ core.head?, isBlank c = false
  last : ∀ c ∈ core.getLast?, isBlank c = false

theorem blanks_before_trimLeft (text : List Char) :
    ∃ blanks, (∀ c ∈ blanks, isBlank c) ∧ text = blanks ++ trimLeft text :=
  ⟨text.takeWhile isBlank, fun _ => List.mem_takeWhile_imp,
    List.takeWhile_append_dropWhile.symm⟩

theorem head_trimLeft (text : List Char) : ∀ c ∈ (trimLeft text).head?, isBlank c = false := by
  intro c member
  have found := List.head?_dropWhile_not isBlank text
  rw [trimLeft] at member
  rw [Option.mem_def.mp member] at found
  exact found

theorem trimLeft_eq_self {text : List Char} (first : ∀ c ∈ text.head?, isBlank c = false) :
    trimLeft text = text := by
  cases text with
  | nil => rfl
  | cons c rest => simp [trimLeft, first c (by simp)]

-- What holds at the left end holds at the right end of the reversed text.
theorem trimRight_eq_reverse (text : List Char) :
    trimRight text = (trimLeft text.reverse).reverse := rfl

theorem blanks_after_trimRight (text : List Char) :
    ∃ blanks, (∀ c ∈ blanks, isBlank c) ∧ text = trimRight text ++ blanks := by
  obtain ⟨blanks, blank, cut⟩ := blanks_before_trimLeft text.reverse
  refine ⟨blanks.reverse, fun c member => blank c (List.mem_reverse.mp member), ?_⟩
  rw [trimRight_eq_reverse, ← List.reverse_append, ← cut, List.reverse_reverse]

theorem last_trimRight (text : List Char) :
    ∀ c ∈ (trimRight text).getLast?, isBlank c = false := by
  rw [trimRight_eq_reverse, List.getLast?_reverse]
  exact head_trimLeft text.reverse

theorem trimRight_eq_self {text : List Char} (last : ∀ c ∈ text.getLast?, isBlank c = false) :
    trimRight text = text := by
  have first : ∀ c ∈ text.reverse.head?, isBlank c = false := by
    rwa [List.head?_reverse]
  rw [trimRight_eq_reverse, trimLeft_eq_self first, List.reverse_reverse]

theorem trimmed_trim (text : List Char) : Trimmed text (trim text) := by
  obtain ⟨before, blankBefore, cutBefore⟩ := blanks_before_trimLeft text
  obtain ⟨after, blankAfter, cutAfter⟩ := blanks_after_trimRight (trimLeft text)
  refine ⟨⟨before, after, blankBefore, blankAfter, ?_⟩, ?_, last_trimRight _⟩
  · rw [trim, ← cutAfter]
    exact cutBefore
  · intro c member
    -- The trimmed text starts as the text trimmed on the left does.
    refine head_trimLeft text c ?_
    rw [cutAfter, List.head?_append, ← trim, Option.mem_def.mp member]
    rfl

theorem Trimmed.trim_eq {text core : List Char} (trimmed : Trimmed text core) :
    trim text = core := by
  obtain ⟨before, after, blankBefore, blankAfter, rfl⟩ := trimmed.around
  rw [trim, trimLeft_append blankBefore]
  cases core with
  | nil =>
      have empty : trimLeft (after ++ []) = trimLeft [] := trimLeft_append blankAfter
      rw [List.append_nil] at empty
      rw [List.nil_append, empty]
      rfl
  | cons c rest =>
      have kept : trimLeft (c :: rest ++ after) = c :: rest ++ after :=
        trimLeft_eq_self trimmed.first
      rw [kept, trimRight_append blankAfter, trimRight_eq_self trimmed.last]

theorem trim_eq_iff {text core : List Char} : trim text = core ↔ Trimmed text core :=
  ⟨fun same => same ▸ trimmed_trim text, Trimmed.trim_eq⟩

theorem trim_eq_nil_iff {text : List Char} : trim text = [] ↔ ∀ c ∈ text, isBlank c := by
  rw [trim_eq_iff]
  constructor
  · intro trimmed c member
    obtain ⟨before, after, blankBefore, blankAfter, rfl⟩ := trimmed.around
    rw [List.nil_append, List.mem_append] at member
    exact member.elim (blankBefore c) (blankAfter c)
  · intro blank
    exact ⟨⟨text, [], blank, by simp, by simp⟩, by simp, by simp⟩

section Cuts

variable {α : Type} [DecidableEq α]

/-- The pieces of a text between its separators; a text without separators is one piece. -/
structure Cuts (separator : α) (text : List α) (pieces : List (List α)) : Prop where
  nonempty : pieces ≠ []
  joined : join separator pieces = text
  apart : ∀ piece ∈ pieces, separator ∉ piece

theorem split_eq_splitOn (separator : α) (text : List α) :
    split separator text = text.splitOn separator := by
  induction text with
  | nil => rw [split_nil, List.splitOn_nil]
  | cons c rest ih =>
      rw [split_cons, ih, List.splitOn_eq_splitOnP, List.splitOn_eq_splitOnP,
        List.splitOnP_cons_eq_if_modifyHead]
      unfold splitCons
      simp only [beq_iff_eq]
      split
      · rfl
      · cases cut : List.splitOnP (· == separator) rest with
        | nil => exact absurd (ih.trans cut) (split_ne_nil separator rest)
        | cons piece pieces => rfl

theorem separator_notMem_split (separator : α) (text : List α) :
    ∀ piece ∈ split separator text, separator ∉ piece := by
  induction text with
  | nil => simp
  | cons c rest ih =>
      rw [split_cons]
      unfold splitCons
      split
      · simpa using ih
      · rename_i other
        cases cut : split separator rest with
        | nil => simpa using Ne.symm other
        | cons piece pieces =>
            rw [cut, List.forall_mem_cons] at ih
            rw [List.forall_mem_cons, List.mem_cons, not_or]
            exact ⟨⟨Ne.symm other, ih.1⟩, ih.2⟩

theorem split_eq_iff {separator : α} {text : List α} {pieces : List (List α)} :
    split separator text = pieces ↔ Cuts separator text pieces := by
  constructor
  · intro same
    subst same
    exact ⟨split_ne_nil separator text, join_split separator text,
      separator_notMem_split separator text⟩
  · intro cuts
    rw [← cuts.joined, split_eq_splitOn]
    exact List.splitOn_intercalate separator cuts.apart cuts.nonempty

end Cuts

end Intcode.Text

namespace Intcode.Decimal

/-- One or more ASCII digits, with the number they denote in base ten. -/
inductive Numeral : List Char → Nat → Prop where
  | single (digit : Fin 10) : Numeral [Nat.digitChar digit] digit
  | append {text : List Char} {n : Nat} (leading : Numeral text n) (digit : Fin 10) :
      Numeral (text ++ [Nat.digitChar digit]) (10 * n + digit)

/-- A numeral with at most one minus sign in front, with the integer it denotes. -/
inductive Literal : List Char → Int → Prop where
  | plain {text : List Char} {n : Nat} (numeral : Numeral text n) : Literal text n
  | negated {text : List Char} {n : Nat} (numeral : Numeral text n) : Literal ('-' :: text) (-n)

theorem exists_digitChar {c : Char} (digit : c.isDigit = true) :
    ∃ d : Fin 10, c = Nat.digitChar d ∧ c.toNat - '0'.toNat = d := by
  obtain ⟨low, high⟩ := Char.isDigit_iff_toNat.mp digit
  have zero : '0'.toNat = 48 := rfl
  have nine : '9'.toNat = 57 := rfl
  have small : c.toNat - '0'.toNat < 10 := by omega
  refine ⟨⟨c.toNat - '0'.toNat, small⟩, Char.toNat_inj.mp ?_, rfl⟩
  rw [Nat.toNat_digitChar_of_lt_ten small]
  omega

theorem Numeral.of_digits {text : List Char} (nonempty : text ≠ [])
    (digits : ∀ c ∈ text, c.isDigit = true) : Numeral text (Nat.ofDigitChars 10 text 0) := by
  -- The last digit is the one that is worth itself, so the induction is from the right.
  induction text using List.reverseRecOn with
  | nil => exact absurd rfl nonempty
  | append_singleton leading c ih =>
      obtain ⟨d, rfl, worth⟩ := exists_digitChar (digits c (by simp))
      rw [Nat.ofDigitChars_append, Nat.ofDigitChars_cons, Nat.ofDigitChars_nil, worth]
      cases leading with
      | nil => simpa using Numeral.single d
      | cons first rest =>
          exact .append (ih (by simp) fun c member => digits c (List.mem_append_left _ member)) d

theorem Numeral.nonempty {text : List Char} {n : Nat} (numeral : Numeral text n) :
    text ≠ [] := by
  cases numeral <;> simp

theorem Numeral.isDigit {text : List Char} {n : Nat} (numeral : Numeral text n) :
    ∀ c ∈ text, c.isDigit = true := by
  induction numeral with
  | single digit => simp [Nat.isDigit_digitChar]
  | append leading digit ih =>
      intro c member
      rcases List.mem_append.mp member with member | member
      · exact ih c member
      · rw [List.mem_singleton.mp member, Nat.isDigit_digitChar]
        exact decide_eq_true digit.isLt

theorem Numeral.value {text : List Char} {n : Nat} (numeral : Numeral text n) :
    Nat.ofDigitChars 10 text 0 = n := by
  have worth (digit : Fin 10) : (Nat.digitChar digit).toNat - '0'.toNat = digit := by
    rw [Nat.toNat_digitChar_of_lt_ten digit.isLt]
    exact Nat.add_sub_cancel_left 48 digit
  induction numeral with
  | single digit =>
      rw [Nat.ofDigitChars_cons, Nat.ofDigitChars_nil, worth, Nat.mul_zero, Nat.zero_add]
  | append leading digit ih =>
      rw [Nat.ofDigitChars_append, ih, Nat.ofDigitChars_cons, Nat.ofDigitChars_nil, worth]

theorem readNatural?_eq_some_iff {text : List Char} {n : Nat} :
    readNatural? text = some n ↔ Numeral text n := by
  constructor
  · intro read
    unfold readNatural? at read
    split at read
    · rename_i shape
      obtain rfl := Option.some.inj read
      exact .of_digits shape.1 (List.all_eq_true.mp shape.2)
    · cases read
  · intro numeral
    rw [readNatural?, if_pos ⟨numeral.nonempty, List.all_eq_true.mpr numeral.isDigit⟩,
      numeral.value]

/-- The decimal form of a natural number: a numeral without zeros in front of it. -/
structure Writes (text : String) (n : Nat) : Prop where
  numeral : Numeral text.toList n
  shortest : text.toList.head? = some '0' → text = "0"

theorem naturalDigits_of_lt {n : Nat} (small : n < 10) : naturalDigits n = [Nat.digitChar n] :=
  Nat.toDigits_of_lt_base small

theorem eq_zero_of_head_naturalDigits {n : Nat} (head : (naturalDigits n).head? = some '0') :
    n = 0 := by
  induction n using Nat.strongRecOn with
  | ind n ih =>
      by_cases small : n < 10
      · rw [naturalDigits_of_lt small, List.head?_cons, Option.some.injEq, Nat.digitChar_eq_zero] at head
        exact head
      · have digits : naturalDigits n = naturalDigits (n / 10) ++ [Nat.digitChar (n % 10)] :=
          Nat.toDigits_of_base_le (by decide) (by omega)
        obtain ⟨first, rest, leading⟩ := List.exists_cons_of_ne_nil (naturalDigits_ne_nil (n / 10))
        rw [digits, leading, List.cons_append, List.head?_cons] at head
        have zero := ih (n / 10) (by omega) (by rw [leading, List.head?_cons, head])
        omega

theorem Numeral.eq_naturalDigits {text : List Char} {n : Nat} (numeral : Numeral text n)
    (shortest : text.head? = some '0' → text = ['0']) : text = naturalDigits n := by
  induction numeral with
  | single digit => exact (naturalDigits_of_lt digit.isLt).symm
  | @append text n leading digit ih =>
      have head : text.head? ≠ some '0' := by
        intro zero
        have short := shortest (by rw [List.head?_append, zero, Option.some_or])
        have length := congrArg List.length short
        rw [List.length_append] at length
        exact leading.nonempty (List.eq_nil_of_length_eq_zero (by simpa using length))
      have same := ih fun zero => absurd zero head
      have positive : 0 < n := by
        refine Nat.pos_of_ne_zero fun zero => head ?_
        rw [same, zero]
        rfl
      rw [same, ← naturalDigits_of_lt digit.isLt]
      exact Nat.toDigits_append_toDigits (by decide) positive digit.isLt

theorem writes_iff {text : String} {n : Nat} : Writes text n ↔ text = renderNatural n := by
  refine ⟨?_, ?_⟩
  · intro writes
    apply String.toList_injective
    rw [renderNatural, String.toList_ofList]
    refine writes.numeral.eq_naturalDigits fun zero => ?_
    rw [writes.shortest zero]
    rfl
  · intro same
    subst same
    refine ⟨?_, ?_⟩
    · rw [renderNatural, String.toList_ofList]
      exact readNatural?_eq_some_iff.mp (readNatural?_naturalDigits n)
    · intro head
      rw [renderNatural, String.toList_ofList] at head
      rw [eq_zero_of_head_naturalDigits head]
      rfl

theorem Numeral.no_sign {text : List Char} {n : Nat} : ¬ Numeral ('-' :: text) n := by
  intro numeral
  exact absurd (numeral.isDigit '-' (by simp)) (by decide)

theorem readInteger?_signed (text : List Char) :
    readInteger? ('-' :: text) = (readNatural? text).map fun n : Nat => -(n : Int) := by
  cases read : readNatural? text <;> simp [readInteger?, read]

theorem readInteger?_unsigned {text : List Char} (unsigned : ∀ rest, text ≠ '-' :: rest) :
    readInteger? text = (readNatural? text).map fun n : Nat => (n : Int) := by
  unfold readInteger?
  split
  · rename_i rest
    exact absurd rfl (unsigned rest)
  · cases readNatural? text <;> rfl

theorem readInteger?_eq_some_iff {text : List Char} {value : Int} :
    readInteger? text = some value ↔ Literal text value := by
  constructor
  · intro read
    by_cases signed : ∃ rest, text = '-' :: rest
    · obtain ⟨rest, rfl⟩ := signed
      rw [readInteger?_signed] at read
      obtain ⟨n, natural, rfl⟩ := Option.map_eq_some_iff.mp read
      exact .negated (readNatural?_eq_some_iff.mp natural)
    · rw [readInteger?_unsigned (not_exists.mp signed)] at read
      obtain ⟨n, natural, rfl⟩ := Option.map_eq_some_iff.mp read
      exact .plain (readNatural?_eq_some_iff.mp natural)
  · intro literal
    cases literal with
    | plain numeral =>
        have unsigned : ∀ rest, text ≠ '-' :: rest := fun rest same =>
          Numeral.no_sign (same ▸ numeral)
        rw [readInteger?_unsigned unsigned, readNatural?_eq_some_iff.mpr numeral, Option.map_some]
    | negated numeral =>
        rw [readInteger?_signed, readNatural?_eq_some_iff.mpr numeral, Option.map_some]

end Intcode.Decimal
