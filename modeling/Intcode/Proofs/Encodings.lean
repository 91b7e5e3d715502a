import Mathlib.Algebra.BigOperators.Fin
import Mathlib.Algebra.BigOperators.Intervals
import Mathlib.Algebra.Order.Ring.Int
import Mathlib.Tactic.Ring
import Intcode.Proofs.Evaluation

/-! # Instructions and their encodings

An opcode cell is a decimal number: two digits for the opcode, then one for the mode of each
operand.  `packedModes` is the number that the mode digits make by themselves, so an encoding is the
opcode's number and a hundred times that.  The eighteenth place above the lowest is the last that
a signed number of 64 bits has, which leaves room for seventeen modes.
-/

namespace Intcode

theorem Mode.digit_bounds (mode : Mode) : 0 ≤ mode.digit ∧ mode.digit ≤ 2 := by
  cases mode <;> decide

theorem Opcode.number_bounds (opcode : Opcode) : 0 ≤ opcode.number ∧ opcode.number < 100 := by
  cases opcode <;> decide

/-- The number that the digits of the modes make, the first mode's lowest. -/
def packedModes : List Mode → Int
  | [] => 0
  | mode :: modes => mode.digit + 10 * packedModes modes

theorem modeDigits_eq_packedModes (position : Nat) (modes : List Mode) :
    modeDigits position modes = 10 ^ (position + 1) * packedModes modes := by
  induction modes generalizing position with
  | nil => simp [modeDigits, packedModes]
  | cons mode modes ih =>
      rw [modeDigits, ih, placeValue_eq_pow, packedModes]
      ring

theorem encode_eq_packedModes (opcode : Opcode) (modes : List Mode) :
    encode opcode modes = opcode.number + 100 * packedModes modes := by
  rw [encode, modeDigits_eq_packedModes]
  rfl

theorem modeDigits_eq_sum (position : Nat) (modes : List Mode) :
    modeDigits position modes =
      ∑ index : Fin modes.length, (modes.get index).digit * 10 ^ (position + index.val + 1) := by
  induction modes generalizing position with
  | nil => rfl
  | cons mode modes ih =>
      rw [modeDigits, ih, placeValue_eq_pow]
      simp only [List.length_cons, Fin.sum_univ_succ, List.get_cons_zero, Fin.val_zero,
        Fin.val_succ, Nat.add_zero]
      congr 1
      refine Finset.sum_congr rfl fun index _ => ?_
      rw [Nat.add_right_comm position 1, Nat.add_assoc position]
      rfl

theorem packedModes_bounds (modes : List Mode) :
    0 ≤ packedModes modes ∧ 9 * packedModes modes + 2 ≤ 2 * 10 ^ modes.length := by
  induction modes with
  | nil => simp [packedModes]
  | cons mode modes ih =>
      have digit := mode.digit_bounds
      rw [packedModes, List.length_cons, pow_succ]
      omega

/-- The digit at a place of the packed number is that of the mode there, and zero above all. -/
theorem digit_packedModes (modes : List Mode) (index : Nat) :
    packedModes modes / 10 ^ index % 10 = (modes[index]?.getD .indirect).digit := by
  induction modes generalizing index with
  | nil => simp [packedModes, Mode.digit]
  | cons mode modes ih =>
      have digit := mode.digit_bounds
      rw [packedModes]
      cases index with
      | zero =>
          simp only [pow_zero, List.getElem?_cons_zero, Option.getD_some]
          omega
      | succ index =>
          have lower : (mode.digit + 10 * packedModes modes) / 10 = packedModes modes := by omega
          rw [pow_succ', ← Int.ediv_ediv_of_nonneg (by decide), lower, ih, List.getElem?_cons_succ]

variable {modes : List Mode}

theorem encode_bounds (opcode : Opcode) (few : modes.length ≤ 17) :
    0 ≤ encode opcode modes ∧ encode opcode modes < 2 ^ 63 := by
  have number := opcode.number_bounds
  have bounds := packedModes_bounds modes
  have shorter : (10 : Int) ^ modes.length ≤ 10 ^ 17 := pow_le_pow_right₀ (by decide) few
  rw [encode_eq_packedModes]
  omega

theorem encode_emod (opcode : Opcode) (modes : List Mode) :
    encode opcode modes % 100 = opcode.number := by
  have number := opcode.number_bounds
  rw [encode_eq_packedModes]
  omega

theorem modeDigit_encode (opcode : Opcode) (few : modes.length ≤ 17) (index : Nat) :
    modeDigit (encode opcode modes) (index + 1) = (modes[index]?.getD .indirect).digit := by
  by_cases within : index + 1 ≤ 17
  · have number := opcode.number_bounds
    have lower : encode opcode modes / 100 = packedModes modes := by
      rw [encode_eq_packedModes]
      omega
    have place : (10 : Int) ^ (index + 1 + 1) = 100 * 10 ^ index := by ring
    rw [modeDigit_of_nonneg (encode_bounds opcode few).1 within, place,
      ← Int.ediv_ediv_of_nonneg (by decide), lower, digit_packedModes]
  · -- The encoding has no such place, and there are not that many modes.
    have absent : modes[index]? = none := List.getElem?_eq_none (by omega)
    rw [modeDigit_of_beyond _ (by omega), absent]
    rfl

theorem mode_encode (opcode : Opcode) (few : modes.length ≤ 17) (index : Nat) :
    Instruction.mode ⟨opcode, encode opcode modes⟩ (index + 1) =
      .ok (modes[index]?.getD .indirect) := by
  simp only [Instruction.mode, Instruction.modeOf, modeDigit_encode opcode few, Mode.ofDigit?_digit]

theorem Instruction.decode_eq_ok_iff {cell : Int} {address : Nat} {instruction : Instruction} :
    decode cell address = .ok instruction ↔
      0 ≤ cell ∧ cell < 2 ^ 63 ∧ cell % 100 = instruction.opcode.number ∧
        instruction.encoding = cell := by
  obtain ⟨opcode, encoding⟩ := instruction
  unfold decode
  by_cases bounds : 0 ≤ cell ∧ cell ≤ maxEncoding
  · have small : cell < 2 ^ 63 := by
      simp only [maxEncoding] at bounds
      omega
    rw [if_pos bounds, Int.tmod_eq_emod_of_nonneg bounds.1]
    cases found : Opcode.ofNumber? (cell % 100) with
    | none =>
        have unlisted : cell % 100 ≠ opcode.number := by
          intro number
          rw [number, Opcode.ofNumber?_number] at found
          contradiction
        simp [unlisted]
    | some other =>
        simp only [bounds.1, small, true_and, ← Opcode.ofNumber?_eq_some_iff, found,
          Except.ok.injEq, Option.some.injEq, Instruction.mk.injEq, eq_comm]
  · rw [if_neg bounds]
    simp only [maxEncoding] at bounds
    constructor
    · intro impossible
      contradiction
    · intro decoded
      omega

theorem emod_pow_succ {cell : Int} (nonneg : 0 ≤ cell) (place : Nat) :
    cell % 10 ^ (place + 1) = cell % 10 ^ place + cell / 10 ^ place % 10 * 10 ^ place := by
  obtain ⟨n, rfl⟩ := Int.eq_ofNat_of_zero_le nonneg
  rw [Int.mul_comm]
  exact_mod_cast Nat.mod_pow_succ

/-- The digits from the third lowest on, each at its place, make up what the two lowest leave. -/
theorem sum_of_digits {cell : Int} (nonneg : 0 ≤ cell) (count : Nat) :
    cell % 100 + ∑ position ∈ Finset.Icc 1 count,
        cell / 10 ^ (position + 1) % 10 * 10 ^ (position + 1) = cell % 10 ^ (count + 2) := by
  induction count with
  | zero => simp
  | succ count ih =>
      rw [Finset.sum_Icc_succ_top (by omega), ← add_assoc, ih, emod_pow_succ nonneg (count + 2)]

theorem sum_of_modeDigits {cell : Int} (nonneg : 0 ≤ cell) (small : cell < 2 ^ 63) :
    cell = cell % 100 + ∑ position ∈ Finset.Icc 1 17, modeDigit cell position * 10 ^ (position + 1) := by
  have digits : ∀ position ∈ Finset.Icc 1 17, modeDigit cell position * 10 ^ (position + 1) =
      cell / 10 ^ (position + 1) % 10 * 10 ^ (position + 1) := by
    intro position member
    rw [modeDigit_of_nonneg nonneg (Finset.mem_Icc.mp member).2]
  rw [Finset.sum_congr rfl digits, sum_of_digits nonneg]
  omega

namespace Instruction

theorem decode_encode (opcode : Opcode) (few : modes.length ≤ 17) (address : Nat) :
    decode (encode opcode modes) address = .ok ⟨opcode, encode opcode modes⟩ :=
  decode_eq_ok_iff.mpr
    ⟨(encode_bounds opcode few).1, (encode_bounds opcode few).2, encode_emod opcode modes, rfl⟩

theorem decodes_iff {cell : Int} {address : Nat} :
    (∃ instruction, decode cell address = .ok instruction) ↔
      0 ≤ cell ∧ cell < 2 ^ 63 ∧ ∃ opcode : Opcode, cell % 100 = opcode.number := by
  simp only [decode_eq_ok_iff]
  constructor
  · intro decoded
    obtain ⟨instruction, nonneg, small, number, -⟩ := decoded
    exact ⟨nonneg, small, instruction.opcode, number⟩
  · intro shape
    obtain ⟨nonneg, small, opcode, number⟩ := shape
    exact ⟨⟨opcode, cell⟩, nonneg, small, number, rfl⟩

/-- Decoding gives back the opcode and all modes of an encoding, with no mode but the indirect one
beyond them; and a cell decodes just if it is in range and ends with the number of an opcode, and
is then the sum of that number and its mode digits at their places. -/
theorem decode_inverts_encode (address : Nat) :
    (∀ (opcode : Opcode) (modes : List Mode), modes.length ≤ 17 →
      encode opcode modes = opcode.number +
          ∑ index : Fin modes.length, (modes.get index).digit * 10 ^ (index.val + 2) ∧
        ∃ instruction, decode (encode opcode modes) address = .ok instruction ∧
          instruction.opcode = opcode ∧ instruction.encoding = encode opcode modes ∧
          (∀ index : Fin modes.length,
            instruction.mode (index.val + 1) = .ok (modes.get index)) ∧
          ∀ position, modes.length < position → instruction.mode position = .ok .indirect) ∧
      ∀ cell : Int,
        ((∃ instruction, decode cell address = .ok instruction) ↔
          0 ≤ cell ∧ cell < 2 ^ 63 ∧ ∃ opcode : Opcode, cell % 100 = opcode.number) ∧
        ∀ instruction, decode cell address = .ok instruction →
          instruction.encoding = cell ∧ cell = instruction.opcode.number +
            ∑ position ∈ Finset.Icc 1 17,
              modeDigit instruction.encoding position * 10 ^ (position + 1) := by
  constructor
  · intro opcode modes few
    refine ⟨?_, ⟨opcode, encode opcode modes⟩, decode_encode opcode few address, rfl, rfl, ?_, ?_⟩
    · rw [encode, modeDigits_eq_sum]
      simp only [Nat.add_comm 1]
    · intro index
      rw [mode_encode opcode few, List.getElem?_eq_getElem index.isLt, Option.getD_some]
      rfl
    · intro position beyond
      obtain ⟨index, rfl⟩ := Nat.exists_eq_add_one_of_ne_zero (Nat.ne_zero_of_lt beyond)
      rw [mode_encode opcode few, List.getElem?_eq_none (by omega), Option.getD_none]
  · intro cell
    refine ⟨decodes_iff, ?_⟩
    intro instruction decoded
    obtain ⟨nonneg, small, number, encoding⟩ := decode_eq_ok_iff.mp decoded
    rw [encoding, ← number]
    exact ⟨rfl, sum_of_modeDigits nonneg small⟩

/-- With seventeen modes every place of an encoding is used; the largest cell that decodes has
nines and other digits that are no modes at some of them. -/
theorem decode_inverts_encode_seventeen :
    let modes := Mode.relative :: List.replicate 15 .immediate ++ [.relative]
    (∃ instruction, decode (encode .multiply modes) 4 = .ok instruction ∧
      encode .multiply modes = 2111111111111111202 ∧
      instruction.mode 1 = .ok .relative ∧ instruction.mode 17 = .ok .relative ∧
      instruction.mode 18 = .ok .indirect ∧ instruction.mode Address.last = .ok .indirect) ∧
    (∃ instruction, decode 9223372036854775807 4 = .ok instruction) ∧
    ¬ ∃ instruction, decode 9223372036854775901 4 = .ok instruction := by
  intro modes
  obtain ⟨encoded, cells⟩ := decode_inverts_encode 4
  obtain ⟨-, instruction, decoded, -, -, within, beyond⟩ := encoded .multiply modes (by decide)
  refine ⟨⟨instruction, decoded, by decide, within ⟨0, by decide⟩, within ⟨16, by decide⟩,
    beyond 18 (by decide), beyond Address.last (by decide)⟩, ?_, ?_⟩
  · exact (cells 9223372036854775807).1.mpr ⟨by decide, by decide, .lessThan, by decide⟩
  · rw [(cells 9223372036854775901).1]
    intro shape
    exact absurd shape.2.1 (by decide)

end Instruction

end Intcode
