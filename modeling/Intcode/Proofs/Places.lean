import Mathlib.Algebra.Order.Ring.Int
import Intcode.Mode

/-! # Decimal places of an encoding

The place that holds a mode has a power of ten as its value, which is worked out in numbers of
bounded size: the exponent has 32 bits, the power 64 with its sign.  Both bounds cut off only
places that no encoding of 64 bits reaches, because the nineteenth power of ten is the first one
beyond them.  So the digit that selects a mode is the `decimalDigit` of the encoding at every
position, for negative encodings too, whose digits are negative.
-/

namespace Intcode

theorem placeValue_eq_pow (place : Nat) : placeValue place = 10 ^ place := by
  induction place with
  | zero => rfl
  | succ place ih => rw [placeValue, ih, Int.pow_succ, Int.mul_comm]

/-! ## The value of a place -/

/-- No product on the way is larger than the last one, so the multiplications stop early just if
the last product is too large. -/
theorem tenfold?_eq {value : Int} (positive : 0 < value) (small : value ≤ maxPower) (times : Nat) :
    tenfold? value times =
      if value * 10 ^ times ≤ maxPower then some (value * 10 ^ times) else none := by
  induction times generalizing value with
  | zero => rw [pow_zero, mul_one, if_pos small, tenfold?]
  | succ times ih =>
      have product : value * 10 ^ (times + 1) = 10 * value * 10 ^ times := by
        rw [pow_succ', ← mul_assoc, mul_comm value 10]
      rw [tenfold?, product]
      by_cases next : 10 * value ≤ maxPower
      · rw [if_pos next, ih (by omega) next]
      · have grown : 10 * value ≤ 10 * value * 10 ^ times :=
          le_mul_of_one_le_right (by omega) (one_le_pow₀ (by decide))
        rw [if_neg next, if_neg (by omega)]

theorem pow_le_maxPower_iff (place : Nat) : (10 : Int) ^ place ≤ maxPower ↔ place ≤ 18 := by
  refine ⟨?_, ?_⟩
  · intro small
    by_contra beyond
    have large : (10 : Int) ^ 19 ≤ 10 ^ place := pow_le_pow_right₀ (by decide) (by omega)
    exact absurd (large.trans small) (by decide)
  · intro within
    have small : (10 : Int) ^ place ≤ 10 ^ 18 := pow_le_pow_right₀ (by decide) within
    exact small.trans (by decide)

/-- The bound on exponents never counts: it lies far above the one on powers. -/
theorem modePlace?_eq (position : Nat) :
    modePlace? position = if position ≤ 17 then some (10 ^ (position + 1)) else none := by
  by_cases counted : position + 1 ≤ maxExponent
  · have lower : exponent? position = some position := if_pos (by omega)
    have upper : exponent? (position + 1) = some (position + 1) := if_pos counted
    rw [modePlace?, lower, Option.bind_some, upper, Option.bind_some,
      tenfold?_eq (by decide) (by decide), one_mul]
    simp only [pow_le_maxPower_iff, Nat.reduceLeDiff]
  · have upper : exponent? (position + 1) = none := if_neg counted
    have beyond : ¬ position ≤ 17 := by
      simp only [maxExponent] at counted
      omega
    rw [modePlace?, if_neg beyond]
    by_cases fits : position ≤ maxExponent
    · rw [exponent?, if_pos fits, Option.bind_some, upper, Option.bind_none]
    · rw [exponent?, if_neg fits, Option.bind_none]

theorem modePlace?_eq_none_iff (position : Nat) :
    modePlace? position = none ↔
      2 ^ 32 ≤ position ∨ 2 ^ 32 ≤ position + 1 ∨ 2 ^ 63 ≤ (10 : Int) ^ (position + 1) := by
  have power := pow_le_maxPower_iff (position + 1)
  simp only [maxPower] at power
  rw [modePlace?_eq]
  split
  · simp only [reduceCtorEq, false_iff]
    omega
  · simp only [true_iff]
    omega

/-! ## The digit at a place -/

/-- The digit of a number at a decimal place, counted from zero, with the sign of the number. -/
def decimalDigit (number : Int) (place : Nat) : Int :=
  number.sign * (number.natAbs / 10 ^ place % 10 : Nat)

theorem decimalDigit_neg (number : Int) (place : Nat) :
    decimalDigit (-number) place = -decimalDigit number place := by
  rw [decimalDigit, decimalDigit, Int.sign_neg, Int.natAbs_neg, neg_mul]

theorem decimalDigit_natCast (magnitude place : Nat) :
    decimalDigit magnitude place = (magnitude / 10 ^ place % 10 : Nat) := by
  rw [decimalDigit, Int.natAbs_natCast]
  by_cases zero : magnitude = 0
  · simp [zero]
  · rw [Int.sign_natCast_of_ne_zero zero, one_mul]

theorem decimalDigit_of_lt {number : Int} {place : Nat} (small : number.natAbs < 10 ^ place) :
    decimalDigit number place = 0 := by
  rw [decimalDigit, Nat.div_eq_of_lt small]
  simp

/-- Division and remainder both round towards zero, which makes the digits of a number and of its
opposite opposite. -/
theorem tmod_tdiv_pow (number : Int) (place : Nat) :
    (number.tdiv (10 ^ place)).tmod 10 = decimalDigit number place := by
  have natural (magnitude : Nat) :
      ((magnitude : Int).tdiv (10 ^ place)).tmod 10 = decimalDigit magnitude place := by
    rw [decimalDigit_natCast, Int.ofNat_tmod, Int.ofNat_tdiv]
    push_cast
    rfl
  obtain ⟨magnitude, rfl | rfl⟩ := number.eq_nat_or_neg
  · exact natural magnitude
  · rw [Int.neg_tdiv, Int.neg_tmod, natural, decimalDigit_neg]

variable {position : Nat}

theorem modeDigit_of_within (encoding : Int) (within : position ≤ 17) :
    modeDigit encoding position = decimalDigit encoding (position + 1) := by
  rw [← tmod_tdiv_pow]
  simp only [modeDigit, modePlace?_eq, if_pos within]

theorem modeDigit_of_beyond (encoding : Int) (beyond : 17 < position) :
    modeDigit encoding position = 0 := by
  simp only [modeDigit, modePlace?_eq, if_neg (Nat.not_le.mpr beyond)]

theorem modeDigit_of_nonneg {encoding : Int} (nonneg : 0 ≤ encoding) (within : position ≤ 17) :
    modeDigit encoding position = encoding / 10 ^ (position + 1) % 10 := by
  obtain ⟨magnitude, rfl⟩ := Int.eq_ofNat_of_zero_le nonneg
  rw [modeDigit_of_within _ within, decimalDigit_natCast]
  push_cast
  rfl

/-! ## Encodings of 64 bits -/

theorem natAbs_toInt_lt_pow (encoding : Int64) {place : Nat} (beyond : 18 < place) :
    encoding.toInt.natAbs < 10 ^ place := by
  have lowest := encoding.le_toInt
  have highest := encoding.toInt_lt
  have large : 10 ^ 19 ≤ 10 ^ place := Nat.pow_le_pow_right (by decide) beyond
  omega

theorem decimalDigit_of_beyond (encoding : Int64) (beyond : 17 < position) :
    decimalDigit encoding.toInt (position + 1) = 0 :=
  decimalDigit_of_lt (natAbs_toInt_lt_pow encoding (by omega))

theorem modeDigit_toInt (encoding : Int64) (position : Nat) :
    modeDigit encoding.toInt position = decimalDigit encoding.toInt (position + 1) := by
  by_cases within : position ≤ 17
  · exact modeDigit_of_within _ within
  · have beyond : 17 < position := by omega
    rw [modeDigit_of_beyond _ beyond, decimalDigit_of_beyond encoding beyond]

/-- Every place that has a value has one of 64 bits, and division by it neither fails nor leaves
them. -/
theorem division_by_place (encoding : Int64) {place : Int} (found : modePlace? position = some place) :
    place = 10 ^ (position + 1) ∧
      ∃ divisor : Int64, divisor.toInt = place ∧ divisor ≠ 0 ∧ divisor ≠ -1 ∧
        (encoding / divisor).toInt = encoding.toInt.tdiv place := by
  rw [modePlace?_eq] at found
  split at found
  · rename_i within
    cases found
    have small := (pow_le_maxPower_iff (position + 1)).mpr (by omega)
    have positive : (0 : Int) < 10 ^ (position + 1) := Int.pow_pos (by decide)
    simp only [maxPower] at small
    have value : (Int64.ofInt (10 ^ (position + 1))).toInt = 10 ^ (position + 1) :=
      Int64.toInt_ofInt_of_le (by omega) (by omega)
    have nonzero : Int64.ofInt (10 ^ (position + 1)) ≠ 0 := by
      intro zero
      rw [zero] at value
      exact absurd value positive.ne
    have nonunit : Int64.ofInt (10 ^ (position + 1)) ≠ -1 := by
      intro unit
      rw [unit, show (-1 : Int64).toInt = -1 by decide] at value
      omega
    refine ⟨rfl, _, value, nonzero, nonunit, ?_⟩
    rw [Int64.toInt_div_of_ne_right _ _ nonunit, value]
  · contradiction

/-- The digit that selects a mode is that of the unbounded number, at every position.  A place has
no value just if the position or the place after it has more than 32 bits or the power of ten more
than 64, and the digit there is zero.  At the other places the digit comes from divisions of 64-bit
numbers that neither divide by zero nor wrap around. -/
theorem cutoffs_lose_no_digit (encoding : Int64) (position : UInt64) :
    let digit := decimalDigit encoding.toInt (position.toNat + 1)
    modeDigit encoding.toInt position.toNat = digit ∧
      (modePlace? position.toNat = none ↔
        2 ^ 32 ≤ position.toNat ∨ 2 ^ 32 ≤ position.toNat + 1 ∨
          2 ^ 63 ≤ (10 : Int) ^ (position.toNat + 1)) ∧
      (modePlace? position.toNat = none → digit = 0) ∧
      ∀ place, modePlace? position.toNat = some place →
        place = 10 ^ (position.toNat + 1) ∧
          ∃ divisor : Int64, divisor.toInt = place ∧ divisor ≠ 0 ∧ divisor ≠ -1 ∧
            (encoding / divisor).toInt = encoding.toInt.tdiv place ∧
            (encoding / divisor % 10).toInt = digit := by
  intro digit
  have agrees := modeDigit_toInt encoding position.toNat
  refine ⟨agrees, modePlace?_eq_none_iff _, ?_, ?_⟩
  · intro cut
    change decimalDigit encoding.toInt (position.toNat + 1) = 0
    rw [← agrees, modeDigit, cut]
  · intro place found
    obtain ⟨rfl, divisor, value, nonzero, nonunit, quotient⟩ := division_by_place encoding found
    refine ⟨rfl, divisor, value, nonzero, nonunit, quotient, ?_⟩
    rw [Int64.toInt_mod, quotient]
    exact tmod_tdiv_pow _ _

/-- The least encoding has a negative nine at its highest place, and zeros where an exponent does not
fit. -/
theorem cutoffs_lose_no_digit_least :
    (∃ divisor : Int64, divisor.toInt = 10 ^ 18 ∧
        (Int64.minValue / divisor).toInt = (-2 ^ 63 : Int).tdiv (10 ^ 18) ∧
        (Int64.minValue / divisor % 10).toInt = -9) ∧
      modeDigit Int64.minValue.toInt (UInt64.toNat 4294967295) = 0 := by
  refine ⟨?_, ?_⟩
  · obtain ⟨-, -, -, division⟩ := cutoffs_lose_no_digit Int64.minValue 17
    obtain ⟨-, divisor, value, -, -, quotient, digit⟩ := division (10 ^ 18) (by decide)
    exact ⟨divisor, value, quotient, digit⟩
  · obtain ⟨digit, -, cut, -⟩ := cutoffs_lose_no_digit Int64.minValue 4294967295
    exact digit.trans (cut (by decide))

end Intcode
