/-! Addressing modes, and the decimal digits of an opcode cell that select them. -/

namespace Intcode

/-- How an operand cell denotes a value or an address. -/
inductive Mode where
  | indirect
  | immediate
  | relative
deriving DecidableEq, Repr

namespace Mode

def ofDigit? : Int → Option Mode
  | 0 => some .indirect
  | 1 => some .immediate
  | 2 => some .relative
  | _ => none

def digit : Mode → Int
  | .indirect => 0
  | .immediate => 1
  | .relative => 2

def name : Mode → String
  | .indirect => "Indirect"
  | .immediate => "Immediate"
  | .relative => "Relative"

@[simp] theorem ofDigit?_digit (mode : Mode) : ofDigit? mode.digit = some mode := by
  cases mode <;> rfl

theorem ofDigit?_eq_some_iff {digit : Int} {mode : Mode} :
    ofDigit? digit = some mode ↔ digit = mode.digit := by
  constructor
  · intro found
    unfold ofDigit? at found
    split at found <;> cases found <;> rfl
  · rintro rfl
    exact ofDigit?_digit mode

end Mode

/-- The value of a one at a decimal place, counted from zero. -/
def placeValue : Nat → Int
  | 0 => 1
  | place + 1 => 10 * placeValue place

/-- The largest exponent of a power: the largest number of 32 bits. -/
def maxExponent : Nat := 0xFFFFFFFF

/-- The largest power: the largest signed number of 64 bits. -/
def maxPower : Int := 0x7FFFFFFFFFFFFFFF

def exponent? (number : Nat) : Option Nat :=
  if number ≤ maxExponent then some number else none

/-- A value multiplied by ten, again and again, as long as the product is a signed number of
64 bits. -/
def tenfold? (value : Int) : Nat → Option Int
  | 0 => some value
  | times + 1 => if 10 * value ≤ maxPower then tenfold? (10 * value) times else none

/-- The value of the place at which an encoding holds the mode of an operand. Operands
count from one, and the two lowest places hold the opcode. There is none if the position
or the place after it is no exponent, or the power is too large for an encoding. -/
def modePlace? (position : Nat) : Option Int :=
  (exponent? position).bind fun place => (exponent? (place + 1)).bind (tenfold? 1)

/-- The decimal digit that selects the mode of an operand, with the sign of the encoding;
zero where the encoding has no such place. -/
def modeDigit (encoding : Int) (position : Nat) : Int :=
  match modePlace? position with
  | some place => (encoding.tdiv place).tmod 10
  | none => 0

end Intcode
