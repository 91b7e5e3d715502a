/-! Integers in base ten.

A number is written without leading zeros and with a minus sign if it is negative.
It is read from one or more ASCII digits, leading zeros allowed; `readInteger?`
allows one minus sign in front of them, `readCount?` one plus sign.
-/

namespace Intcode.Decimal

/-- The digits of a natural number, most significant first. -/
def naturalDigits (n : Nat) : List Char :=
  Nat.toDigits 10 n

/-- The canonical form of an integer. -/
def digits : Int → List Char
  | .ofNat n => naturalDigits n
  | .negSucc n => '-' :: naturalDigits (n + 1)

def render (value : Int) : String :=
  String.ofList (digits value)

def renderNatural (n : Nat) : String :=
  String.ofList (naturalDigits n)

/-- Reads a text of ASCII digits; an empty text is no number. -/
def readNatural? (text : List Char) : Option Nat :=
  if text ≠ [] ∧ text.all Char.isDigit then some (Nat.ofDigitChars 10 text 0) else none

/-- Reads ASCII digits with at most one minus sign in front. -/
def readInteger? : List Char → Option Int
  | '-' :: text => (readNatural? text).map fun n => -(n : Int)
  | text => (readNatural? text).map fun n => (n : Int)

/-- Reads ASCII digits with at most one plus sign in front. -/
def readCount? : List Char → Option Nat
  | '+' :: text => readNatural? text
  | text => readNatural? text

theorem naturalDigits_ne_nil (n : Nat) : naturalDigits n ≠ [] :=
  List.length_pos_iff.mp Nat.length_toDigits_pos

theorem isDigit_of_mem_naturalDigits {n : Nat} {c : Char} (member : c ∈ naturalDigits n) :
    c.isDigit = true :=
  Nat.isDigit_of_mem_toDigits (by decide) (by decide) member

theorem readNatural?_naturalDigits (n : Nat) : readNatural? (naturalDigits n) = some n := by
  have allDigits : (naturalDigits n).all Char.isDigit = true :=
    List.all_eq_true.mpr fun _ => isDigit_of_mem_naturalDigits
  rw [readNatural?, if_pos ⟨naturalDigits_ne_nil n, allDigits⟩, naturalDigits,
    Nat.ofDigitChars_toDigits (by decide) (by decide)]

/-- Reading the canonical form of an integer gives the integer back. -/
theorem readInteger?_digits (value : Int) : readInteger? (digits value) = some value := by
  cases value with
  | negSucc n => simp [digits, readInteger?, readNatural?_naturalDigits, Int.negSucc_eq]
  | ofNat n =>
      have noSign : ∀ text, naturalDigits n ≠ '-' :: text := by
        intro text same
        have digit : ('-').isDigit = true :=
          isDigit_of_mem_naturalDigits (n := n) (by simp [same])
        exact absurd digit (by decide)
      simp only [digits]
      unfold readInteger?
      split
      · rename_i text same
        exact absurd same (noSign text)
      · simp [readNatural?_naturalDigits]

end Intcode.Decimal
