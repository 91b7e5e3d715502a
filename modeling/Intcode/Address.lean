/-! Addresses.

Memory cells hold integers of any size. Addresses, the instruction pointer and lengths
are natural numbers of at most 64 bits; the operations that could leave that range say so.
-/

namespace Intcode

namespace Address

/-- The last address that a memory can have: the largest number of 64 bits. -/
def last : Nat := 0xFFFFFFFFFFFFFFFF

/-- Why a cell does not name an address. -/
inductive Error where
  | negative (cell : Int)
  | overflow (cell : Int)
deriving DecidableEq, Repr

/-- The address that a cell names. -/
def ofCell (cell : Int) : Except Error Nat :=
  if cell < 0 then .error (.negative cell)
  else if cell ≤ last then .ok cell.toNat
  else .error (.overflow cell)

theorem ofCell_eq_ok_iff {cell : Int} {address : Nat} :
    ofCell cell = .ok address ↔ cell = address ∧ address ≤ last := by
  unfold ofCell
  split
  · constructor
    · intro impossible; contradiction
    · intro named; omega
  · split
    · rw [Except.ok.injEq]
      constructor
      · intro named; omega
      · intro named; omega
    · constructor
      · intro impossible; contradiction
      · intro named; omega

end Address

end Intcode
