import Intcode.Operand
import Intcode.Proofs.Acceptance

/-! The cell that an operand names.

An operand that is not immediate names one cell, `Operand.named`, whether it is read or
stored at; both fail together where this integer is no address. Two operands meet exactly if
they name the same integer, however differently they are written.
-/

namespace Intcode

theorem Address.resolve_eq_ok_iff {cell : Int} {address : Nat} :
    resolve cell = .ok address ↔ cell = address ∧ address ≤ last := by
  rw [← ofCell_eq_ok_iff, resolve]
  cases ofCell cell <;> simp

namespace Operand

/-- The integer that an operand names as an address, unless it is immediate. -/
def named (operand : Operand) (base : Base) : Int :=
  match operand.mode with
  | .relative => operand.raw + base.value
  | .indirect | .immediate => operand.raw

variable {operand : Operand} {base : Base} {address : Nat}

theorem target_eq_resolve (addressed : operand.mode ≠ .immediate) (base : Base) :
    operand.target base = Address.resolve (operand.named base) := by
  rw [target, named]
  cases mode : operand.mode with
  | indirect => rfl
  | relative => rfl
  | immediate => contradiction

theorem value_eq_resolve (addressed : operand.mode ≠ .immediate) (memory : Nat → Int)
    (base : Base) :
    operand.value memory base = (Address.resolve (operand.named base)).map memory := by
  rw [value, named]
  cases mode : operand.mode with
  | indirect => rfl
  | relative => rfl
  | immediate => contradiction

theorem mode_of_target (resolved : operand.target base = .ok address) :
    operand.mode ≠ .immediate := by
  intro immediate
  rw [target, immediate] at resolved
  contradiction

theorem named_of_target (resolved : operand.target base = .ok address) :
    operand.named base = address := by
  rw [target_eq_resolve (mode_of_target resolved), Address.resolve_eq_ok_iff] at resolved
  exact resolved.1

theorem value_after_write {memory after : Store} {other : Nat} {written : Int}
    (resolved : operand.target base = .ok other)
    (stored : memory.write address written = .ok after) :
    operand.value after.read base =
      if address = other then .ok written else operand.value memory.read base := by
  obtain ⟨-, rfl⟩ := Store.accepts_of_write stored
  have addressed := mode_of_target resolved
  rw [target_eq_resolve addressed] at resolved
  rw [value_eq_resolve addressed, value_eq_resolve addressed, resolved]
  simp only [Except.map, Store.read_put]
  by_cases same : address = other
  · rw [if_pos same, if_pos same.symm]
  · rw [if_neg same, if_neg (Ne.symm same)]

/-- Reading an operand and storing at it concern the same cell: both fail with the same fault,
or the value is read where the result would be stored. After a write at one operand, another
has the written value if both name the same integer, and else the value it had. -/
theorem read_where_stored (memory : Store) (base : Base) :
    (∀ (operand : Operand) (position : Nat), operand.mode ≠ .immediate →
      let target := { operand with position }.target base
      (∀ fault, operand.value memory.read base = .error fault ↔ target = .error fault) ∧
        (∀ address, target = .ok address →
          operand.value memory.read base = .ok (memory.read address)) ∧
        ∀ address : Nat, target = .ok address ↔
          operand.named base = address ∧ address ≤ Address.last) ∧
      ∀ (first second : Operand) (position address other : Nat) (value : Int) (after : Store),
        first.target base = .ok address → { second with position }.target base = .ok other →
        memory.write address value = .ok after →
          (address = other ↔ first.named base = second.named base) ∧
            second.value after.read base =
              if address = other then .ok value else second.value memory.read base := by
  constructor
  · intro operand position addressed target
    have resolved : target = Address.resolve (operand.named base) :=
      @target_eq_resolve { operand with position } addressed base
    rw [resolved, value_eq_resolve addressed]
    refine ⟨?_, ?_, fun address => Address.resolve_eq_ok_iff⟩
    · intro fault
      cases Address.resolve (operand.named base) <;> simp [Except.map]
    · intro address found
      rw [found]
      rfl
  · intro first second position address other value after firstResolved secondResolved stored
    -- Neither the cell that an operand names nor its value depends on its position.
    have firstNamed := named_of_target firstResolved
    have secondNamed := named_of_target secondResolved
    change second.named base = other at secondNamed
    have moved := value_after_write secondResolved stored
    refine ⟨?_, moved⟩
    omega

/-- A huge operand before a base that is far below zero names the cell of a small one. -/
theorem read_where_stored_far_base :
    let base : Base := ⟨-1000000000000000000000⟩
    let first : Operand := ⟨1000000000000000000005, 3, .relative⟩
    let second : Operand := ⟨5, 1, .indirect⟩
    first.value (Store.ofCells .dense [7]).read base = .ok 0 ∧
      second.value ((Store.ofCells .dense [7]).put 5 1234).read base = .ok 1234 := by
  intro base first second
  obtain ⟨agree, meet⟩ := read_where_stored (.ofCells .dense [7]) base
  obtain ⟨-, found, -⟩ := agree first 1 (by decide)
  exact ⟨found 5 rfl, (meet first second 1 5 5 1234 _ rfl rfl rfl).2⟩

end Operand

end Intcode
