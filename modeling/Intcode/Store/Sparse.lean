import Intcode.Address
import Std.Data.ExtTreeMap

/-! Memory that holds only the cells that are not zero, in the order of their addresses.

No zero is ever stored, so two memories that read alike are equal. The view of the memory
is `read`, and `read_put` says what a change does to it.
-/

namespace Intcode.Store

/-- The cells that are not zero, by address; all others read as zero. -/
structure Sparse where
  cells : Std.ExtTreeMap Nat Int
  nonzero : ∀ address : Nat, cells[address]? ≠ some 0
deriving DecidableEq

namespace Sparse

def empty : Sparse where
  cells := ∅
  nonzero := by simp

def read (memory : Sparse) (address : Nat) : Int :=
  memory.cells[address]?.getD 0

/-- Sets one cell: a zero is removed, any other value is stored. -/
def put (memory : Sparse) (address : Nat) (value : Int) : Sparse :=
  if zero : value = 0 then
    { cells := memory.cells.erase address
      nonzero := by
        intro other
        rw [Std.ExtTreeMap.getElem?_erase]
        split
        · simp
        · exact memory.nonzero other }
  else
    { cells := memory.cells.insert address value
      nonzero := by
        intro other
        rw [Std.ExtTreeMap.getElem?_insert]
        split
        · simpa using zero
        · exact memory.nonzero other }

/-- The cells that are not zero with their addresses, which count from zero. -/
def numbered (cells : List Int) : List (Nat × Int) :=
  (cells.zipIdx.map Prod.swap).filter fun (_, value) => value ≠ 0

theorem mem_numbered {cells : List Int} {address : Nat} {value : Int} :
    (address, value) ∈ numbered cells ↔ cells[address]? = some value ∧ value ≠ 0 := by
  simp only [numbered, List.mem_filter, List.mem_map, List.mem_zipIdx_iff_getElem?,
    decide_eq_true_eq]
  constructor
  · rintro ⟨⟨⟨cell, index⟩, found, same⟩, nonzero⟩
    cases same
    exact ⟨found, nonzero⟩
  · rintro ⟨found, nonzero⟩
    exact ⟨⟨(value, address), found, rfl⟩, nonzero⟩

theorem numbered_ascending (cells : List Int) :
    (numbered cells).Pairwise fun left right => left.1 < right.1 := by
  have all : (cells.zipIdx.map Prod.swap).Pairwise fun left right => left.1 < right.1 := by
    rw [List.pairwise_iff_getElem]
    intro first second firstBound secondBound before
    simpa using before
  exact all.filter _

theorem getElem?_ofList_numbered (cells : List Int) (address : Nat) :
    (Std.ExtTreeMap.ofList (numbered cells))[address]? = cells[address]?.filter (· ≠ 0) := by
  have distinct : (numbered cells).Pairwise fun left right => ¬ compare left.1 right.1 = .eq := by
    refine (numbered_ascending cells).imp ?_
    intro left right before same
    rw [Std.LawfulEqCmp.compare_eq_iff_eq] at same
    omega
  cases found : cells[address]?.filter (· ≠ 0) with
  | some value =>
      rw [Option.filter_eq_some_iff, decide_eq_true_eq] at found
      exact Std.ExtTreeMap.getElem?_ofList_of_mem Std.ReflCmp.compare_self distinct
        (mem_numbered.mpr found)
  | none =>
      apply Std.ExtTreeMap.getElem?_ofList_of_contains_eq_false
      rw [Bool.eq_false_iff, Ne, List.contains_iff_mem, List.mem_map]
      rintro ⟨⟨index, value⟩, member, rfl⟩
      obtain ⟨stored, nonzero⟩ := mem_numbered.mp member
      simp [stored, nonzero] at found

def ofCells (cells : List Int) : Sparse where
  cells := .ofList (numbered cells)
  nonzero := by
    intro address
    simp [getElem?_ofList_numbered, Option.filter_eq_some_iff]

/-- One more than the last address that is not zero, or the last address of all. -/
def length (memory : Sparse) : Nat :=
  match memory.cells.maxKey? with
  | none => 0
  | some address => min (address + 1) Address.last

/-- The cells that are not zero with their addresses, in order. -/
def entries (memory : Sparse) : List (Nat × Int) :=
  memory.cells.toList

@[simp] theorem read_empty (address : Nat) : empty.read address = 0 := by
  simp [read, empty]

theorem read_put (memory : Sparse) (address : Nat) (value : Int) (other : Nat) :
    (memory.put address value).read other = if other = address then value else memory.read other := by
  unfold put
  split
  · rename_i zero
    simp only [read, Std.ExtTreeMap.getElem?_erase, Std.LawfulEqCmp.compare_eq_iff_eq]
    by_cases same : address = other
    · simp [same, zero]
    · simp [same, Ne.symm same]
  · simp only [read, Std.ExtTreeMap.getElem?_insert, Std.LawfulEqCmp.compare_eq_iff_eq]
    by_cases same : address = other
    · simp [same]
    · simp [same, Ne.symm same]

@[simp] theorem read_ofCells (cells : List Int) (address : Nat) :
    (ofCells cells).read address = cells[address]?.getD 0 := by
  rw [read, ofCells, getElem?_ofList_numbered]
  cases cells[address]? with
  | none => rfl
  | some value => by_cases zero : value = 0 <;> simp [Option.filter_some, zero]

/-- A cell is stored exactly if it is not zero. -/
theorem getElem?_cells (memory : Sparse) (address : Nat) :
    memory.cells[address]? = if memory.read address = 0 then none else some (memory.read address) := by
  have nonzero := memory.nonzero address
  unfold read
  cases found : memory.cells[address]? with
  | none => simp
  | some value =>
      have differs : value ≠ 0 := fun zero => nonzero (zero ▸ found)
      simp [differs]

/-- Memories that read alike at every address are equal. -/
theorem ext_read {left right : Sparse} (alike : ∀ address, left.read address = right.read address) :
    left = right := by
  obtain ⟨leftCells, leftNonzero⟩ := left
  obtain ⟨rightCells, rightNonzero⟩ := right
  have same : leftCells = rightCells := by
    apply Std.ExtTreeMap.ext_getElem?
    intro address
    have leftFound := getElem?_cells ⟨leftCells, leftNonzero⟩ address
    have rightFound := getElem?_cells ⟨rightCells, rightNonzero⟩ address
    rw [alike address] at leftFound
    exact leftFound.trans rightFound.symm
  subst same
  rfl

end Sparse

end Intcode.Store
