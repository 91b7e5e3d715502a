import Intcode.Proofs.Writes

/-! The cells that a memory lists.

An array lists every cell up to its end, a sparse memory those that are not zero. Without
the zeros both lists are in the order of the addresses and hold what can be read, so they
depend on nothing but the reads: `nonzero_congr`.
-/

namespace Intcode.Store

namespace Sparse

theorem mem_entries (memory : Sparse) {address : Nat} {value : Int} :
    (address, value) ∈ memory.entries ↔ memory.read address = value ∧ value ≠ 0 := by
  rw [entries, Std.ExtTreeMap.mem_toList_iff_getElem?_eq_some, getElem?_cells]
  by_cases zero : memory.read address = 0
  · rw [if_pos zero, zero]
    constructor
    · intro impossible
      contradiction
    · rintro ⟨rfl, nonzero⟩
      contradiction
  · rw [if_neg zero, Option.some.injEq]
    constructor
    · rintro rfl
      exact ⟨rfl, zero⟩
    · exact And.left

theorem entries_ascending (memory : Sparse) :
    memory.entries.Pairwise (·.1 < ·.1) := by
  refine memory.cells.ordered_keys_toList.imp ?_
  intro left right before
  exact Nat.compare_eq_lt.mp before

end Sparse

theorem Dense.entries_eq (memory : Dense) :
    memory.entries = (List.range memory.length).map fun address => (address, memory.read address) := by
  apply List.ext_getElem
  · simp [entries, length]
  · intro index listed inRange
    have stored : index < memory.cells.size := by simpa [length] using inRange
    simp [entries, read, Array.getElem?_eq_getElem stored]

variable {memory left right : Store} {address : Nat} {value : Int}

theorem entries_of_dense (dense : memory.kind = .dense) :
    memory.entries = (List.range memory.length).map fun address => (address, memory.read address) := by
  cases memory with
  | dense cells => exact cells.entries_eq
  | sparse cells => contradiction

theorem entries_ascending (memory : Store) :
    memory.entries.Pairwise (·.1 < ·.1) := by
  cases memory with
  | dense cells =>
      rw [entries_of_dense rfl, List.pairwise_map]
      exact List.pairwise_lt_range
  | sparse cells => exact cells.entries_ascending

theorem nonzero_ascending (memory : Store) :
    memory.nonzero.Pairwise (·.1 < ·.1) :=
  memory.entries_ascending.filter _

theorem mem_nonzero (memory : Store) :
    (address, value) ∈ memory.nonzero ↔ memory.read address = value ∧ value ≠ 0 := by
  rw [nonzero, List.mem_filter, decide_eq_true_eq]
  cases memory with
  | sparse cells =>
      rw [entries, cells.mem_entries, and_assoc, and_self]
      rfl
  | dense cells =>
      rw [entries_of_dense rfl, List.mem_map]
      constructor
      · rintro ⟨⟨other, -, same⟩, nonzero⟩
        cases same
        exact ⟨rfl, nonzero⟩
      · rintro ⟨rfl, nonzero⟩
        refine ⟨⟨address, ?_, rfl⟩, nonzero⟩
        rw [List.mem_range]
        refine Nat.lt_of_not_le fun beyond => nonzero (read_of_length_le rfl beyond)

theorem eq_of_ascending {left right : List (Nat × Int)}
    (leftAscending : left.Pairwise (·.1 < ·.1))
    (rightAscending : right.Pairwise (·.1 < ·.1))
    (same : ∀ entry, entry ∈ left ↔ entry ∈ right) : left = right := by
  have distinct {entries : List (Nat × Int)}
      (ascending : entries.Pairwise (·.1 < ·.1)) : entries.Nodup := by
    refine ascending.imp ?_
    rintro first second before rfl
    exact Nat.lt_irrefl _ before
  refine List.Perm.eq_of_pairwise ?_ leftAscending rightAscending
    ((List.perm_ext_iff_of_nodup (distinct leftAscending) (distinct rightAscending)).mpr same)
  intro first second _ _ before after
  exact absurd after (Nat.lt_asymm before)

/-- Memories that read alike have the same cells that are not zero, whatever their kinds. -/
theorem nonzero_congr (alike : ∀ address, left.read address = right.read address) :
    left.nonzero = right.nonzero := by
  refine eq_of_ascending left.nonzero_ascending right.nonzero_ascending ?_
  rintro ⟨address, value⟩
  rw [mem_nonzero, mem_nonzero, alike]

theorem nonzero_of_sparse (sparse : memory.kind = .sparse) : memory.nonzero = memory.entries := by
  cases memory with
  | dense cells => contradiction
  | sparse cells =>
      refine List.filter_eq_self.mpr ?_
      rintro ⟨address, value⟩ listed
      exact decide_eq_true (cells.mem_entries.mp listed).2

theorem mem_entries_of_sparse (sparse : memory.kind = .sparse) :
    (address, value) ∈ memory.entries ↔ memory.read address = value ∧ value ≠ 0 := by
  rw [← nonzero_of_sparse sparse, mem_nonzero]

theorem eq_of_sparse (leftSparse : left.kind = .sparse) (rightSparse : right.kind = .sparse)
    (alike : ∀ address, left.read address = right.read address) : left = right := by
  cases left with
  | dense cells => contradiction
  | sparse leftCells =>
      cases right with
      | dense cells => contradiction
      | sparse rightCells => exact congrArg sparse (Sparse.ext_read alike)

theorem ofCells_nil (kind : Kind) : ofCells kind [] = empty kind := by
  cases kind with
  | dense => rfl
  | sparse =>
      refine eq_of_sparse rfl rfl ?_
      intro address
      rw [read_ofCells]
      exact (Sparse.read_empty address).symm

/-- Cells and writes at addresses that there are. -/
structure Addressable (cells : List Int) (writes : List Write) : Prop where
  cells : cells.length ≤ Address.last + 1
  writes : ∀ write ∈ writes, write.address ≤ Address.last

theorem Addressable.read_beyond {cells : List Int} {writes : List Write}
    (addressable : Addressable cells writes) (kind : Kind) (beyond : Address.last < address) :
    ((ofCells kind cells).attempts writes).memory.read address = 0 := by
  have bound := addressable.cells
  have notLoaded : cells[address]? = none := List.getElem?_eq_none (by omega)
  have notWritten : lastValue? ((ofCells kind cells).attempts writes).accepted address = none := by
    rw [lastValue?, Option.map_eq_none_iff, List.find?_eq_none]
    intro write member
    rw [List.mem_reverse, accepted_attempts, List.mem_filter] at member
    have within := addressable.writes write member.1
    rw [decide_eq_true_eq]
    omega
  rw [read_attempts, notWritten, read_ofCells, notLoaded]
  rfl

theorem Addressable.memory_eq_iff {cells otherCells : List Int} {writes otherWrites : List Write}
    (addressable : Addressable cells writes) (otherAddressable : Addressable otherCells otherWrites) :
    let memory := ((ofCells .sparse cells).attempts writes).memory
    let other := ((ofCells .sparse otherCells).attempts otherWrites).memory
    memory = other ↔ ∀ address ≤ Address.last, memory.read address = other.read address := by
  intro memory other
  constructor
  · intro same address _
    rw [same]
  · intro alike
    refine eq_of_sparse (kind_loaded ..) (kind_loaded ..) ?_
    intro address
    by_cases within : address ≤ Address.last
    · exact alike address within
    · rw [addressable.read_beyond .sparse (by omega),
        otherAddressable.read_beyond .sparse (by omega)]

/-- A sparse memory lists, in order, exactly the cells that are not zero, and the reads
determine it. An array lists all cells up to its end; where it has accepted every write, its
cells that are not zero are those of the sparse memory. -/
theorem entries_canonical (cells : List Int) (writes : List Write) :
    let dense := (ofCells .dense cells).attempts writes
    let sparse := (ofCells .sparse cells).attempts writes
    (∀ kind, empty kind = ofCells kind []) ∧
      sparse.memory.entries.Pairwise (·.1 < ·.1) ∧
      (∀ entry ∈ sparse.memory.entries, entry.2 ≠ 0) ∧
      (∀ address value, (address, value) ∈ sparse.memory.entries ↔
        sparse.memory.read address = value ∧ value ≠ 0) ∧
      (∀ otherCells otherWrites, Addressable cells writes → Addressable otherCells otherWrites →
        let other := (ofCells .sparse otherCells).attempts otherWrites
        sparse.memory = other.memory ↔
          ∀ address ≤ Address.last, sparse.memory.read address = other.memory.read address) ∧
      dense.memory.entries = (List.range dense.memory.length).map
        (fun address => (address, dense.memory.read address)) ∧
      (dense.accepted = writes → sparse.accepted = writes →
        dense.memory.nonzero = sparse.memory.entries) := by
  intro dense sparse
  have kind : sparse.memory.kind = .sparse := kind_loaded .sparse cells writes
  refine ⟨fun kind => (ofCells_nil kind).symm, sparse.memory.entries_ascending, ?_, ?_, ?_,
    entries_of_dense (kind_loaded ..), ?_⟩
  · rintro ⟨address, value⟩ listed
    exact ((mem_entries_of_sparse kind).mp listed).2
  · intro address value
    exact mem_entries_of_sparse kind
  · intro otherCells otherWrites addressable otherAddressable
    exact addressable.memory_eq_iff otherAddressable
  · intro allDense allSparse
    rw [← nonzero_of_sparse kind]
    refine nonzero_congr ?_
    intro address
    rw [read_attempts, read_attempts, read_ofCells, read_ofCells, allDense, allSparse]

/-- A cell that is set and cleared again, and the same memory from nothing. -/
theorem entries_canonical_cleared :
    let writes : List Write := [⟨Address.last, 5⟩, ⟨Address.last, 0⟩, ⟨1, 8⟩]
    let sparse := (ofCells .sparse [4, 0]).attempts writes
    let other := (ofCells .sparse []).attempts [⟨1, 8⟩, ⟨0, 4⟩]
    (sparse.memory = other.memory ↔
        ∀ address ≤ Address.last, sparse.memory.read address = other.memory.read address) ∧
      ((ofCells .dense []).attempts [⟨1, 8⟩, ⟨0, 4⟩]).memory.nonzero = other.memory.entries := by
  intro writes sparse other
  have addressable : Addressable [4, 0] writes := ⟨by decide, by decide⟩
  have otherAddressable : Addressable [] [⟨1, 8⟩, ⟨0, 4⟩] := ⟨by decide, by decide⟩
  obtain ⟨-, -, -, -, determined, -⟩ := entries_canonical [4, 0] writes
  obtain ⟨-, -, -, -, -, -, same⟩ := entries_canonical [] [⟨1, 8⟩, ⟨0, 4⟩]
  exact ⟨determined [] [⟨1, 8⟩, ⟨0, 4⟩] addressable otherAddressable, same rfl rfl⟩

end Intcode.Store
