import Mathlib.Data.List.Induction
import Intcode.Proofs.Entries

/-! The order of writes.

Two writes to different addresses can change places: neither moves the limit that the other
meets, and an array ends after the higher of the two either way. So a list of writes to
different addresses has one result in all its orders. Loading cells is one such list.
-/

namespace Intcode.Store

theorem Dense.ext_read {left right : Dense} (length : left.length = right.length)
    (alike : ∀ address, left.read address = right.read address) : left = right := by
  obtain ⟨leftCells⟩ := left
  obtain ⟨rightCells⟩ := right
  refine congrArg Dense.mk (Array.ext length ?_)
  intro index leftBound rightBound
  simpa [read, leftBound, rightBound] using alike index

variable {memory left right : Store}

/-- Memories of one kind that read alike are equal; arrays also need the same length. -/
theorem ext_read (kind : left.kind = right.kind)
    (length : left.kind = .dense → left.length = right.length)
    (alike : ∀ address, left.read address = right.read address) : left = right := by
  cases left with
  | sparse cells => exact eq_of_sparse rfl kind.symm alike
  | dense cells =>
      cases right with
      | sparse others => contradiction
      | dense others => exact congrArg dense (Dense.ext_read (length rfl) alike)

theorem put_comm (memory : Store) {address other : Nat} (distinct : address ≠ other)
    (value otherValue : Int) :
    (memory.put address value).put other otherValue =
      (memory.put other otherValue).put address value := by
  refine ext_read (by simp only [kind_put]) ?_ ?_
  · intro dense
    rw [kind_put, kind_put] at dense
    rw [length_put_of_dense (by rw [kind_put, dense]), length_put_of_dense dense,
      length_put_of_dense (by rw [kind_put, dense]), length_put_of_dense dense]
    omega
  · intro place
    simp only [read_put]
    by_cases here : place = other
    · rw [if_pos here, if_neg (by omega), if_pos here]
    · rw [if_neg here, if_neg here]

theorem attempt_comm (memory : Store) {first second : Write}
    (distinct : first.address ≠ second.address) :
    ((memory.attempt first).memory.attempt second).memory =
      ((memory.attempt second).memory.attempt first).memory := by
  -- Each write meets the answer that it would get on its own.
  rw [memory_attempt (memory.attempt first).memory, memory_attempt (memory.attempt second).memory,
    accepts_attempt, accepts_attempt, memory_attempt, memory_attempt]
  cases memory.accepts first.address with
  | false => rfl
  | true =>
      cases memory.accepts second.address with
      | false => rfl
      | true => exact memory.put_comm distinct first.value second.value

theorem memory_attempts_perm {writes others : List Write} (permuted : writes.Perm others)
    (distinct : (writes.map Write.address).Nodup) (memory : Store) :
    (memory.attempts writes).memory = (memory.attempts others).memory := by
  induction permuted generalizing memory with
  | nil => rfl
  | cons write _ ih => exact ih distinct.of_cons _
  | swap first second rest =>
      have apart : second.address ≠ first.address := by
        intro same
        simp [same] at distinct
      exact congrArg (fun between => (between.attempts rest).memory) (memory.attempt_comm apart)
  | trans left _ leftIH rightIH =>
      have stillDistinct := (left.map Write.address).nodup_iff.mp distinct
      exact (leftIH distinct memory).trans (rightIH stillDistinct memory)

theorem answers_attempts_perm {writes others : List Write} (permuted : writes.Perm others)
    (memory : Store) : (memory.attempts writes).answers.Perm (memory.attempts others).answers := by
  rw [answers_attempts, answers_attempts]
  exact permuted.map _

theorem memory_attempts_append (memory : Store) (first second : List Write) :
    (memory.attempts (first ++ second)).memory =
      ((memory.attempts first).memory.attempts second).memory := by
  induction first generalizing memory with
  | nil => rfl
  | cons write first ih => exact ih _

/-- One write for each cell, at the addresses from zero on. -/
def cellwise (cells : List Int) : List Write :=
  cells.mapIdx Write.mk

theorem ofCells_concat (kind : Kind) (cells : List Int) (cell : Int) :
    ofCells kind (cells ++ [cell]) = (ofCells kind cells).put cells.length cell := by
  refine ext_read (by rw [kind_put, kind_ofCells, kind_ofCells]) ?_ ?_
  · intro dense
    obtain rfl : kind = .dense := by rwa [kind_ofCells] at dense
    rw [length_put_of_dense (kind_ofCells ..), length_ofCells_dense, length_ofCells_dense,
      List.length_append, List.length_singleton]
    omega
  · intro address
    rw [read_put, read_ofCells, read_ofCells]
    rcases Nat.lt_trichotomy address cells.length with inside | rfl | beyond
    · rw [List.getElem?_append_left inside, if_neg (by omega)]
    · simp
    · have past : (cells ++ [cell])[address]? = none := by
        rw [List.getElem?_eq_none_iff, List.length_append, List.length_singleton]
        omega
      rw [past, if_neg (by omega), List.getElem?_eq_none (by omega)]

/-- Loading is writing the cells one by one, as far as an array can grow. -/
theorem attempts_cellwise (kind : Kind) {cells : List Int}
    (fits : kind = .dense → cells.length ≤ Dense.limit) :
    ((empty kind).attempts (cellwise cells)).memory = ofCells kind cells := by
  -- The cells that are already written make up the loaded memory to which the last one is added.
  induction cells using List.reverseRecOn with
  | nil => exact (ofCells_nil kind).symm
  | append_singleton cells cell ih =>
      simp only [List.length_append, List.length_singleton] at fits
      have accepted : (ofCells kind cells).accepts cells.length = true := by
        cases kind with
        | sparse => exact accepts_of_sparse (kind_ofCells ..) _
        | dense =>
            have room := fits rfl
            rw [accepts_iff (kind_ofCells ..)]
            omega
      rw [cellwise, List.mapIdx_concat, memory_attempts_append, ← cellwise,
        ih (fun dense => Nat.le_of_succ_le (fits dense)), ofCells_concat, attempts_of_accepts accepted]
      rfl

theorem length_attempts_empty (writes : List Write) :
    ((empty .dense).attempts writes).memory.length ≤ Dense.limit := by
  rw [length_attempts rfl]
  refine Nat.max_le.mpr ⟨Nat.zero_le _, reach_le ?_⟩
  intro write member
  rw [accepted_attempts, List.mem_filter, accepts_iff rfl] at member
  exact member.2

/-- Writes to different addresses have the same answers and lead to the same memory in every
order. Loading cells is writing them one by one into an empty memory: always for a sparse
one, and for an array exactly if it can grow to hold them. -/
theorem writes_commute_and_load :
    (∀ (memory : Store) (writes others : List Write), (writes.map Write.address).Nodup →
      writes.Perm others →
        (memory.attempts writes).memory = (memory.attempts others).memory ∧
          (memory.attempts writes).answers.Perm (memory.attempts others).answers) ∧
      (∀ cells, ((empty .sparse).attempts (cellwise cells)).memory = ofCells .sparse cells) ∧
      ∀ cells, ((empty .dense).attempts (cellwise cells)).memory = ofCells .dense cells ↔
        cells.length ≤ Dense.limit := by
  refine ⟨?_, ?_, ?_⟩
  · intro memory writes others distinct permuted
    exact ⟨memory_attempts_perm permuted distinct memory, answers_attempts_perm permuted memory⟩
  · intro cells
    exact attempts_cellwise .sparse (fun impossible => by contradiction)
  · intro cells
    constructor
    · intro loaded
      rw [← length_ofCells_dense cells, ← loaded]
      exact length_attempts_empty _
    · intro fits
      exact attempts_cellwise .dense (fun _ => fits)

/-- A refused write, a zero beyond the end and an overwritten cell. -/
theorem writes_commute_and_load_reversed :
    let memory := ofCells .dense [4]
    let writes : List Write := [⟨0x1000000, 1⟩, ⟨2, 0⟩, ⟨0, 7⟩]
    (memory.attempts writes).memory = (memory.attempts writes.reverse).memory ∧
      (memory.attempts writes).answers.Perm (memory.attempts writes.reverse).answers := by
  intro memory writes
  exact writes_commute_and_load.1 memory writes writes.reverse (by decide)
    (List.reverse_perm writes).symm

end Intcode.Store
