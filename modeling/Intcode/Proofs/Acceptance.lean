import Intcode.Store.Basic

/-! Which addresses a memory accepts.

A sparse memory accepts every address. An array accepts those below its length or the
limit, whichever is more, and it never gets shorter.
-/

namespace Intcode.Store

def kind : Store → Kind
  | .dense _ => .dense
  | .sparse _ => .sparse

variable {memory : Store}

@[simp] theorem kind_ofCells (kind : Kind) (cells : List Int) : (ofCells kind cells).kind = kind := by
  cases kind <;> rfl

@[simp] theorem kind_put (memory : Store) (address : Nat) (value : Int) :
    (memory.put address value).kind = memory.kind := by
  cases memory <;> rfl

theorem accepts_of_sparse (sparse : memory.kind = .sparse) (address : Nat) :
    memory.accepts address = true := by
  cases memory with
  | dense cells => contradiction
  | sparse cells => rfl

theorem refuses_iff (dense : memory.kind = .dense) {address : Nat} :
    memory.accepts address = false ↔ max memory.length Dense.limit ≤ address := by
  cases memory with
  | dense cells =>
      simp only [accepts, Dense.accepts, length, Dense.length, Bool.or_eq_false_iff,
        decide_eq_false_iff_not]
      omega
  | sparse cells => contradiction

theorem length_ofCells_dense (cells : List Int) : (ofCells .dense cells).length = cells.length :=
  List.size_toArray

theorem length_put_of_dense (dense : memory.kind = .dense) (address : Nat) (value : Int) :
    (memory.put address value).length = max memory.length (address + 1) := by
  cases memory with
  | dense cells => exact cells.length_put address value
  | sparse cells => contradiction

theorem write_of_accepts {address : Nat} (accepted : memory.accepts address = true) (value : Int) :
    memory.write address value = .ok (memory.put address value) := by
  rw [write, if_pos accepted]

theorem accepts_of_write {address : Nat} {value : Int} {after : Store}
    (written : memory.write address value = .ok after) :
    memory.accepts address = true ∧ after = memory.put address value := by
  unfold write at written
  split at written
  · cases written
    exact ⟨‹_›, rfl⟩
  · contradiction

theorem read_of_length_le (dense : memory.kind = .dense) {address : Nat}
    (beyond : memory.length ≤ address) : memory.read address = 0 := by
  cases memory with
  | dense cells =>
      have absent : cells.cells[address]? = none := Array.getElem?_eq_none beyond
      rw [read, Dense.read, absent, Option.getD_none]
  | sparse cells => contradiction

theorem length_put_le (dense : memory.kind = .dense) {address : Nat}
    (accepted : memory.accepts address = true) (value : Int) :
    (memory.put address value).length ≤ max memory.length Dense.limit := by
  have near : ¬ max memory.length Dense.limit ≤ address := by
    rw [← refuses_iff dense, accepted]
    exact Bool.noConfusion
  rw [length_put_of_dense dense]
  omega

end Intcode.Store
