import Intcode.Store.Dense
import Intcode.Store.Sparse

/-! Memories of either kind.

`read_put` gives the common view: a memory is a map from addresses to cells that is zero
where nothing was stored. The kinds differ in the addresses they accept, in their length
and in the cells they list.
-/

namespace Intcode

inductive Store where
  | dense (memory : Store.Dense)
  | sparse (memory : Store.Sparse)
deriving DecidableEq

namespace Store

inductive Kind where
  | dense
  | sparse
deriving DecidableEq, Repr

def empty : Kind → Store
  | .dense => .dense .empty
  | .sparse => .sparse .empty

/-- A memory that holds the cells at the addresses from zero on. -/
def ofCells : Kind → List Int → Store
  | .dense, cells => .dense (.ofCells cells)
  | .sparse, cells => .sparse (.ofCells cells)

def read : Store → Nat → Int
  | .dense memory, address => memory.read address
  | .sparse memory, address => memory.read address

/-- Whether the memory can hold a cell at the address. -/
def accepts : Store → Nat → Bool
  | .dense memory, address => memory.accepts address
  | .sparse _, _ => true

/-- The memory with one cell set, if it accepts the address. -/
def put : Store → Nat → Int → Store
  | .dense memory, address, value => .dense (memory.put address value)
  | .sparse memory, address, value => .sparse (memory.put address value)

/-- Sets one cell, or refuses the address. -/
def write (memory : Store) (address : Nat) (value : Int) : Except Address.Error Store :=
  if memory.accepts address then .ok (memory.put address value)
  else .error (.overflow address)

def length : Store → Nat
  | .dense memory => memory.length
  | .sparse memory => memory.length

def isEmpty (memory : Store) : Bool :=
  memory.length = 0

def entries : Store → List (Nat × Int)
  | .dense memory => memory.entries
  | .sparse memory => memory.entries

/-- The cells that are not zero with their addresses, in order. -/
def nonzero (memory : Store) : List (Nat × Int) :=
  memory.entries.filter fun (_, value) => value ≠ 0

/-- All cells from address zero on, if they are stored contiguously. -/
def contents? : Store → Option (List Int)
  | .dense memory => some memory.cells.toList
  | .sparse _ => none

@[simp] theorem read_ofCells (kind : Kind) (cells : List Int) (address : Nat) :
    (ofCells kind cells).read address = cells[address]?.getD 0 := by
  cases kind with
  | dense => exact Dense.read_ofCells cells address
  | sparse => exact Sparse.read_ofCells cells address

theorem read_put (memory : Store) (address : Nat) (value : Int) (other : Nat) :
    (memory.put address value).read other = if other = address then value else memory.read other := by
  cases memory with
  | dense memory => exact memory.read_put address value other
  | sparse memory => exact memory.read_put address value other

end Store

end Intcode
