import Intcode.Address

/-! Contiguous memory: an array of cells from address zero on, which grows with zeros.

An array grows up to `limit` cells; a longer one keeps the cells it has. The view of the
memory is `read`, and `read_put` says what a change does to it.
-/

namespace Intcode.Store

/-- Cells at addresses from zero on; all others read as zero. -/
structure Dense where
  cells : Array Int
deriving DecidableEq, Repr

namespace Dense

/-- The number of cells up to which an array can grow. -/
def limit : Nat := 0x1000000

def empty : Dense :=
  ⟨#[]⟩

def ofCells (cells : List Int) : Dense :=
  ⟨cells.toArray⟩

def read (memory : Dense) (address : Nat) : Int :=
  memory.cells[address]?.getD 0

/-- Whether the array holds the address or can grow to hold it. -/
def accepts (memory : Dense) (address : Nat) : Bool :=
  address < memory.cells.size || address + 1 ≤ limit

/-- Sets one cell, after zeros up to it where the array was shorter. -/
def put (memory : Dense) (address : Nat) (value : Int) : Dense :=
  ⟨(memory.cells.rightpad (address + 1) 0).setIfInBounds address value⟩

def length (memory : Dense) : Nat :=
  memory.cells.size

def entries (memory : Dense) : List (Nat × Int) :=
  memory.cells.toList.zipIdx.map Prod.swap

@[simp] theorem read_ofCells (cells : List Int) (address : Nat) :
    (ofCells cells).read address = cells[address]?.getD 0 := by
  simp [read, ofCells]

theorem read_put (memory : Dense) (address : Nat) (value : Int) (other : Nat) :
    (memory.put address value).read other = if other = address then value else memory.read other := by
  simp only [read, put, Array.rightpad, Array.getElem?_setIfInBounds, Array.getElem?_append,
    Array.size_append, Array.size_replicate, Array.getElem?_replicate]
  grind

@[simp] theorem length_put (memory : Dense) (address : Nat) (value : Int) :
    (memory.put address value).length = max memory.length (address + 1) := by
  simp only [length, put, Array.rightpad, Array.size_setIfInBounds, Array.size_append,
    Array.size_replicate]
  omega

end Dense

end Intcode.Store
