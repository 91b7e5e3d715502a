/-! The register that relative operands are counted from. -/

namespace Intcode

/-- The register that relative operands are counted from. -/
structure Base where
  value : Int
deriving DecidableEq, Repr

namespace Base

/-- The base before any instruction has moved it. -/
def origin : Base := ⟨0⟩

/-- Moves the base by a signed distance. -/
def adjust (base : Base) (distance : Int) : Base :=
  ⟨base.value + distance⟩

/-- The cell at a signed distance from the base. -/
def offset (base : Base) (distance : Int) : Int :=
  distance + base.value

end Base

end Intcode
