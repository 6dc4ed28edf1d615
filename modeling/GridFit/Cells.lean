import GridFit.Fault

/-!
# Storage and control values

Both memories are fixed rows of cells. A location beyond the end is a fault that
names the memory and the location.

## Implementation notes

A memory here may have any number of cells. Whoever makes one for a number that comes from outside
compares it with the capacity of a memory first.
-/

namespace GridFit

/-- The cells of one memory. -/
structure Cells (area : Area) where
  /-- The contents by location. -/
  values : Array Value
deriving DecidableEq, Repr

namespace Cells

variable {area : Area}

/-- The greatest number of cells that a memory can have. A cell takes four bytes, and bytes are
counted with 63 bits. -/
def capacity : Nat :=
  0x1FFFFFFFFFFFFFFF

/-- A memory of `n` cells that all hold zero. -/
def zeros (n : Nat) : Cells area :=
  { values := Array.replicate n 0 }

/-- The value at a location. -/
def get (c : Cells area) (location : Nat) : Except Fault Value :=
  match c.values[location]? with
  | some v => .ok v
  | none => .error (.outOfBounds area location)

/-- Writes a value to a location. -/
def put (location : Nat) (v : Value) : EStateM Fault (Cells area) Unit := fun c =>
  if h : location < c.values.size then .ok () { values := c.values.set location v h }
  else .error (.outOfBounds area location) c

end Cells

end GridFit
