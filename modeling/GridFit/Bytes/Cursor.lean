import GridFit.Bytes.Scalar

/-!
# Reading bytes in order

A cursor is a position in a byte sequence. A read either yields exactly the
bytes it asked for and moves past them, or fails and leaves the cursor as it was.

## Implementation notes

A position is a word of 64 bits. The end of a read is found by an addition that stops at the last
position there is, so that a read of any size can be tried anywhere. Moving on is an addition that
wraps around.
-/

namespace GridFit

/-- Why a read failed. -/
inductive ReadError where
  /-- The bytes asked for run past the end. -/
  | outOfBounds
deriving DecidableEq, Repr

/-- The text of a read error. -/
def ReadError.message : ReadError → String
  | .outOfBounds => "an offset was out of bounds"

/-- The number of positions that a word of 64 bits can tell apart. -/
def positionCount : Nat := 0x10000000000000000

/-- A position in a byte sequence, possibly past its end. -/
structure Cursor where
  /-- The whole sequence. -/
  bytes : List UInt8
  /-- The offset of the next byte to read. -/
  position : Nat := 0
deriving DecidableEq, Repr

/-- An operation on a cursor that may fail, and that leaves a cursor also then. -/
abbrev ReadM := EStateM ReadError Cursor

namespace Cursor

/-- The number of bytes left to read. -/
def remaining (c : Cursor) : Nat :=
  c.bytes.length - c.position

/-- Whether nothing is left to read. -/
def isEmpty (c : Cursor) : Bool :=
  c.remaining == 0

/-- The bytes from one offset up to another, if the offsets are in order and not past the end. -/
def slice? (c : Cursor) (start stop : Nat) : Option (List UInt8) :=
  if start ≤ stop ∧ stop ≤ c.bytes.length then some (c.bytes.extract start stop) else none

/-- The bytes that a read of `n` bytes is about. -/
def window? (c : Cursor) (n : Nat) : Option (List UInt8) :=
  c.slice? c.position (min (c.position + n) (positionCount - 1))

/-- The cursor moved on by `n` bytes. -/
def advance (c : Cursor) (n : Nat) : Cursor :=
  { c with position := (c.position + n) % positionCount }

/-- Reads the next `n` bytes. Even an empty read fails past the end. -/
def nextBytes (n : Nat) : ReadM (List UInt8) := fun c =>
  match c.window? n with
  | some bytes => .ok bytes (c.advance n)
  | none => .error .outOfBounds c

/-- Reads the next scalar of the given type. -/
def nextScalar (t : Scalar) : ReadM Int := fun c =>
  match (c.window? t.size).bind t.decode? with
  | some value => .ok value (c.advance t.size)
  | none => .error .outOfBounds c

/-- The result of a read and the cursor after it, for a caller that gives up where it fails. -/
def run {α : Type} (c : Cursor) (x : ReadM α) : Except ReadError (α × Cursor) :=
  match x c with
  | .ok a next => .ok (a, next)
  | .error e _ => .error e

/-- The next `n` bytes and the cursor behind them. -/
def readBytes (c : Cursor) (n : Nat) : Except ReadError (List UInt8 × Cursor) :=
  c.run (nextBytes n)

/-- The next scalar of the given type and the cursor behind it. -/
def read (c : Cursor) (t : Scalar) : Except ReadError (Int × Cursor) :=
  c.run (nextScalar t)

end Cursor

end GridFit
