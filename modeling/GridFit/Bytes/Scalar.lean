/-!
# Big-endian scalars

Bytes are split off the front of a sequence in exact amounts, and a group of
bytes is read as an unsigned or two's-complement number, highest byte first.
-/

namespace GridFit

/-- Splits off the first `n` elements, or fails if there are fewer. -/
def takeExactly? {α : Type} : Nat → List α → Option (List α × List α)
  | 0, l => some ([], l)
  | _ + 1, [] => none
  | n + 1, a :: l => (takeExactly? n l).map fun (front, rest) => (a :: front, rest)

/-- The integer types that occur in an instruction stream. -/
inductive Scalar where
  | uint8
  | int8
  | uint16
  | int16
  | uint32
  | int32
deriving DecidableEq, Repr

namespace Scalar

/-- The number of bytes that a scalar occupies. -/
def size : Scalar → Nat
  | uint8 | int8 => 1
  | uint16 | int16 => 2
  | uint32 | int32 => 4

/-- Whether the scalar is read in two's complement. -/
def isSigned : Scalar → Bool
  | int8 | int16 | int32 => true
  | uint8 | uint16 | uint32 => false

/-- The number of values of a scalar type. -/
def cardinality : Scalar → Nat
  | uint8 | int8 => 0x100
  | uint16 | int16 => 0x10000
  | uint32 | int32 => 0x100000000

/-- The number that the bytes spell in base 256, highest byte first. -/
def unsigned (bytes : List UInt8) : Nat :=
  bytes.foldl (fun n b => n * 256 + b.toNat) 0

/-- Reads a scalar from exactly as many bytes as it occupies. -/
def decode? (t : Scalar) (bytes : List UInt8) : Option Int :=
  if bytes.length = t.size then
    if t.isSigned then some (Int.bmod (unsigned bytes) t.cardinality)
    else some (unsigned bytes)
  else none

end Scalar

end GridFit
