/-!
# Stack values

An operand is a 32-bit word. Each instruction decides whether it reads the word
as an integer, as a 26.6 fixed point number, as a truth value or as a location.
-/

namespace GridFit

/-- A 32-bit operand, read as an integer or as a 26.6 fixed point number. -/
abbrev Value := Int32

namespace Value

/-- The word pushed for a truth value: one for true and zero for false. -/
def ofBool (b : Bool) : Value :=
  if b then 1 else 0

/-- The location that a word names: locations are 64 bits wide, so the negative
word `-1` names the last of them and lies beyond every memory. -/
def location (v : Value) : Nat :=
  (v.toInt % 18446744073709551616).toNat

end Value

end GridFit
