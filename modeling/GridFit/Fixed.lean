import GridFit.Value

/-!
# Fixed point arithmetic

Distances are 26.6 numbers: a pixel is 64 units. Scale factors are 16.16 numbers.
All results are reduced to 32 bits, and intermediate products have 64 bits.

## Implementation notes

`mul` and `mulDiv` stand for two operations of a library of fixed point types from outside the
interpreter, the product of 16.16 numbers and the scaled quotient. They spell out what that library
documents of them. That it does what it documents is assumed wherever a product is computed.
-/

namespace GridFit.Fixed

/-- The greatest multiple of a pixel that is not above `x`. -/
def floor (x : Value) : Value :=
  x &&& ~~~63

/-- The least multiple of a pixel that is not below `x`. -/
def ceiling (x : Value) : Value :=
  floor (x + 63)

/-- The multiple of a pixel nearest to `x`, the upper one of two. -/
def nearest (x : Value) : Value :=
  floor (x + 32)

/-- The multiple of half a pixel nearest to `x`, the upper one of two. -/
def nearestHalf (x : Value) : Value :=
  (x + 16) &&& ~~~31

/-- The 16.16 product of two numbers, to the nearest unit. Of two nearest units
the one farther from zero is taken. The library's product. -/
def mul (a b : Value) : Value :=
  let product := a.toInt64 * b.toInt64
  ((product + 0x8000 - (if product < 0 then 1 else 0)) >>> 16).toInt32

/-- The absolute value in 64 bits, where none overflows. -/
def magnitude (x : Value) : UInt64 :=
  let wide := x.toInt64
  (if wide < 0 then -wide else wide).toUInt64

/-- The quotient `a * b / c`, to the nearest unit, with a fixed large quotient
for a zero divisor. The library's scaled quotient. -/
def mulDiv (a b c : Value) : Value :=
  let quotient : UInt64 :=
    if c = 0 then 0x7FFFFFFF
    else (magnitude a * magnitude b + (magnitude c >>> 1)) / magnitude c
  let reduced := quotient.toUInt32.toInt32
  if xor (xor (decide (a < 0)) (decide (b < 0))) (decide (c < 0)) then -reduced else reduced

/-- The quotient `a * b / c` without its fraction. Signs are stripped in 32 bits
and put back in 64 bits. A divisor that is then not positive gives a fixed large
quotient. -/
def mulDivTruncating (a b c : Value) : Value :=
  let strip (x : Value) : Value := if x < 0 then -x else x
  let quotient : Int64 :=
    if 0 < strip c then (strip a).toInt64 * (strip b).toInt64 / (strip c).toInt64
    else 0x7FFFFFFF
  (if xor (xor (decide (a < 0)) (decide (b < 0))) (decide (c < 0)) then -quotient
    else quotient).toInt32

end GridFit.Fixed
