import GridFit.Jump
import GridFit.Opcode.Effect
import GridFit.Rounding

/-!
# Operations

What an instruction does apart from branching, defining and calling. Many opcodes
share an operation, since outlines are never moved: an opcode that only measures or
moves points consumes its operands and leaves neutral results.

## Implementation notes

`Opcode.operation` is total. Branch, definition and call opcodes are neutral here,
and the machine gives them their meaning before it gets to this point.
-/

namespace GridFit

/-- A function of one operand and the round state. -/
inductive UnaryOp where
  | abs
  | neg
  | floor
  | ceiling
  | logicalNot
  | round
  /-- Rounding with engine compensation only, which is zero. -/
  | unchanged
  | odd
  | even
deriving DecidableEq, Repr

namespace UnaryOp

/-- The image of an operand. Parity is that of the rounded operand in whole
pixels. -/
def apply (r : RoundState) : UnaryOp → Value → Value
  | abs, a => if a < 0 then -a else a
  | neg, a => -a
  | floor, a => Fixed.floor a
  | ceiling, a => Fixed.ceiling a
  | logicalNot, a => Value.ofBool (a == 0)
  | round, a => r.round a
  | unchanged, a => a
  | odd, a => Value.ofBool (r.round a &&& 127 == 64)
  | even, a => Value.ofBool (r.round a &&& 127 == 0)

end UnaryOp

/-- A function of two operands. -/
inductive BinaryOp where
  | lt
  | lteq
  | gt
  | gteq
  | eq
  | neq
  | logicalAnd
  | logicalOr
  | add
  | sub
  | mul
  | div
  | max
  | min
deriving DecidableEq, Repr

namespace BinaryOp

/-- The image of two operands, the upper of them second. Only a division can fail. -/
def apply : BinaryOp → Value → Value → Except Fault Value
  | lt, a, b => .ok (Value.ofBool (decide (a < b)))
  | lteq, a, b => .ok (Value.ofBool (decide (a ≤ b)))
  | gt, a, b => .ok (Value.ofBool (decide (b < a)))
  | gteq, a, b => .ok (Value.ofBool (decide (b ≤ a)))
  | eq, a, b => .ok (Value.ofBool (a == b))
  | neq, a, b => .ok (Value.ofBool (a != b))
  | logicalAnd, a, b => .ok (Value.ofBool (a != 0 && b != 0))
  | logicalOr, a, b => .ok (Value.ofBool (a != 0 || b != 0))
  | add, a, b => .ok (a + b)
  | sub, a, b => .ok (a - b)
  | mul, a, b => .ok (Fixed.mulDiv a b 64)
  | div, a, b => if b = 0 then .error .divideByZero else .ok (Fixed.mulDivTruncating a 64 b)
  | max, a, b => .ok (if a < b then b else a)
  | min, a, b => .ok (if b < a then b else a)

end BinaryOp

/-- What an instruction does. -/
inductive Operation where
  /-- Push the inline operands. -/
  | pushOperands
  | dup
  | pop
  | clear
  | swap
  | depth
  | copyIndexed
  | moveIndexed
  | roll
  | unary (op : UnaryOp)
  | binary (op : BinaryOp)
  | readStorage
  | writeStorage
  | readCvt
  /-- Write a control value given in pixels. -/
  | writeCvtPixels
  /-- Write a control value given in font units. -/
  | writeCvtUnits
  /-- Choose one of the fixed ways to round. -/
  | setRoundMode (mode : RoundMode)
  /-- Configure a grid with the given 2.14 grid period. -/
  | configureRound (mode : RoundMode) (gridPeriod : Value)
  | setLoop
  | jump (test : JumpTest)
  | pixelsPerEm
  | pointSize
  | getInfo
  | getVariation
  | getData
  | debug
  /-- Push the unit vector of the horizontal axis. -/
  | pushAxis
  /-- Discard a counted list of exception pairs. -/
  | discardPairs
  /-- Discard `pops` values and then one value for each turn of the loop counter. -/
  | discardPoints (pops : Nat)
  /-- Discard `pops` values and push `pushes` zeros. -/
  | neutral (pops pushes : Nat)
deriving DecidableEq, Repr

/-- The operation of an opcode. -/
def Opcode.operation : Opcode → Operation
  | npushb | npushw | pushb _ | pushw _ => .pushOperands
  | dup => .dup
  | pop => .pop
  | clear => .clear
  | swap => .swap
  | depth => .depth
  | cindex => .copyIndexed
  | mindex => .moveIndexed
  | roll => .roll
  | abs => .unary .abs
  | neg => .unary .neg
  | floor => .unary .floor
  | ceiling => .unary .ceiling
  | not => .unary .logicalNot
  | round _ => .unary .round
  | nround _ => .unary .unchanged
  | odd => .unary .odd
  | even => .unary .even
  | lt => .binary .lt
  | lteq => .binary .lteq
  | gt => .binary .gt
  | gteq => .binary .gteq
  | eq => .binary .eq
  | neq => .binary .neq
  | and => .binary .logicalAnd
  | or => .binary .logicalOr
  | add => .binary .add
  | sub => .binary .sub
  | mul => .binary .mul
  | div => .binary .div
  | max => .binary .max
  | min => .binary .min
  | rs => .readStorage
  | ws => .writeStorage
  | rcvt => .readCvt
  | wcvtp => .writeCvtPixels
  | wcvtf => .writeCvtUnits
  | rtg => .setRoundMode .grid
  | rthg => .setRoundMode .halfGrid
  | rtdg => .setRoundMode .doubleGrid
  | rdtg => .setRoundMode .downToGrid
  | rutg => .setRoundMode .upToGrid
  | roff => .setRoundMode .off
  | sround => .configureRound .super 0x4000
  | s45round => .configureRound .super45 0x2D41
  | sloop => .setLoop
  | jmpr => .jump .always
  | jrot => .jump .onTrue
  | jrof => .jump .onFalse
  | mppem => .pixelsPerEm
  | mps => .pointSize
  | getinfo => .getInfo
  | getvariation => .getVariation
  | getdata => .getData
  | debug => .debug
  | gpv | gfv => .pushAxis
  | deltap1 | deltap2 | deltap3 | deltac1 | deltac2 | deltac3 => .discardPairs
  | op =>
      if op.takesPoints then .discardPoints op.stackEffect.pops
      else .neutral op.stackEffect.pops op.stackEffect.pushes

end GridFit
