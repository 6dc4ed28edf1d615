import GridFit.Bytes.Scalar
import GridFit.Opcode.Effect
import GridFit.Opcode.Name
import GridFit.Value

/-!
# Instructions

An instruction is an opcode with the operand bytes that follow it in the stream
and the offset at which it starts. Its text is the mnemonic followed by the
operand values in decimal.
-/

namespace GridFit

/-- A decoded instruction. -/
structure Instruction where
  /-- The operation code. -/
  opcode : Opcode
  /-- The encoded inline operands, without a count. -/
  operands : List UInt8
  /-- The offset of the opcode in its program. -/
  pc : Nat
deriving DecidableEq, Repr

namespace Instruction

/-- The control flow category of an instruction. -/
def kind (ins : Instruction) : Kind :=
  ins.opcode.kind

/-- The number of bytes that an instruction occupies. -/
def size (ins : Instruction) : Nat :=
  match ins.opcode.inlineForm with
  | .fixed _ => 1 + ins.operands.length
  | .counted _ => 2 + ins.operands.length

/-- The offset just past an instruction. -/
def endOffset (ins : Instruction) : Nat :=
  ins.pc + ins.size

/-- The number of inline operands. -/
def operandCount (ins : Instruction) : Nat :=
  if ins.opcode.pushesWords then ins.operands.length / 2 else ins.operands.length

/-- A 16-bit big-endian word, sign extended. -/
def wordValue (high low : UInt8) : Value :=
  (high.toUInt16 <<< 8 ||| low.toUInt16).toInt16.toInt32

/-- The values of operands that are words. -/
def wordValues : List UInt8 → List Value
  | high :: low :: rest => wordValue high low :: wordValues rest
  | _ => []

/-- A byte, zero extended. -/
def byteValue (b : UInt8) : Value :=
  Int32.ofNat b.toNat

/-- The inline operand values in their order: bytes are zero extended and words
are sign extended. -/
def operandValues (ins : Instruction) : List Value :=
  if ins.opcode.pushesWords then wordValues ins.operands else ins.operands.map byteValue

/-- The text of an instruction. -/
def text (ins : Instruction) : String :=
  ins.operandValues.foldl (fun s v => s ++ " " ++ toString v.toInt) ins.opcode.name

end Instruction

end GridFit
