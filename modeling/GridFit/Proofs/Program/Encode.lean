import GridFit.Instruction

/-!
# Encoding programs

The bytes of a program are those of its instructions, one after the other. An
instruction is its opcode, a count where the opcode does not say how many operands
follow, and the operands.

## Implementation notes

Encoding does not read offsets. They are given to opcodes and operands by `layOut`,
each offset being the sum of the sizes before it.
-/

namespace GridFit

/-- Whether an opcode can be followed by so many operand bytes: none unless it pushes,
and otherwise as many bytes or words as it says, or as one byte can count. -/
def Opcode.admits : Opcode → Nat → Bool
  | npushb, n => n ≤ 255
  | npushw, n => n % 2 == 0 && n / 2 ≤ 255
  | pushb extra, n => n == extra.val + 1
  | pushw extra, n => n == 2 * (extra.val + 1)
  | _, n => n == 0

/-- The byte that counts the operands of an instruction, if its opcode needs one. -/
def Instruction.countByte (ins : Instruction) : List UInt8 :=
  match ins.opcode with
  | .npushb | .npushw => [UInt8.ofNat ins.operandCount]
  | _ => []

/-- The bytes of an instruction. -/
def Instruction.encode (ins : Instruction) : List UInt8 :=
  ins.opcode.toByte :: (ins.countByte ++ ins.operands)

/-- The bytes of a sequence of instructions. -/
def encode (program : List Instruction) : List UInt8 :=
  program.flatMap Instruction.encode

/-- The instructions with the given opcodes and operands that follow each other from
offset `pc` on. -/
def layOut (pc : Nat) : List (Opcode × List UInt8) → List Instruction
  | [] => []
  | (opcode, operands) :: rest =>
      let ins : Instruction := { opcode, operands, pc }
      ins :: layOut ins.endOffset rest

/-- Whether instructions follow each other from offset `pc` on, each of them with
operands that its opcode admits. -/
def IsLaidOut (pc : Nat) : List Instruction → Prop
  | [] => True
  | ins :: rest =>
      ins.pc = pc ∧ ins.opcode.admits ins.operands.length ∧ IsLaidOut ins.endOffset rest

/-- It can be decided whether instructions follow each other. -/
instance decidableIsLaidOut : (pc : Nat) → (program : List Instruction) →
    Decidable (IsLaidOut pc program)
  | _, [] => isTrue trivial
  | _, ins :: rest =>
      have := decidableIsLaidOut ins.endOffset rest
      inferInstanceAs (Decidable (_ ∧ _ ∧ _))

end GridFit
