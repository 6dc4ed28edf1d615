import GridFit.Bytes.Hex
import GridFit.Instruction

/-!
# Decoding programs

A program is a sequence of instructions packed without gaps. Decoding splits one
instruction after the other off the front of the bytes. It stops at the end of
the bytes or at the first instruction that cannot be decoded, and then names the
offset of its opcode.

## Implementation notes

`Instruction.split?` only sees the bytes from the current offset on. What comes
before an instruction can therefore influence nothing but its offset.
-/

namespace GridFit

/-- Why an instruction could not be decoded. -/
inductive DecodeFault where
  /-- The count byte or the operands run past the end. -/
  | unexpectedEnd
  /-- The byte is not assigned to an opcode. -/
  | unknownOpcode (byte : UInt8)
deriving DecidableEq, Repr

/-- A decoding failure at the opcode with offset `pc`. -/
structure DecodeError where
  /-- The offset of the opcode. -/
  pc : Nat
  /-- The cause. -/
  fault : DecodeFault
deriving DecidableEq, Repr

/-- The text of a decoding fault. -/
def DecodeFault.message : DecodeFault → String
  | .unexpectedEnd => "unexpected end of bytecode"
  | .unknownOpcode b =>
      "unknown opcode 0x" ++ String.ofList (Hex.encodeByte b)

/-- The text of a decoding failure. -/
def DecodeError.message (e : DecodeError) : String :=
  "malformed program @" ++ toString e.pc ++ ": " ++ e.fault.message

/-- Splits the operand bytes of an opcode off the bytes that follow it. -/
def Opcode.splitOperands? (op : Opcode) (bytes : List UInt8) :
    Option (List UInt8 × List UInt8) :=
  match op.inlineForm, bytes with
  | .fixed size, bytes => takeExactly? size bytes
  | .counted _, [] => none
  | .counted width, count :: rest => takeExactly? (width * count.toNat) rest

namespace Instruction

/-- Splits the first instruction off the bytes that start at offset `pc`. There is
none at the end of the bytes. -/
def split? (pc : Nat) : List UInt8 → Option (Except DecodeFault (Instruction × List UInt8))
  | [] => none
  | byte :: rest =>
      match Opcode.ofByte? byte with
      | none => some (.error (.unknownOpcode byte))
      | some opcode =>
          match opcode.splitOperands? rest with
          | none => some (.error .unexpectedEnd)
          | some (operands, rest) => some (.ok ({ opcode, operands, pc }, rest))

end Instruction

theorem takeExactly?_length_le {α : Type} {n : Nat} {l front rest : List α}
    (h : takeExactly? n l = some (front, rest)) : rest.length ≤ l.length := by
  fun_induction takeExactly? n l generalizing front rest with
  | case1 l => simp_all
  | case2 n => simp at h
  | case3 a l n ih =>
      obtain ⟨⟨taken, left⟩, hsplit, heq⟩ := Option.map_eq_some_iff.1 h
      cases heq
      exact Nat.le_succ_of_le (ih hsplit)

theorem Opcode.splitOperands?_length_le {op : Opcode} {bytes operands rest : List UInt8}
    (h : op.splitOperands? bytes = some (operands, rest)) : rest.length ≤ bytes.length := by
  unfold Opcode.splitOperands? at h
  split at h
  · exact takeExactly?_length_le h
  · simp at h
  · exact Nat.le_succ_of_le (takeExactly?_length_le h)

/-- Splitting off an instruction uses up at least its opcode. -/
theorem Instruction.split?_length_lt {pc : Nat} {bytes rest : List UInt8} {ins : Instruction}
    (h : Instruction.split? pc bytes = some (.ok (ins, rest))) :
    rest.length < bytes.length := by
  unfold Instruction.split? at h
  split at h
  · simp at h
  · next byte tail =>
      split at h
      · simp at h
      · split at h
        · simp at h
        · next hops =>
            simp only [Option.some.injEq, Except.ok.injEq, Prod.mk.injEq] at h
            have hle := Opcode.splitOperands?_length_le hops
            rw [← h.2, List.length_cons]
            omega

/-- The instructions decoded from a stretch of bytes, and the failure that ended
them, if one did. -/
structure Decoding where
  /-- The instructions in their order. -/
  instructions : Array Instruction
  /-- The failure at the byte after the last instruction. -/
  error : Option DecodeError
deriving DecidableEq, Repr

/-- Decodes the bytes that start at offset `pc` and adds to `decoded` what they
hold. -/
def decodeOnto (decoded : Array Instruction) (pc : Nat) (bytes : List UInt8) : Decoding :=
  match _h : Instruction.split? pc bytes with
  | none => { instructions := decoded, error := none }
  | some (.error fault) => { instructions := decoded, error := some { pc, fault } }
  | some (.ok (ins, rest)) => decodeOnto (decoded.push ins) ins.endOffset rest
termination_by bytes.length
decreasing_by exact Instruction.split?_length_lt ‹_›

/-- Decodes a program from offset `pc` on, up to its end or the first failure. -/
def decodeAll (bytes : List UInt8) (pc : Nat) : Decoding :=
  decodeOnto #[] pc (bytes.drop pc)

/-- Decodes a whole program, or fails with the first instruction that does not
decode. -/
def parse (bytes : List UInt8) : Except DecodeError (Array Instruction) :=
  match decodeAll bytes 0 with
  | { instructions, error := none } => .ok instructions
  | { error := some e, .. } => .error e

/-- A program with the offset at which the next instruction is decoded. -/
structure Decoder where
  /-- The program. -/
  bytes : List UInt8
  /-- The offset of the next opcode, possibly past the end. -/
  pc : Nat := 0
deriving DecidableEq, Repr

/-- Decodes the next instruction and moves past it. At the end there is none, and
a failure leaves the decoder where it was. -/
def Decoder.next (d : Decoder) : Option (Except DecodeError Instruction) × Decoder :=
  match Instruction.split? d.pc (d.bytes.drop d.pc) with
  | none => (none, d)
  | some (.error fault) => (some (.error { pc := d.pc, fault }), d)
  | some (.ok (ins, _)) => (some (.ok ins), { d with pc := ins.endOffset })

end GridFit
