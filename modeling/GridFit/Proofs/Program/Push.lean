import GridFit.Proofs.Program.RoundTrip
import GridFit.Proofs.Text.Listing
import Mathlib.Algebra.Group.Nat.Defs
import Mathlib.Data.List.Induction

/-!
# The literals of push instructions

A push instruction carries its literals in the bytes of the program. A byte is a number from
0 to 255, and two bytes are a big-endian number in two's complement. The opcode says how many
there are, or a byte behind it does, which may be zero.
-/

namespace GridFit

/-- The literal that a byte spells. -/
def byteLiteral (b : UInt8) : Int :=
  b.toNat

/-- The literal that the two bytes of a word spell. -/
def wordLiteral (w : UInt8 × UInt8) : Int :=
  Int.bmod (w.1.toNat * 256 + w.2.toNat) (2 ^ 16)

/-- The bytes of words. -/
def wordBytes (ws : List (UInt8 × UInt8)) : List UInt8 :=
  ws.flatMap fun w => [w.1, w.2]

/-- The bytes of a push instruction and the literals that they spell. -/
inductive IsPush : List UInt8 → List Int → Prop
  | countedBytes (bs : List UInt8) (hcount : bs.length ≤ 255) :
      IsPush (0x40 :: UInt8.ofNat bs.length :: bs) (bs.map byteLiteral)
  | countedWords (ws : List (UInt8 × UInt8)) (hcount : ws.length ≤ 255) :
      IsPush (0x41 :: UInt8.ofNat ws.length :: wordBytes ws) (ws.map wordLiteral)
  | bytes (bs : List UInt8) (hpos : 1 ≤ bs.length) (hle : bs.length ≤ 8) :
      IsPush (UInt8.ofNat (0xAF + bs.length) :: bs) (bs.map byteLiteral)
  | words (ws : List (UInt8 × UInt8)) (hpos : 1 ≤ ws.length) (hle : ws.length ≤ 8) :
      IsPush (UInt8.ofNat (0xB7 + ws.length) :: wordBytes ws) (ws.map wordLiteral)

namespace Opcode

theorem toByte_pushb (extra : Fin 8) :
    UInt8.ofNat (0xAF + (extra.val + 1)) = (pushb extra).toByte := by
  revert extra
  decide

theorem toByte_pushw (extra : Fin 8) :
    UInt8.ofNat (0xB7 + (extra.val + 1)) = (pushw extra).toByte := by
  revert extra
  decide

end Opcode

namespace Instruction

/-- The literals of an instruction, in their order. -/
def literals (ins : Instruction) : List Int :=
  ins.operandValues.map Int32.toInt

theorem toInt_byteValue (b : UInt8) : (byteValue b).toInt = byteLiteral b := by
  have hb := b.toNat_lt
  exact Int32.toInt_ofNat_of_lt (by omega)

theorem toInt_wordValue (w : UInt8 × UInt8) : (wordValue w.1 w.2).toInt = wordLiteral w := by
  have hlow : (wordValue w.1 w.2).toInt = (wordValue w.1 w.2).toInt16.toInt := by
    rw [wordValue, Int16.toInt16_toInt32, Int16.toInt_toInt32]
  have hbmod (v : Int16) : v.toInt = Int.bmod v.toUInt16.toNat (2 ^ 16) :=
    BitVec.toInt_eq_toNat_bmod v.toBitVec
  rw [hlow, hbmod, toNat_wordValue]
  exact congrArg (Int.bmod · (2 ^ 16)) (by omega)

/-- Operands in whole words are the bytes of words, and their values are the literals of these. -/
theorem exists_words {operands : List UInt8} (heven : operands.length % 2 = 0) :
    ∃ ws, operands = wordBytes ws ∧ operands.length = 2 * ws.length ∧
      (wordValues operands).map Int32.toInt = ws.map wordLiteral := by
  induction operands using List.twoStepInduction with
  | nil => exact ⟨[], rfl, rfl, rfl⟩
  | singleton b => cases heven
  | cons_cons high low rest ih _ =>
      obtain ⟨ws, hbytes, hlength, hvalues⟩ := ih (by
        rw [List.length_cons, List.length_cons] at heven
        omega)
      refine ⟨(high, low) :: ws, ?_, ?_, ?_⟩
      · rw [hbytes]
        rfl
      · rw [List.length_cons, List.length_cons, List.length_cons, hlength]
        omega
      · rw [wordValues, List.map_cons, List.map_cons, hvalues, toInt_wordValue (high, low)]

/-- The encoding of a push instruction spells its literals. -/
theorem isPush_encode {ins : Instruction} (hpush : ins.opcode.isPush = true)
    (hadmits : ins.opcode.admits ins.operands.length) : IsPush ins.encode ins.literals := by
  have hbytes : (ins.operands.map byteValue).map Int32.toInt = ins.operands.map byteLiteral := by
    rw [List.map_map]
    exact List.map_congr_left fun b _ => toInt_byteValue b
  obtain ⟨op, operands, pc⟩ := ins
  cases op with
  | npushb =>
      simp only [Opcode.admits, decide_eq_true_eq] at hadmits
      have hpush := IsPush.countedBytes operands hadmits
      rw [← hbytes] at hpush
      exact hpush
  | npushw =>
      simp only [Opcode.admits, Bool.and_eq_true, beq_iff_eq, decide_eq_true_eq] at hadmits
      obtain ⟨ws, rfl, hlength, hvalues⟩ := exists_words hadmits.1
      have hcount : (wordBytes ws).length / 2 = ws.length := by omega
      rw [hcount] at hadmits
      have hpush := IsPush.countedWords ws hadmits.2
      rw [← hcount, ← hvalues] at hpush
      exact hpush
  | pushb extra =>
      simp only [Opcode.admits, beq_iff_eq] at hadmits
      have hpush := IsPush.bytes operands (by omega) (by omega)
      rw [hadmits, Opcode.toByte_pushb, ← hbytes] at hpush
      exact hpush
  | pushw extra =>
      simp only [Opcode.admits, beq_iff_eq] at hadmits
      obtain ⟨ws, rfl, hlength, hvalues⟩ := exists_words (by omega : operands.length % 2 = 0)
      have hcount : ws.length = extra.val + 1 := by omega
      have hpush := IsPush.words ws (by omega) (by omega)
      rw [hcount, Opcode.toByte_pushw, ← hvalues] at hpush
      exact hpush
  | _ => cases hpush

end Instruction

end GridFit
