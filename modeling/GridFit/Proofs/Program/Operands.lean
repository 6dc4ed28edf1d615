import GridFit.Proofs.Bytes.Cursor
import GridFit.Proofs.Program.Failure
import GridFit.Proofs.Program.Stream
import GridFit.Proofs.Site

/-!
# Reading instructions

The operands of an opcode can also be read with a cursor behind it, as the encoded length of the
opcode says: a count byte if the length is negative, and then as many bytes as there are operands.
What is split off the bytes behind the opcode is what the cursor reads, and what is left of them
begins where the cursor comes to. So a decoder goes on where the cursor comes to, which is the end
of the instruction.
-/

namespace GridFit

namespace Cursor

variable {c next : Cursor} {α β : Type} {x : ReadM α} {f : α → ReadM β} {n : Nat}

/-- The bytes from the position on. -/
def rest (c : Cursor) : List UInt8 :=
  c.bytes.drop c.position

theorem rest_eq_append (c : Cursor) (n : Nat) :
    c.rest = c.bytes.extract c.position (c.position + n) ++ (c.movedBy n).rest := by
  rw [List.extract, Nat.add_sub_cancel_left, rest, rest, movedBy, ← List.drop_drop,
    List.take_append_drop]

/-- What is split off in front of the rest is what the cursor reads. -/
theorem takeExactly?_rest (n : Nat) (hposition : c.position ≤ c.bytes.length)
    (hc : c.bytes.length ≤ addressableCells) :
    takeExactly? n c.rest = (c.readBytes n).toOption.map fun (bs, next) => (bs, next.rest) := by
  by_cases h : c.Admits n
  · rw [readBytes, run, nextBytes_of_admits h hc]
    exact takeExactly?_eq_some_iff.2 ⟨h.length_extract, rest_eq_append c n⟩
  · rw [readBytes, run, nextBytes_of_not_admits h hc]
    refine takeExactly?_eq_none_iff.2 ?_
    rw [rest, List.length_drop]
    exact Nat.lt_of_not_le fun hn => h ⟨hposition, hn⟩

theorem readBytes_of_ok {bs : List UInt8} (h : c.readBytes n = .ok (bs, next))
    (hc : c.bytes.length ≤ addressableCells) :
    next.bytes = c.bytes ∧ next.position ≤ c.bytes.length := by
  by_cases hn : c.Admits n
  · rw [readBytes, run, nextBytes_of_admits hn hc] at h
    cases h
    obtain ⟨hposition, hle⟩ := hn
    exact ⟨rfl, by simp only [movedBy]; omega⟩
  · rw [readBytes, run, nextBytes_of_not_admits hn hc] at h
    cases h

theorem run_bind {a : α} (h : x c = .ok a next) : c.run (x >>= f) = next.run (f a) := by
  simp only [run, bind_apply, h]

theorem run_bind_of_error {e : ReadError} (h : x c = .error e next) :
    c.run (x >>= f) = .error e := by
  simp only [run, bind_apply, h]

end Cursor

open Cursor

variable {op : Opcode} {c next : Cursor} {operands : List UInt8}

namespace Opcode

/-- Reads the operands of an opcode as its encoded length says. A negative one asks for a byte that
counts operands of that width. -/
def readOperands (op : Opcode) : ReadM (List UInt8) :=
  if op.encodedLength < 0 then do
    let count ← nextScalar .uint8
    nextBytes (op.encodedLength.natAbs * count.toNat)
  else nextBytes (op.encodedLength - 1).toNat

theorem readOperands_of_fixed {size : Nat} (hform : op.inlineForm = .fixed size) :
    op.readOperands = nextBytes size := by
  have hlength : op.encodedLength = size + 1 := by rw [encodedLength, hform]
  rw [readOperands, hlength, if_neg (by omega), Int.add_sub_cancel, Int.toNat_natCast]

theorem readOperands_of_counted {width : Nat} (hform : op.inlineForm = .counted width) :
    op.readOperands =
      (nextScalar .uint8 >>= fun count => nextBytes (width * count.toNat)) := by
  have hlength : op.encodedLength = -width := by rw [encodedLength, hform]
  have hwidth : 0 < width := by cases op <;> cases hform <;> decide
  rw [readOperands, hlength, if_pos (by omega), Int.natAbs_neg, Int.natAbs_natCast]

/-- A count byte is read before the operands that it counts. -/
theorem run_readOperands_of_counted {width : Nat} {count : UInt8}
    (hform : op.inlineForm = .counted width) (h : c.Admits 1)
    (hcount : c.bytes.extract c.position (c.position + 1) = [count])
    (hc : c.bytes.length ≤ addressableCells) :
    c.run op.readOperands = (c.movedBy 1).readBytes (width * count.toNat) := by
  have hread : nextScalar .uint8 c = .ok (count.toNat : Int) (c.movedBy 1) := by
    rw [nextScalar_of_admits (t := .uint8) h hc, Scalar.size, hcount, Scalar.value_uint8]
  rw [readOperands_of_counted hform, run_bind hread, Int.toNat_natCast]
  rfl

/-- Decoding splits off what a cursor reads, and goes on where the cursor comes to. -/
theorem splitOperands?_rest (op : Opcode) (c : Cursor) (hposition : c.position ≤ c.bytes.length)
    (hc : c.bytes.length ≤ addressableCells) :
    op.splitOperands? c.rest =
      (c.run op.readOperands).toOption.map fun (operands, next) => (operands, next.rest) := by
  cases hform : op.inlineForm with
  | fixed size =>
      rw [readOperands_of_fixed hform]
      simp only [splitOperands?, hform]
      exact takeExactly?_rest size hposition hc
  | counted width =>
      by_cases h : c.Admits 1
      · obtain ⟨count, hcount⟩ := List.length_eq_one_iff.1 h.length_extract
        have hmoved : (c.movedBy 1).position ≤ (c.movedBy 1).bytes.length := by
          obtain ⟨-, hone⟩ := h
          simp only [movedBy]
          omega
        rw [run_readOperands_of_counted hform h hcount hc, rest_eq_append c 1, hcount]
        simp only [splitOperands?, hform]
        exact takeExactly?_rest _ hmoved hc
      · have hend : c.rest = [] := by
          refine List.drop_eq_nil_of_le (Nat.le_of_not_lt fun hlt => h ⟨hposition, ?_⟩)
          omega
        rw [hend, readOperands_of_counted hform,
          run_bind_of_error (nextScalar_of_not_admits h hc)]
        simp only [splitOperands?, hform]
        rfl

/-- What a cursor reads is in front of where it comes to, and that is not past the end. -/
theorem run_readOperands_of_ok (h : c.run op.readOperands = .ok (operands, next))
    (hc : c.bytes.length ≤ addressableCells) :
    next.bytes = c.bytes ∧ next.position ≤ c.bytes.length := by
  cases hform : op.inlineForm with
  | fixed size =>
      rw [readOperands_of_fixed hform] at h
      exact readBytes_of_ok h hc
  | counted width =>
      by_cases hone : c.Admits 1
      · obtain ⟨count, hcount⟩ := List.length_eq_one_iff.1 hone.length_extract
        rw [run_readOperands_of_counted hform hone hcount hc] at h
        exact readBytes_of_ok (c := c.movedBy 1) h hc
      · rw [readOperands_of_counted hform,
          run_bind_of_error (nextScalar_of_not_admits hone hc)] at h
        cases h

end Opcode

namespace Instruction

variable {bytes : List UInt8} {pc stop : Nat} {ins : Instruction}

/-! ## Encoded lengths -/

/-- An opcode says how long its instructions are, or how wide the operands are that stand behind
the opcode and a count of them. -/
theorem size_eq_of_admits (hadmits : ins.opcode.admits ins.operands.length = true) :
    (ins.size : Int) = if 0 < ins.opcode.encodedLength then ins.opcode.encodedLength
      else 2 - ins.opcode.encodedLength * ins.operandCount := by
  cases hform : ins.opcode.inlineForm with
  | fixed size =>
      have hlength := (Opcode.admits_of_fixed hform).1 hadmits
      simp only [Opcode.encodedLength, Instruction.size, hform, hlength]
      rw [if_pos (by omega)]
      omega
  | counted width =>
      obtain ⟨opcode, operands, pc⟩ := ins
      cases opcode with
      | npushb =>
          cases hform
          simp [Opcode.encodedLength, size, operandCount, Opcode.inlineForm, Opcode.pushesWords]
      | npushw =>
          cases hform
          simp only [Opcode.admits, Bool.and_eq_true, beq_iff_eq] at hadmits
          simp only [Opcode.encodedLength, size, operandCount, Opcode.inlineForm,
            Opcode.pushesWords, if_true]
          rw [if_neg (by decide)]
          omega
      | _ => cases hform

/-! ## Single instructions -/

/-- Reads the instruction at an offset with a cursor behind its opcode, and says where the cursor
comes to. There is no instruction past the end of the bytes. -/
def read? (bytes : List UInt8) (pc : Nat) : Option (Except DecodeFault (Instruction × Nat)) :=
  match bytes[pc]? with
  | none => none
  | some byte =>
      match Opcode.ofByte? byte with
      | none => some (.error (.unknownOpcode byte))
      | some opcode =>
          match ({ bytes, position := pc + 1 } : Cursor).run opcode.readOperands with
          | .error _ => some (.error .unexpectedEnd)
          | .ok (operands, next) => some (.ok ({ opcode, operands, pc }, next.position))

/-- Splitting an instruction off the bytes from an offset on reads it there, and leaves the bytes
from where the cursor comes to. -/
theorem split?_drop (bytes : List UInt8) (pc : Nat) (hbytes : bytes.length ≤ addressableCells) :
    split? pc (bytes.drop pc) =
      (read? bytes pc).map (Except.map fun (ins, stop) => (ins, bytes.drop stop)) := by
  rcases Nat.lt_or_ge pc bytes.length with hpc | hpc
  · rw [List.drop_eq_getElem_cons hpc, split?, read?, List.getElem?_eq_getElem hpc]
    cases hop : Opcode.ofByte? bytes[pc] with
    | none => simp only [hop, Option.map_some, Except.map]
    | some opcode =>
        have hsplit := opcode.splitOperands?_rest { bytes, position := pc + 1 } hpc hbytes
        simp only [hop]
        rw [show bytes.drop (pc + 1) = ({ bytes, position := pc + 1 } : Cursor).rest from rfl,
          hsplit]
        cases hrun : ({ bytes, position := pc + 1 } : Cursor).run opcode.readOperands with
        | error e => rfl
        | ok result =>
            obtain ⟨operands, next⟩ := result
            obtain ⟨hnext, -⟩ := Opcode.run_readOperands_of_ok hrun hbytes
            simp [Except.toOption, Except.map, Cursor.rest, hnext]
  · rw [List.drop_eq_nil_of_le hpc, read?, List.getElem?_eq_none hpc]
    rfl

theorem stop_le_of_read? (h : read? bytes pc = some (.ok (ins, stop)))
    (hbytes : bytes.length ≤ addressableCells) : stop ≤ bytes.length := by
  unfold read? at h
  split at h
  · cases h
  · split at h
    · cases h
    · split at h
      · cases h
      · next hrun =>
          cases h
          exact (Opcode.run_readOperands_of_ok hrun hbytes).2

/-- An instruction ends where the cursor comes to. -/
theorem endOffset_of_read? (h : read? bytes pc = some (.ok (ins, stop)))
    (hbytes : bytes.length ≤ addressableCells) : ins.endOffset = stop := by
  have hsplit := split?_drop bytes pc hbytes
  rw [h, Option.map_some, Except.map] at hsplit
  obtain ⟨hpc, -, hdrop⟩ := split?_eq_ok_iff.1 hsplit
  have hsame := congrArg List.length (drop_endOffset hsplit)
  have hends := congrArg List.length hdrop
  simp only [List.length_drop, List.length_append, length_encode] at hsame hends
  have hstop : stop ≤ bytes.length := stop_le_of_read? h hbytes
  have hsize := ins.size_pos
  rw [endOffset] at hsame ⊢
  omega

end Instruction

/-! ## Programs -/

/-- A decoder moves to where the cursor comes to. -/
theorem Decoder.next_eq_read? (d : Decoder) (hbytes : d.bytes.length ≤ addressableCells) :
    d.next =
      match Instruction.read? d.bytes d.pc with
      | none => (none, d)
      | some (.error fault) => (some (.error { pc := d.pc, fault }), d)
      | some (.ok (ins, stop)) => (some (.ok ins), { d with pc := stop }) := by
  rw [next, Instruction.split?_drop d.bytes d.pc hbytes]
  cases hread : Instruction.read? d.bytes d.pc with
  | none => rfl
  | some result =>
      cases result with
      | error fault => rfl
      | ok result =>
          obtain ⟨ins, stop⟩ := result
          simp only [Option.map_some, Except.map, Instruction.endOffset_of_read? hread hbytes]

/-- Decoding a program from an offset on reads the instruction there and goes on where the cursor
comes to. -/
theorem decodeOnto_eq_read? (decoded : Array Instruction) (bytes : List UInt8) (pc : Nat)
    (hbytes : bytes.length ≤ addressableCells) :
    decodeOnto decoded pc (bytes.drop pc) =
      match Instruction.read? bytes pc with
      | none => { instructions := decoded, error := none }
      | some (.error fault) => { instructions := decoded, error := some { pc, fault } }
      | some (.ok (ins, stop)) => decodeOnto (decoded.push ins) stop (bytes.drop stop) := by
  have hsplit := Instruction.split?_drop bytes pc hbytes
  cases hread : Instruction.read? bytes pc with
  | none =>
      rw [hread] at hsplit
      exact decodeOnto_of_none hsplit
  | some result =>
      rw [hread] at hsplit
      cases result with
      | error fault => exact decodeOnto_of_error hsplit
      | ok result =>
          obtain ⟨ins, stop⟩ := result
          rw [decodeOnto_of_ok hsplit, Instruction.endOffset_of_read? hread hbytes]

end GridFit
