import GridFit.Proofs.Program.Stream

/-!
# Where decoding fails

Any bytes begin with a program, and no further instruction can be split off what is behind
it. Either that is the end, or decoding fails there. So a failure is at the end of the
longest program in front. It is for good if the byte there is no opcode. If it is one, its
operands are cut off, and they can be supplied behind.

## Implementation notes

`Opcode.RunsPast` says when operands are cut off by the sizes alone. Together with an opcode
that is not assigned, this is every reason to fail.
-/

namespace GridFit

/-- The count byte or the operands of an opcode run past the end of the bytes that follow
it. -/
def Opcode.RunsPast (op : Opcode) (following : List UInt8) : Prop :=
  match op.inlineForm, following with
  | .fixed size, following => following.length < size
  | .counted _, [] => True
  | .counted width, count :: rest => rest.length < width * count.toNat

/-! ## One instruction -/

theorem takeExactly?_eq_none_iff {α : Type} {n : Nat} {l : List α} :
    takeExactly? n l = none ↔ l.length < n := by
  fun_induction takeExactly? n l with
  | case1 l => simp
  | case2 n => simp
  | case3 n a l ih => rw [Option.map_eq_none_iff, ih, List.length_cons, Nat.succ_lt_succ_iff]

namespace Opcode

variable {op : Opcode} {following : List UInt8}

theorem splitOperands?_eq_none_iff :
    op.splitOperands? following = none ↔ op.RunsPast following := by
  cases hform : op.inlineForm with
  | fixed size => simp only [splitOperands?, RunsPast, hform, takeExactly?_eq_none_iff]
  | counted width =>
      cases following with
      | nil => simp [splitOperands?, RunsPast, hform]
      | cons count rest => simp only [splitOperands?, RunsPast, hform, takeExactly?_eq_none_iff]

/-- Only the operands of a push can be cut off. -/
theorem RunsPast.isPush (h : op.RunsPast following) : op.isPush = true := by
  cases op <;> first | rfl | exact absurd h (Nat.not_lt_zero _)

/-- Operands that are cut off can be supplied. -/
theorem RunsPast.exists_splitOperands? (h : op.RunsPast following) :
    ∃ more operands, op.splitOperands? (following ++ more) = some (operands, []) := by
  have hfill {n : Nat} {l : List UInt8} (hlt : l.length < n) :
      takeExactly? n (l ++ List.replicate (n - l.length) 0) =
        some (l ++ List.replicate (n - l.length) 0, []) := by
    refine takeExactly?_eq_some_iff.2 ⟨?_, (List.append_nil _).symm⟩
    rw [List.length_append, List.length_replicate]
    omega
  cases hform : op.inlineForm with
  | fixed size =>
      simp only [RunsPast, hform] at h
      exact ⟨_, _, by simpa only [splitOperands?, hform] using hfill h⟩
  | counted width =>
      cases following with
      | nil => exact ⟨[0], [], by simp [splitOperands?, hform, takeExactly?]⟩
      | cons count rest =>
          simp only [RunsPast, hform] at h
          exact ⟨_, _, by simpa only [splitOperands?, hform, List.cons_append] using hfill h⟩

end Opcode

namespace Instruction

variable {pc : Nat} {bytes : List UInt8}

theorem split?_eq_unknownOpcode_iff {byte : UInt8} :
    split? pc bytes = some (.error (.unknownOpcode byte)) ↔
      Opcode.ofByte? byte = none ∧ ∃ rest, bytes = byte :: rest := by
  cases bytes with
  | nil => simp [split?]
  | cons first rest =>
      cases hop : Opcode.ofByte? first with
      | none =>
          simp only [split?, hop, Option.some.injEq, Except.error.injEq,
            DecodeFault.unknownOpcode.injEq, List.cons.injEq]
          constructor
          · rintro rfl
            exact ⟨hop, rest, rfl, rfl⟩
          · rintro ⟨-, _, rfl, -⟩
            rfl
      | some op =>
          simp only [split?, hop, List.cons.injEq]
          constructor
          · intro h
            split at h <;> cases h
          · rintro ⟨hnone, _, rfl, -⟩
            rw [hop] at hnone
            cases hnone

theorem split?_eq_unexpectedEnd_iff :
    split? pc bytes = some (.error .unexpectedEnd) ↔
      ∃ (op : Opcode) (rest : List UInt8), bytes = op.toByte :: rest ∧ op.RunsPast rest := by
  cases bytes with
  | nil => simp [split?]
  | cons first rest =>
      constructor
      · intro h
        cases hop : Opcode.ofByte? first with
        | none => simp [split?, hop] at h
        | some op =>
            cases hoperands : op.splitOperands? rest with
            | none =>
                exact ⟨op, rest, by rw [Opcode.toByte_of_ofByte? hop],
                  Opcode.splitOperands?_eq_none_iff.1 hoperands⟩
            | some operands => simp [split?, hop, hoperands] at h
      · rintro ⟨op, rest', hbytes, hpast⟩
        obtain ⟨rfl, rfl⟩ := List.cons.inj hbytes
        simp only [split?, Opcode.ofByte?_toByte, Opcode.splitOperands?_eq_none_iff.2 hpast]

end Instruction

/-! ## The program in front of a failure -/

/-- All bytes begin with instructions that are laid out, and nothing more can be split off
behind these. -/
theorem exists_isLaidOut_append (pc : Nat) (bytes : List UInt8) :
    ∃ program rest, IsLaidOut pc program ∧ bytes = encode program ++ rest ∧
      ∀ split, Instruction.split? (pc + (encode program).length) rest ≠ some (.ok split) := by
  induction hlength : bytes.length using Nat.strongRecOn generalizing pc bytes with
  | _ n ih =>
      cases hsplit : Instruction.split? pc bytes with
      | none => exact ⟨[], bytes, trivial, rfl, fun _ => by simp [hsplit]⟩
      | some result =>
          cases result with
          | error fault => exact ⟨[], bytes, trivial, rfl, fun _ => by simp [hsplit]⟩
          | ok split =>
              obtain ⟨ins, tail⟩ := split
              have hlt := Instruction.split?_length_lt hsplit
              obtain ⟨hpc, hadmits, rfl⟩ := Instruction.split?_eq_ok_iff.1 hsplit
              obtain ⟨program, rest, hlaid, rfl, hrest⟩ :=
                ih tail.length (hlength ▸ hlt) ins.endOffset tail rfl
              refine ⟨ins :: program, rest, ⟨hpc, hadmits, hlaid⟩, ?_, ?_⟩
              · rw [encode_cons, List.append_assoc]
              · rw [encode_cons, List.length_append, Instruction.length_encode, ← Nat.add_assoc,
                  ← hpc]
                exact hrest

/-- Parsing fails at `pc` exactly if a program ends there and is followed by what cannot be
decoded for the reason that is given. -/
theorem parse_eq_error_iff {bytes : List UInt8} {pc : Nat} {fault : DecodeFault} :
    parse bytes = .error { pc, fault } ↔ ∃ program rest, IsLaidOut 0 program ∧
      bytes = encode program ++ rest ∧ pc = (encode program).length ∧
      Instruction.split? pc rest = some (.error fault) := by
  rw [parse_eq_error_iff_decodeAll, decodeAll, List.drop_zero]
  constructor
  · intro herror
    obtain ⟨program, rest, hlaid, rfl, hrest⟩ := exists_isLaidOut_append 0 bytes
    rw [decodeOnto_encode hlaid] at herror
    rw [Nat.zero_add] at herror hrest
    refine ⟨program, rest, hlaid, rfl, ?_⟩
    cases hsplit : Instruction.split? (encode program).length rest with
    | none =>
        rw [decodeOnto_of_none hsplit] at herror
        cases herror
    | some result =>
        cases result with
        | error fault =>
            rw [decodeOnto_of_error hsplit] at herror
            cases herror
            exact ⟨rfl, hsplit⟩
        | ok split => exact absurd hsplit (hrest split)
  · rintro ⟨program, rest, hlaid, rfl, rfl, hsplit⟩
    rw [decodeOnto_encode hlaid, Nat.zero_add, decodeOnto_of_error hsplit]

/-- Eager decoding finds the program in front of a failure, and the failure. -/
theorem decodeAll_eq_of_error {bytes : List UInt8} {pc : Nat} {fault : DecodeFault}
    (h : parse bytes = .error { pc, fault }) :
    ∃ program, parse (bytes.take pc) = .ok program ∧
      decodeAll bytes 0 = { instructions := program, error := some { pc, fault } } := by
  obtain ⟨program, rest, hlaid, rfl, rfl, hsplit⟩ := parse_eq_error_iff.1 h
  refine ⟨program.toArray, ?_, ?_⟩
  · rw [List.take_left]
    exact parse_eq_ok_iff.2 ⟨hlaid, rfl⟩
  · rw [decodeAll, List.drop_zero, decodeOnto_encode hlaid, Nat.zero_add,
      decodeOnto_of_error hsplit, Array.empty_append]

/-- A byte that is no opcode stops decoding, whatever follows. -/
theorem parse_append_of_unknownOpcode {bytes : List UInt8} {pc : Nat} {byte : UInt8}
    (h : parse bytes = .error { pc, fault := .unknownOpcode byte }) :
    bytes[pc]? = some byte ∧ Opcode.ofByte? byte = none ∧
      ∀ more, parse (bytes ++ more) = .error { pc, fault := .unknownOpcode byte } := by
  obtain ⟨program, rest, hlaid, rfl, rfl, hsplit⟩ := parse_eq_error_iff.1 h
  obtain ⟨hnone, rest, rfl⟩ := Instruction.split?_eq_unknownOpcode_iff.1 hsplit
  refine ⟨?_, hnone, fun more => parse_eq_error_iff.2 ?_⟩
  · rw [List.getElem?_append_right (Nat.le_refl _), Nat.sub_self, List.getElem?_cons_zero]
  · exact ⟨program, byte :: (rest ++ more), hlaid, List.append_assoc .., rfl,
      Instruction.split?_eq_unknownOpcode_iff.2 ⟨hnone, _, rfl⟩⟩

/-- What ends in the middle of a push can be continued to a program. -/
theorem exists_parse_append_of_unexpectedEnd {bytes : List UInt8} {pc : Nat}
    (h : parse bytes = .error { pc, fault := .unexpectedEnd }) :
    (∃ op : Opcode, bytes[pc]? = some op.toByte ∧ op.isPush = true ∧
        op.RunsPast (bytes.drop (pc + 1))) ∧
      ∃ more program, parse (bytes ++ more) = .ok program := by
  obtain ⟨program, rest, hlaid, rfl, hpc, hsplit⟩ := parse_eq_error_iff.1 h
  obtain ⟨op, following, rfl, hpast⟩ := Instruction.split?_eq_unexpectedEnd_iff.1 hsplit
  obtain ⟨more, operands, hoperands⟩ := hpast.exists_splitOperands?
  have hlast : Instruction.split? pc (op.toByte :: (following ++ more)) =
      some (.ok (⟨op, operands, pc⟩, [])) := by
    simp only [Instruction.split?, Opcode.ofByte?_toByte, hoperands]
  have hcompleted : parse (encode program ++ op.toByte :: following ++ more) =
      .ok (program.toArray.push ⟨op, operands, pc⟩) := by
    rw [parse_eq_ok_iff_decodeAll, decodeAll, List.drop_zero, List.append_assoc,
      decodeOnto_encode hlaid, Nat.zero_add, ← hpc, List.cons_append, decodeOnto_of_ok hlast,
      decodeOnto_of_none rfl, Array.empty_append]
  refine ⟨⟨op, ?_, hpast.isPush, ?_⟩, more, _, hcompleted⟩
  · rw [hpc, List.getElem?_append_right (Nat.le_refl _), Nat.sub_self, List.getElem?_cons_zero]
  · have hfollowing : (encode program ++ op.toByte :: following).drop (pc + 1) = following := by
      rw [hpc, ← List.drop_drop, List.drop_left]
      rfl
    rw [hfollowing]
    exact hpast

namespace Decoder

/-- A decoder finds nothing only where there are no more bytes. -/
theorem next_eq_none_iff (d : Decoder) : d.next.1 = none ↔ ¬ d.pc < d.bytes.length := by
  rw [Nat.not_lt, ← List.drop_eq_nil_iff, ← @Instruction.split?_eq_none_iff d.pc, next]
  split <;> simp_all

/-- A decoder that fails stays where it is. -/
theorem next_of_error {d : Decoder} {e : DecodeError} (h : d.next.1 = some (.error e)) :
    e.pc = d.pc ∧ d.next.2 = d := by
  unfold next at h ⊢
  split at h
  · cases h
  · next fault hsplit =>
      obtain rfl : { pc := d.pc, fault } = e := by simpa using h
      exact ⟨rfl, rfl⟩
  · cases h

end Decoder

/-- Failures of decoding are located and classified exactly. In front of the failure that
parsing reports there is a program, and both eager decoding and decoding on demand find its
instructions and the failure once. Where the byte there is no opcode, nothing that follows
helps, and otherwise it is a push that was cut off and can be completed. A decoder that
stands anywhere finds nothing exactly if it is not in front of a byte, and if it fails it
stays where it is and fails again. -/
theorem decoding_failures_located :
    (∀ (bytes : List UInt8) (e : DecodeError), parse bytes = .error e →
      (∃ program, parse (bytes.take e.pc) = .ok program ∧
        decodeAll bytes 0 = { instructions := program, error := some e } ∧
        ∀ n, (InstructionStream.ofBytes bytes 0).answer? n =
          (program.toList.map .ok ++ [.error e])[n]?) ∧
      match e.fault with
      | .unknownOpcode byte =>
          bytes[e.pc]? = some byte ∧ Opcode.ofByte? byte = none ∧
          ∀ more, parse (bytes ++ more) = .error e
      | .unexpectedEnd =>
          (∃ op : Opcode, bytes[e.pc]? = some op.toByte ∧ op.isPush = true ∧
            op.RunsPast (bytes.drop (e.pc + 1))) ∧
          ∃ more program, parse (bytes ++ more) = .ok program) ∧
    ∀ d : Decoder, (d.next.1 = none ↔ ¬ d.pc < d.bytes.length) ∧
      ∀ e, d.next.1 = some (.error e) →
        e.pc = d.pc ∧ d.next.2 = d ∧ d.next.2.next.1 = some (.error e) := by
  refine ⟨fun bytes e herror => ⟨?_, ?_⟩, fun d => ⟨d.next_eq_none_iff, fun e he => ?_⟩⟩
  · obtain ⟨program, hfront, hdecoding⟩ := decodeAll_eq_of_error herror
    refine ⟨program, hfront, hdecoding, fun n => ?_⟩
    rw [InstructionStream.answer?_ofBytes, hdecoding]
    rfl
  · obtain ⟨pc, fault⟩ := e
    cases fault with
    | unknownOpcode byte => exact parse_append_of_unknownOpcode herror
    | unexpectedEnd => exact exists_parse_append_of_unexpectedEnd herror
  · obtain ⟨hpc, hsame⟩ := Decoder.next_of_error he
    exact ⟨hpc, hsame, by rw [hsame, he]⟩

/-- Two words are announced and the second one is cut off, and an opcode is unknown: both
failures are found behind the instruction in front, and by a decoder that stands there. -/
theorem decoding_failures_located_behind_dup :
    parse [0x20, 0x41, 2, 0, 1, 0] = .error ⟨1, .unexpectedEnd⟩ ∧
    (∃ op : Opcode, some 0x41 = some op.toByte ∧ op.isPush = true ∧ op.RunsPast [2, 0, 1, 0]) ∧
    (∃ more program, parse ([0x20, 0x41, 2, 0, 1, 0] ++ more) = .ok program) ∧
    parse [0x20, 0x28] = .error ⟨1, .unknownOpcode 0x28⟩ ∧
    (∀ more, parse ([0x20, 0x28] ++ more) = .error ⟨1, .unknownOpcode 0x28⟩) ∧
    (InstructionStream.ofBytes [0x20, 0x28] 0).answer? 2 = none ∧
    ({ bytes := [0x20, 0x28], pc := 1 } : Decoder).next.2 = { bytes := [0x20, 0x28], pc := 1 } := by
  have hcut : parse [0x20, 0x41, 2, 0, 1, 0] = .error ⟨1, .unexpectedEnd⟩ :=
    parse_eq_error_iff_decodeAll.2 (by decide +kernel)
  have hunknown : parse [0x20, 0x28] = .error ⟨1, .unknownOpcode 0x28⟩ :=
    parse_eq_error_iff_decodeAll.2 (by decide +kernel)
  obtain ⟨-, hpush, hcompleted⟩ := decoding_failures_located.1 _ _ hcut
  obtain ⟨⟨program, hfront, -, hanswers⟩, -, -, hforever⟩ :=
    decoding_failures_located.1 _ _ hunknown
  have hdup : program = #[⟨.dup, [], 0⟩] :=
    Except.ok.inj (hfront.symm.trans (parse_eq_ok_iff.2 ⟨by decide, rfl⟩))
  subst hdup
  have hdecoder := decoding_failures_located.2 { bytes := [0x20, 0x28], pc := 1 }
  exact ⟨hcut, hpush, hcompleted, hunknown, hforever, hanswers 2, (hdecoder.2 _ rfl).2.1⟩

end GridFit
