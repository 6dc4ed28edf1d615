import GridFit.Proofs.Program.Seam

/-!
# Decoding part after part

Decoding looks at nothing before the offset where it begins, and what it splits off a
stretch of bytes does not depend on the bytes behind. So the decoding of two parts one after
the other is that of the first part followed by that of the second one, whose offsets grow by
the size of the first part. It is the same for decoding that begins at an instruction.

## Implementation notes

The first part has to parse. If it ends inside of an instruction, the second part supplies
operands for that one.
-/

namespace GridFit

/-- The instruction with an offset that is `n` larger. -/
def Instruction.shift (n : Nat) (ins : Instruction) : Instruction :=
  { ins with pc := ins.pc + n }

/-- The failure with an offset that is `n` larger. -/
def DecodeError.shift (n : Nat) (e : DecodeError) : DecodeError :=
  { e with pc := e.pc + n }

/-- The decoding of what stands behind `n` bytes, together with the instructions in these. -/
def Decoding.behind (before : Array Instruction) (n : Nat) (d : Decoding) : Decoding :=
  { instructions := before ++ d.instructions.map (Instruction.shift n)
    error := d.error.map (DecodeError.shift n) }

theorem Instruction.endOffset_shift (n : Nat) (ins : Instruction) :
    (ins.shift n).endOffset = ins.endOffset + n :=
  Nat.add_right_comm ins.pc n ins.size

/-- Where the bytes stand matters only for the offset of the instruction split off them. -/
theorem Instruction.split?_shift (pc n : Nat) (bytes : List UInt8) :
    split? (pc + n) bytes =
      (split? pc bytes).map (Except.map fun (ins, rest) => (ins.shift n, rest)) := by
  cases bytes with
  | nil => rfl
  | cons byte rest =>
      simp only [split?]
      cases Opcode.ofByte? byte with
      | none => rfl
      | some opcode =>
          simp only
          cases opcode.splitOperands? rest <;> rfl

/-! ## Decoding step by step -/

section Steps

variable {decoded : Array Instruction} {pc : Nat} {bytes : List UInt8}

theorem decodeOnto_of_none (h : Instruction.split? pc bytes = none) :
    decodeOnto decoded pc bytes = { instructions := decoded, error := none } := by
  rw [decodeOnto]
  split <;> simp_all

theorem decodeOnto_of_error {fault : DecodeFault}
    (h : Instruction.split? pc bytes = some (.error fault)) :
    decodeOnto decoded pc bytes = { instructions := decoded, error := some { pc, fault } } := by
  rw [decodeOnto]
  split <;> simp_all

theorem decodeOnto_of_ok {ins : Instruction} {rest : List UInt8}
    (h : Instruction.split? pc bytes = some (.ok (ins, rest))) :
    decodeOnto decoded pc bytes = decodeOnto (decoded.push ins) ins.endOffset rest := by
  rw [decodeOnto]
  split <;> simp_all

end Steps

/-- Instructions that are laid out are decoded, whatever stands behind them. -/
theorem decodeOnto_encode {decoded : Array Instruction} {pc : Nat} {program : List Instruction}
    (h : IsLaidOut pc program) (rest : List UInt8) :
    decodeOnto decoded pc (encode program ++ rest) =
      decodeOnto (decoded ++ program.toArray) (pc + (encode program).length) rest := by
  induction program generalizing decoded pc with
  | nil => simp
  | cons ins program ih =>
      obtain ⟨hpc, hadmits, hlaid⟩ := h
      have hsplit : Instruction.split? pc (encode (ins :: program) ++ rest) =
          some (.ok (ins, encode program ++ rest)) :=
        Instruction.split?_eq_ok_iff.2 ⟨hpc, hadmits, by rw [encode_cons, List.append_assoc]⟩
      have hend : pc + (encode (ins :: program)).length =
          ins.endOffset + (encode program).length := by
        rw [encode_cons, List.length_append, Instruction.length_encode, ← hpc,
          Instruction.endOffset, Nat.add_assoc]
      rw [decodeOnto_of_ok hsplit, ih hlaid, hend, List.toArray_cons, ← Array.append_assoc,
        Array.push_eq_append]

/-- Decoding further behind gives the same instructions and the same failure, further behind.
What was decoded before stays in front. -/
theorem decodeOnto_behind (before decoded : Array Instruction) (pc n : Nat)
    (bytes : List UInt8) :
    decodeOnto (before ++ decoded.map (Instruction.shift n)) (pc + n) bytes =
      (decodeOnto decoded pc bytes).behind before n := by
  fun_induction decodeOnto decoded pc bytes with
  | case1 decoded pc bytes hend =>
      rw [decodeOnto_of_none (by rw [Instruction.split?_shift, hend]; rfl)]
      rfl
  | case2 decoded pc bytes fault hfault =>
      rw [decodeOnto_of_error (by rw [Instruction.split?_shift, hfault]; rfl)]
      rfl
  | case3 decoded pc bytes ins rest hsplit ih =>
      have hshifted : Instruction.split? (pc + n) bytes = some (.ok (ins.shift n, rest)) := by
        rw [Instruction.split?_shift, hsplit]
        rfl
      rw [decodeOnto_of_ok hshifted, Instruction.endOffset_shift, ← ih, Array.map_push,
        Array.append_push]

/-! ## Parsing part after part -/

/-- Parsing fails where eager decoding does. -/
theorem parse_eq_error_iff_decodeAll {bytes : List UInt8} {e : DecodeError} :
    parse bytes = .error e ↔ (decodeAll bytes 0).error = some e := by
  unfold parse
  split
  · next instructions heq => simp [heq]
  · next instructions e heq => simp [heq]

/-- Behind a part that parses, decoding goes on as from the start. -/
theorem decodeAll_append {a : List UInt8} {p : Array Instruction} (h : parse a = .ok p)
    (b : List UInt8) :
    decodeAll (a ++ b) 0 = (decodeAll b 0).behind p a.length := by
  obtain ⟨hlaid, rfl⟩ := parse_eq_ok_iff.1 h
  have hbehind := decodeOnto_behind p #[] 0 (encode p.toList).length b
  simp only [Array.map_empty, Array.append_empty] at hbehind
  rw [decodeAll, List.drop_zero, decodeOnto_encode hlaid, Array.toArray_toList,
    Array.empty_append, hbehind]
  rfl

/-- Decoding that begins at an instruction of a program gives the program from there on. -/
theorem decodeAll_pc {bytes : List UInt8} {program : Array Instruction}
    (h : parse bytes = .ok program) {i : Nat} {ins : Instruction}
    (hins : program[i]? = some ins) :
    decodeAll bytes ins.pc = { instructions := program.extract i, error := none } := by
  obtain ⟨hlaid, rfl⟩ := parse_eq_ok_iff.1 h
  have hsplit : program.toList = program.toList.take i ++ program.toList.drop i :=
    (List.take_append_drop i program.toList).symm
  have hpc : ins.pc = (encode (program.toList.take i)).length := by
    rw [hlaid.pc_eq (by simpa using hins), Nat.zero_add]
  rw [hsplit] at hlaid
  have hrest := hlaid.of_append.2
  rw [Nat.zero_add, ← hpc] at hrest
  have hdrop : (encode program.toList).drop ins.pc = encode (program.toList.drop i) := by
    rw [hpc, hsplit, encode_append, List.take_append_drop, List.drop_left]
  rw [decodeAll, hdrop]
  have hextract : program.extract i = #[] ++ (program.toList.drop i).toArray := by
    simp [← Array.toList_inj, Array.toList_extract, List.take_of_length_le]
  exact decodeOnto_eq_iff.2 ⟨_, hextract, hrest, rfl⟩

/-- Decoding is compositional. Behind a part that parses, everything parses that parses by
itself, and what fails by itself fails there for the same reason, in both cases further
behind by the size of the first part. And from the offset of an instruction on, exactly the
program from that instruction on is decoded. -/
theorem decoding_compositional :
    (∀ (a b : List UInt8) (p : Array Instruction), parse a = .ok p →
      ((∃ r, parse (a ++ b) = .ok r) ↔ ∃ q, parse b = .ok q) ∧
      (∀ q, parse b = .ok q →
        parse (a ++ b) = .ok (p ++ q.map (Instruction.shift a.length))) ∧
      ∀ e, parse b = .error e → parse (a ++ b) = .error (e.shift a.length)) ∧
    ∀ (bytes : List UInt8) (program : Array Instruction), parse bytes = .ok program →
      ∀ i ins, program[i]? = some ins →
        decodeAll bytes ins.pc = { instructions := program.extract i, error := none } := by
  refine ⟨fun a b p hp => ?_, fun bytes program hparse i ins hins => decodeAll_pc hparse hins⟩
  have happend := decodeAll_append hp b
  have hok (q : Array Instruction) (hq : parse b = .ok q) :
      parse (a ++ b) = .ok (p ++ q.map (Instruction.shift a.length)) := by
    rw [parse_eq_ok_iff_decodeAll, happend, parse_eq_ok_iff_decodeAll.1 hq]
    rfl
  have herror (e : DecodeError) (he : parse b = .error e) :
      parse (a ++ b) = .error (e.shift a.length) := by
    rw [parse_eq_error_iff_decodeAll, happend, Decoding.behind,
      parse_eq_error_iff_decodeAll.1 he]
    rfl
  refine ⟨⟨?_, fun ⟨q, hq⟩ => ⟨_, hok q hq⟩⟩, hok, herror⟩
  rintro ⟨r, hr⟩
  cases hb : parse b with
  | ok q => exact ⟨q, rfl⟩
  | error e =>
      rw [herror e hb] at hr
      cases hr

/-- An operand that looks like an opcode stays an operand, and both what is decoded behind it
and what fails behind it is two bytes further on. -/
theorem decoding_compositional_operand_like_opcode :
    parse ([0xB0, 0x40] ++ [0x40, 1, 7]) =
      .ok #[⟨.pushb 0, [0x40], 0⟩, ⟨.npushb, [7], 2⟩] ∧
    parse ([0xB0, 0x40] ++ [0x20, 0x28]) = .error ⟨3, .unknownOpcode 0x28⟩ ∧
    decodeAll [0xB0, 0x40, 0x40, 1, 7] 2 =
      { instructions := #[⟨.npushb, [7], 2⟩], error := none } := by
  have hfirst : parse [0xB0, 0x40] = .ok #[⟨.pushb 0, [0x40], 0⟩] :=
    parse_eq_ok_iff.2 ⟨by decide, rfl⟩
  have hsecond : parse [0x40, 1, 7] = .ok #[⟨.npushb, [7], 0⟩] :=
    parse_eq_ok_iff.2 ⟨by decide, rfl⟩
  have hunknown : parse [0x20, 0x28] = .error ⟨1, .unknownOpcode 0x28⟩ :=
    parse_eq_error_iff_decodeAll.2 (by decide +kernel)
  obtain ⟨-, hok, -⟩ := decoding_compositional.1 _ [0x40, 1, 7] _ hfirst
  obtain ⟨-, -, herror⟩ := decoding_compositional.1 _ [0x20, 0x28] _ hfirst
  have hwhole : parse ([0xB0, 0x40] ++ [0x40, 1, 7]) =
      .ok #[⟨.pushb 0, [0x40], 0⟩, ⟨.npushb, [7], 2⟩] := by
    simpa [Instruction.shift] using hok _ hsecond
  exact ⟨hwhole, herror _ hunknown, decoding_compositional.2 _ _ hwhole 1 _ rfl⟩

end GridFit
