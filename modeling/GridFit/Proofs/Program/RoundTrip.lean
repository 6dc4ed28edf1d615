import GridFit.Program.Decode
import GridFit.Proofs.Program.Encode
import GridFit.Site

/-!
# Decoding inverts encoding

A sequence of instructions is laid out from an offset on if every instruction has the
operands that its opcode admits and starts where the previous one ends. The main
statements say that parsing accepts the encodings of exactly these sequences, and
gives back the sequence that was encoded.

## Implementation notes

All inductions are on the instructions or on the split of one instruction off the
bytes. What is decoded is added to what was decoded before, so the statements about
`decodeOnto` carry the earlier instructions along.
-/

namespace GridFit

/-! ## Opcodes and bytes -/

/-- Every opcode is found again by its byte. -/
theorem Opcode.ofByte?_toByte (op : Opcode) : ofByte? op.toByte = some op := by
  cases op <;> first | rfl | (rename_i a; revert a; decide +kernel)

/-- A byte that has an opcode is the byte of that opcode. -/
theorem Opcode.toByte_of_ofByte? {byte : UInt8} {op : Opcode} (h : ofByte? byte = some op) :
    op.toByte = byte := by
  have hall : ∀ n : Fin 256, ∀ op ∈ ofByte? (UInt8.ofNat n.val),
      op.toByte = UInt8.ofNat n.val := by decide +kernel
  have hbyte : UInt8.ofNat byte.toNat = byte := by simp
  have hmem : op ∈ ofByte? (UInt8.ofNat byte.toNat) := by rw [hbyte]; exact h
  rw [hall ⟨byte.toNat, byte.toNat_lt⟩ op hmem, hbyte]

/-! ## One instruction -/

/-- Splitting off an exact amount is the same as undoing an append. -/
theorem takeExactly?_eq_some_iff {α : Type} {n : Nat} {l front rest : List α} :
    takeExactly? n l = some (front, rest) ↔ front.length = n ∧ l = front ++ rest := by
  fun_induction takeExactly? n l generalizing front rest with
  | case1 l =>
      simp only [Option.some.injEq, Prod.mk.injEq, List.length_eq_zero_iff]
      constructor
      · rintro ⟨rfl, rfl⟩
        exact ⟨rfl, rfl⟩
      · rintro ⟨rfl, rfl⟩
        exact ⟨rfl, rfl⟩
  | case2 n =>
      constructor
      · intro h
        cases h
      · rintro ⟨hlen, happ⟩
        have hfront : front = [] := (List.append_eq_nil_iff.1 happ.symm).1
        simp [hfront] at hlen
  | case3 n a l ih =>
      simp only [Option.map_eq_some_iff, Prod.exists, Prod.mk.injEq]
      constructor
      · rintro ⟨taken, left, hsplit, rfl, rfl⟩
        obtain ⟨hlen, happ⟩ := ih.1 hsplit
        exact ⟨by simp [hlen], by simp [happ]⟩
      · rintro ⟨hlen, happ⟩
        cases front with
        | nil => simp at hlen
        | cons b taken =>
            obtain ⟨rfl, htail⟩ := List.cons.inj happ
            exact ⟨taken, rest, ih.2 ⟨Nat.succ.inj hlen, htail⟩, rfl, rfl⟩

/-- What a count byte says and what it counts determine each other. -/
private theorem eq_count_iff {count : UInt8} {front rest tail : List UInt8}
    (width : Nat) (hwidth : 0 < width) :
    front.length = width * count.toNat ∧ tail = front ++ rest ↔
      (width ∣ front.length ∧ front.length / width ≤ 255) ∧
        count :: tail = UInt8.ofNat (front.length / width) :: (front ++ rest) := by
  have hcount : count.toNat ≤ 255 := Nat.le_of_lt_succ count.toNat_lt
  constructor
  · rintro ⟨hlen, rfl⟩
    have hdiv : front.length / width = count.toNat := by
      rw [hlen, Nat.mul_div_cancel_left _ hwidth]
    exact ⟨⟨⟨count.toNat, hlen⟩, by omega⟩, by rw [hdiv, UInt8.ofNat_toNat]⟩
  · rintro ⟨⟨⟨n, hlen⟩, hle⟩, heq⟩
    rw [hlen, Nat.mul_div_cancel_left _ hwidth] at hle heq
    obtain ⟨rfl, rfl⟩ := List.cons.inj heq
    exact ⟨by rw [hlen, UInt8.toNat_ofNat_of_lt' (Nat.lt_succ_of_le hle)], rfl⟩

theorem Opcode.admits_of_fixed {op : Opcode} {size n : Nat} (hform : op.inlineForm = .fixed size) :
    op.admits n = true ↔ n = size := by
  cases op <;> cases hform <;> simp [admits]

/-- The operands that are split off are admitted, and with their count they make up
what was in front. -/
theorem Instruction.splitOperands?_eq_some_iff (ins : Instruction) {bytes rest : List UInt8} :
    ins.opcode.splitOperands? bytes = some (ins.operands, rest) ↔
      ins.opcode.admits ins.operands.length ∧
        bytes = ins.countByte ++ ins.operands ++ rest := by
  obtain ⟨opcode, operands, pc⟩ := ins
  unfold Opcode.splitOperands?
  split
  · next size hform =>
      have hcount : ({ opcode, operands, pc } : Instruction).countByte = [] := by
        cases opcode <;> first | rfl | cases hform
      rw [takeExactly?_eq_some_iff, Opcode.admits_of_fixed hform, hcount, List.nil_append]
  · next width hform =>
      have hcount : ({ opcode, operands, pc } : Instruction).countByte ≠ [] := by
        cases opcode <;> first | (cases hform; simp [countByte]) | cases hform
      simp [hcount]
  · next width count tail hform =>
      rw [takeExactly?_eq_some_iff]
      cases opcode with
      | npushb =>
          cases hform
          simpa [Opcode.admits, countByte, operandCount, Opcode.pushesWords]
            using eq_count_iff 1 Nat.one_pos
      | npushw =>
          cases hform
          simpa [Opcode.admits, countByte, operandCount, Opcode.pushesWords,
            Nat.dvd_iff_mod_eq_zero] using eq_count_iff 2 Nat.two_pos
      | _ => cases hform

/-- The first instruction of a stretch of bytes is the one whose encoding stands in
front. -/
theorem Instruction.split?_eq_ok_iff {pc : Nat} {bytes rest : List UInt8} {ins : Instruction} :
    Instruction.split? pc bytes = some (.ok (ins, rest)) ↔
      ins.pc = pc ∧ ins.opcode.admits ins.operands.length ∧ bytes = ins.encode ++ rest := by
  constructor
  · intro h
    unfold Instruction.split? at h
    split at h
    · simp at h
    · next byte tail =>
        split at h
        · simp at h
        · next opcode hop =>
            split at h
            · simp at h
            · next operands left hsplit =>
                simp only [Option.some.injEq, Except.ok.injEq, Prod.mk.injEq] at h
                obtain ⟨rfl, rfl⟩ := h
                obtain ⟨hadmits, htail⟩ :=
                  (splitOperands?_eq_some_iff { opcode, operands, pc }).1 hsplit
                refine ⟨rfl, hadmits, ?_⟩
                rw [Instruction.encode, Opcode.toByte_of_ofByte? hop, htail]
                rfl
  · rintro ⟨rfl, hadmits, rfl⟩
    have hsplit : ins.opcode.splitOperands? (ins.countByte ++ ins.operands ++ rest) =
        some (ins.operands, rest) :=
      (splitOperands?_eq_some_iff ins).2 ⟨hadmits, rfl⟩
    simp only [Instruction.encode, List.cons_append, Instruction.split?,
      Opcode.ofByte?_toByte, hsplit]

/-! ## Sequences of instructions -/

/-- There is no first instruction only where there are no bytes. -/
theorem Instruction.split?_eq_none_iff {pc : Nat} {bytes : List UInt8} :
    Instruction.split? pc bytes = none ↔ bytes = [] := by
  cases bytes with
  | nil => simp [Instruction.split?]
  | cons byte rest =>
      simp only [Instruction.split?, reduceCtorEq, iff_false]
      split
      · simp
      · split <;> simp

/-- A sequence that is laid out starts with an instruction that can be split off its
encoding. -/
theorem IsLaidOut.split?_encode {pc : Nat} {ins : Instruction} {rest : List Instruction}
    (h : IsLaidOut pc (ins :: rest)) :
    Instruction.split? pc (encode (ins :: rest)) = some (.ok (ins, encode rest)) :=
  Instruction.split?_eq_ok_iff.2 ⟨h.1, h.2.1, rfl⟩

/-- Decoding to the end adds exactly the sequence that is laid out from the offset on and
encoded by the bytes. -/
theorem decodeOnto_eq_iff {decoded program : Array Instruction} {pc : Nat} {bytes : List UInt8} :
    decodeOnto decoded pc bytes = { instructions := program, error := none } ↔
      ∃ added : List Instruction, program = decoded ++ added.toArray ∧ IsLaidOut pc added ∧
        encode added = bytes := by
  fun_induction decodeOnto decoded pc bytes with
  | case1 decoded pc bytes hend =>
      obtain rfl := Instruction.split?_eq_none_iff.1 hend
      constructor
      · intro h
        cases h
        exact ⟨[], by simp, trivial, rfl⟩
      · rintro ⟨added, rfl, hlaid, hbytes⟩
        cases added with
        | nil => simp
        | cons ins rest => simp [encode, Instruction.encode] at hbytes
  | case2 decoded pc bytes fault hfault =>
      constructor
      · intro h
        cases h
      · rintro ⟨added, rfl, hlaid, rfl⟩
        cases added with
        | nil => simp [encode, Instruction.split?] at hfault
        | cons ins rest => simp [hlaid.split?_encode] at hfault
  | case3 decoded pc bytes ins rest hsplit ih =>
      obtain ⟨hpc, hadmits, hbytes⟩ := Instruction.split?_eq_ok_iff.1 hsplit
      rw [ih]
      constructor
      · rintro ⟨added, rfl, hlaid, hrest⟩
        refine ⟨ins :: added, by simp, ⟨hpc, hadmits, hlaid⟩, ?_⟩
        rw [hbytes, ← hrest]
        rfl
      · rintro ⟨added, rfl, hlaid, rfl⟩
        cases added with
        | nil => simp [encode, Instruction.split?] at hsplit
        | cons first added =>
            rw [hlaid.split?_encode] at hsplit
            obtain ⟨rfl, rfl⟩ : first = ins ∧ encode added = rest := by simpa using hsplit
            exact ⟨added, by simp, hlaid.2.2, rfl⟩

/-- Parsing succeeds where eager decoding gets to the end. -/
theorem parse_eq_ok_iff_decodeAll {bytes : List UInt8} {program : Array Instruction} :
    parse bytes = .ok program ↔
      decodeAll bytes 0 = { instructions := program, error := none } := by
  unfold parse
  split
  · next instructions heq => simp [heq]
  · next instructions e heq => simp [heq]

/-- Parsing accepts exactly the encodings of sequences that are laid out from the
start on. -/
theorem parse_eq_ok_iff {bytes : List UInt8} {program : Array Instruction} :
    parse bytes = .ok program ↔ IsLaidOut 0 program.toList ∧ encode program.toList = bytes := by
  rw [parse_eq_ok_iff_decodeAll, decodeAll, List.drop_zero, decodeOnto_eq_iff]
  constructor
  · rintro ⟨added, rfl, hlaid, hbytes⟩
    simpa using ⟨hlaid, hbytes⟩
  · rintro ⟨hlaid, hbytes⟩
    exact ⟨program.toList, by simp, hlaid, hbytes⟩

/-! ## Offsets -/

/-- An instruction occupies as many bytes as its size says. -/
@[simp] theorem Instruction.length_encode (ins : Instruction) : ins.encode.length = ins.size := by
  obtain ⟨opcode, operands, pc⟩ := ins
  cases opcode <;>
    simp [Instruction.encode, countByte, Instruction.size, Opcode.inlineForm, Nat.add_comm,
      Nat.add_left_comm]

@[simp] theorem encode_nil : encode [] = [] := rfl

@[simp] theorem encode_cons (ins : Instruction) (rest : List Instruction) :
    encode (ins :: rest) = ins.encode ++ encode rest := rfl

namespace IsLaidOut

variable {pc : Nat} {program : List Instruction}

/-- Every instruction has operands that its opcode admits. -/
theorem admits (h : IsLaidOut pc program) {ins : Instruction} (hins : ins ∈ program) :
    ins.opcode.admits ins.operands.length := by
  induction program generalizing pc with
  | nil => cases hins
  | cons first rest ih =>
      rcases List.mem_cons.1 hins with rfl | hrest
      · exact h.2.1
      · exact ih h.2.2 hrest

/-- The offset of an instruction is the number of bytes before it. -/
theorem pc_eq (h : IsLaidOut pc program) {i : Nat} {ins : Instruction}
    (hins : program[i]? = some ins) : ins.pc = pc + (encode (program.take i)).length := by
  induction program generalizing pc i with
  | nil => simp at hins
  | cons first rest ih =>
      cases i with
      | zero =>
          obtain rfl : first = ins := by simpa using hins
          simpa using h.1
      | succ i =>
          have hpc := ih h.2.2 (by simpa using hins)
          simp only [hpc, Instruction.endOffset, h.1, List.take_succ_cons, encode_cons,
            List.length_append, Instruction.length_encode]
          omega

/-- The end of an instruction is the number of bytes up to it. -/
theorem endOffset_eq (h : IsLaidOut pc program) {i : Nat} {ins : Instruction}
    (hins : program[i]? = some ins) :
    ins.endOffset = pc + (encode (program.take (i + 1))).length := by
  simp [Instruction.endOffset, h.pc_eq hins, List.take_add_one, hins, encode, Nat.add_assoc]

/-- Every instruction starts where the one before it ends. -/
theorem pc_succ (h : IsLaidOut pc program) {i : Nat} {ins next : Instruction}
    (hins : program[i]? = some ins) (hnext : program[i + 1]? = some next) :
    next.pc = ins.endOffset := by
  rw [h.pc_eq hnext, h.endOffset_eq hins]

/-- A program that starts at zero ends at the number of its bytes. -/
theorem siteEnd_eq {program : Array Instruction} (h : IsLaidOut 0 program.toList) :
    Site.endOffset program = (encode program.toList).length := by
  unfold Site.endOffset
  split
  · next last hlast =>
      rw [Array.back?_eq_getElem?] at hlast
      have hpos : program.size ≠ 0 := by
        intro hzero
        simp [hzero] at hlast
      have htake : program.size - 1 + 1 = program.toList.length := by
        rw [Array.length_toList]
        omega
      rw [h.endOffset_eq (by simpa using hlast), htake, List.take_length, Nat.zero_add]
  · next hnone =>
      obtain rfl : program = #[] := by simpa using hnone
      rfl

end IsLaidOut

/-- The instructions of a parsed program have operands that their opcodes admit. -/
theorem Instruction.admits_of_parse {bytes : List UInt8} {program : Array Instruction}
    (h : parse bytes = .ok program) {ins : Instruction} (hins : ins ∈ program) :
    ins.opcode.admits ins.operands.length :=
  (parse_eq_ok_iff.1 h).1.admits (Array.mem_toList_iff.2 hins)

/-- What a decoder finds has operands that its opcode admits. -/
theorem Instruction.admits_of_next {d : Decoder} {ins : Instruction}
    (h : d.next.1 = some (.ok ins)) : ins.opcode.admits ins.operands.length := by
  rw [Decoder.next] at h
  split at h
  · cases h
  · cases h
  · next found rest hsplit =>
      obtain rfl : found = ins := by simpa using h
      exact (split?_eq_ok_iff.1 hsplit).2.1

/-- Opcodes with operands that they admit can be laid out from every offset on. -/
theorem isLaidOut_layOut {items : List (Opcode × List UInt8)}
    (h : ∀ item ∈ items, item.1.admits item.2.length) (pc : Nat) :
    IsLaidOut pc (layOut pc items) := by
  induction items generalizing pc with
  | nil => trivial
  | cons item rest ih =>
      exact ⟨rfl, h item List.mem_cons_self,
        ih (fun item hitem => h item (List.mem_cons_of_mem _ hitem)) _⟩

/-! ## The correspondence of bytes and programs -/

/-- Parsing and encoding are inverse to each other. What parsing accepts is laid out
without gaps from the first byte to the last and encodes to the bytes that were parsed,
and the encoding of any opcodes with operands that they admit parses to them. -/
theorem parse_encode_correspondence :
    (∀ (bytes : List UInt8) (program : Array Instruction), parse bytes = .ok program →
      (∀ ins ∈ program, ins.opcode.admits ins.operands.length) ∧
      (∀ ins, program[0]? = some ins → ins.pc = 0) ∧
      (∀ i ins next, program[i]? = some ins → program[i + 1]? = some next →
        next.pc = ins.pc + ins.size) ∧
      Site.endOffset program = bytes.length ∧
      encode program.toList = bytes) ∧
    ∀ items : List (Opcode × List UInt8), (∀ item ∈ items, item.1.admits item.2.length) →
      parse (encode (layOut 0 items)) = .ok (layOut 0 items).toArray := by
  constructor
  · intro bytes program hparse
    obtain ⟨hlaid, hbytes⟩ := parse_eq_ok_iff.1 hparse
    refine ⟨?_, ?_, ?_, ?_, hbytes⟩
    · intro ins hins
      exact hlaid.admits (Array.mem_toList_iff.2 hins)
    · intro ins hfirst
      simpa using hlaid.pc_eq (i := 0) (by simpa using hfirst)
    · intro i ins next hins hnext
      exact hlaid.pc_succ (by simpa using hins) (by simpa using hnext)
    · rw [hlaid.siteEnd_eq, hbytes]
  · intro items hadmits
    exact parse_eq_ok_iff.2 ⟨isLaidOut_layOut hadmits 0, rfl⟩

/-- A counted word before an instruction without operands is parsed to both of them, the
second one after the count and the word. -/
theorem parse_encode_counted_word :
    parse [0x41, 1, 0xFF, 0xFE, 0x20] =
      .ok #[⟨.npushw, [0xFF, 0xFE], 0⟩, ⟨.dup, [], 4⟩] ∧
    Site.endOffset #[⟨.npushw, [0xFF, 0xFE], 0⟩, ⟨.dup, [], 4⟩] = 5 := by
  have hparse : parse [0x41, 1, 0xFF, 0xFE, 0x20] =
      .ok #[⟨.npushw, [0xFF, 0xFE], 0⟩, ⟨.dup, [], 4⟩] :=
    parse_encode_correspondence.2 [(.npushw, [0xFF, 0xFE]), (.dup, [])] (by decide)
  obtain ⟨-, -, -, hend, -⟩ := parse_encode_correspondence.1 _ _ hparse
  exact ⟨hparse, hend⟩

end GridFit
