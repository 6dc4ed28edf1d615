import GridFit.Proofs.Program.Composition

/-!
# Instructions on demand

A program can also be decoded one instruction at a time. A stream asks its decoder for the
next instruction whenever it is asked itself, and once it has handed out a failure it hands
out nothing more. One request is one step along the list of what eager decoding finds, so
the answers of a stream are the entries of that list, and nothing behind them.
-/

namespace GridFit

/-- The instructions of a program on demand. -/
structure InstructionStream where
  /-- What decodes the next instruction. -/
  decoder : Decoder
  /-- Whether a failure was handed out. -/
  failed : Bool := false

namespace InstructionStream

/-- The stream of the instructions from offset `pc` on. -/
def ofBytes (bytes : List UInt8) (pc : Nat) : InstructionStream :=
  { decoder := { bytes, pc } }

/-- The answer to the next request, and the stream after it. -/
def next (s : InstructionStream) :
    Option (Except DecodeError Instruction) × InstructionStream :=
  if s.failed then (none, s)
  else
    match s.decoder.next with
    | (none, d) => (none, { s with decoder := d })
    | (some (.ok ins), d) => (some (.ok ins), { s with decoder := d })
    | (some (.error e), d) => (some (.error e), { decoder := d, failed := true })

/-- The answer to the request after `n` others. -/
def answer? : InstructionStream → Nat → Option (Except DecodeError Instruction)
  | s, 0 => s.next.1
  | s, n + 1 => s.next.2.answer? n

end InstructionStream

/-- Everything that was decoded, in its order: the instructions and then the failure. -/
def Decoding.entries (d : Decoding) : List (Except DecodeError Instruction) :=
  d.instructions.toList.map .ok ++ d.error.toList.map .error

/-! ## Eager decoding, one instruction at a time -/

theorem Decoding.entries_behind_zero (ins : Instruction) (d : Decoding) :
    (d.behind #[ins] 0).entries = .ok ins :: d.entries := by
  have hins : d.instructions.map (Instruction.shift 0) = d.instructions :=
    Array.map_id d.instructions
  have herror : d.error.map (DecodeError.shift 0) = d.error := Option.map_id'
  rw [Decoding.behind, hins, herror]
  simp [entries]

/-- What stands behind an instruction that was split off begins where the instruction ends. -/
theorem Instruction.drop_endOffset {pc : Nat} {bytes rest : List UInt8} {ins : Instruction}
    (h : split? pc (bytes.drop pc) = some (.ok (ins, rest))) :
    bytes.drop ins.endOffset = rest := by
  obtain ⟨rfl, -, hbytes⟩ := split?_eq_ok_iff.1 h
  rw [endOffset, ← List.drop_drop, hbytes, ← length_encode, List.drop_left]

/-- The first entry of a decoding is what is split off the bytes, and the others are those of
the decoding that begins behind it. -/
theorem entries_decodeAll (bytes : List UInt8) (pc : Nat) :
    (decodeAll bytes pc).entries =
      match Instruction.split? pc (bytes.drop pc) with
      | none => []
      | some (.error fault) => [.error { pc, fault }]
      | some (.ok (ins, _)) => .ok ins :: (decodeAll bytes ins.endOffset).entries := by
  cases hsplit : Instruction.split? pc (bytes.drop pc) with
  | none =>
      rw [decodeAll, decodeOnto_of_none hsplit]
      rfl
  | some result =>
      cases result with
      | error fault =>
          rw [decodeAll, decodeOnto_of_error hsplit]
          rfl
      | ok split =>
          obtain ⟨ins, rest⟩ := split
          have hbehind := decodeOnto_behind #[ins] #[] ins.endOffset 0 rest
          simp only [Array.map_empty, Array.append_empty, Nat.add_zero] at hbehind
          have hfirst : (#[] : Array Instruction).push ins = #[ins] := rfl
          calc (decodeAll bytes pc).entries
              = ((decodeAll bytes ins.endOffset).behind #[ins] 0).entries := by
                rw [decodeAll, decodeOnto_of_ok hsplit, hfirst, hbehind, decodeAll,
                  Instruction.drop_endOffset hsplit]
            _ = .ok ins :: (decodeAll bytes ins.endOffset).entries :=
                Decoding.entries_behind_zero ins _

namespace InstructionStream

/-- After a failure there are no more answers. -/
theorem answer?_of_failed {s : InstructionStream} (h : s.failed = true) (n : Nat) :
    s.answer? n = none := by
  have hnext : s.next = (none, s) := if_pos h
  induction n with
  | zero => rw [answer?, hnext]
  | succ n ih => rw [answer?, hnext, ih]

/-- A stream answers with one entry of the decoding after the other, and then no more. -/
theorem answer?_ofBytes (bytes : List UInt8) (pc n : Nat) :
    (ofBytes bytes pc).answer? n = (decodeAll bytes pc).entries[n]? := by
  induction n generalizing pc with
  | zero =>
      rw [entries_decodeAll, answer?]
      simp only [next, ofBytes, Decoder.next]
      cases Instruction.split? pc (bytes.drop pc) with
      | none => rfl
      | some result => cases result <;> rfl
  | succ n ih =>
      rw [entries_decodeAll, answer?]
      simp only [next, ofBytes, Decoder.next]
      cases hsplit : Instruction.split? pc (bytes.drop pc) with
      | none =>
          -- At the end the stream stays as it is, and so it keeps answering that there is no more.
          have hentries := entries_decodeAll bytes pc
          rw [hsplit] at hentries
          exact (ih pc).trans (congrArg (·[n]?) hentries)
      | some result =>
          cases result with
          | error fault => exact answer?_of_failed rfl n
          | ok split => exact ih split.1.endOffset

end InstructionStream

end GridFit
