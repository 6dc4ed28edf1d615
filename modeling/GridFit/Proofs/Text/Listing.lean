import GridFit.Program.Listing
import GridFit.Proofs.Program.Failure
import GridFit.Proofs.Text.Mnemonic
import Mathlib.Data.List.Basic

/-!
# Reading listings back

The text of an instruction is its mnemonic and its operand values with a space between any
two of them, and no space inside of them. So it can be split into these words again, and each
word stands for one opcode or one value. In the same way a listing can be split into lines.

## Implementation notes

Offsets are not read back. The first instruction of a program starts where the program does,
and where it ends tells the offset of the next one.
-/

namespace GridFit

/-! ## Words -/

/-- An opcode that pushes words admits whole words only. -/
theorem Opcode.admits_even {op : Opcode} {n : Nat} (h : op.admits n)
    (hwords : op.pushesWords = true) : n % 2 = 0 := by
  cases op <;> simp_all [admits, pushesWords]

namespace Instruction

variable {ins other : Instruction}

/-- The words of the text of an instruction. -/
def words (ins : Instruction) : List String :=
  ins.opcode.name :: ins.operandValues.map fun v => toString v.toInt

theorem text_eq_intercalate (ins : Instruction) : ins.text = " ".intercalate ins.words := by
  have hfold (values : List Value) (s : String) :
      values.foldl (fun s v => s ++ " " ++ toString v.toInt) s =
        " ".intercalate (s :: values.map fun v => toString v.toInt) := by
    induction values generalizing s with
    | nil => simp
    | cons v values ih =>
        rw [List.foldl_cons, ih, String.intercalate_cons_append, List.map_cons,
          String.intercalate_cons_cons]
  exact hfold _ _

theorem isWord_of_mem_words {w : String} (hw : w ∈ ins.words) : IsWord w := by
  rcases List.mem_cons.1 hw with rfl | hw
  · exact ins.opcode.isWord_name
  · obtain ⟨v, -, rfl⟩ := List.mem_map.1 hw
    exact isWord_toString_int v.toInt

/-- A text is split into its words at the spaces. -/
theorem splitOn_text (ins : Instruction) :
    ins.text.toList.splitOn ' ' = ins.words.map String.toList := by
  rw [text_eq_intercalate, String.toList_intercalate]
  refine List.splitOn_intercalate ' ' (fun letters hletters => ?_) (List.cons_ne_nil _ _)
  obtain ⟨w, hw, rfl⟩ := List.mem_map.1 hletters
  exact (isWord_of_mem_words hw).space_notMem

theorem words_eq_of_text_eq (h : ins.text = other.text) : ins.words = other.words := by
  have hsplit := congrArg (fun s => s.toList.splitOn ' ') h
  simp only [splitOn_text] at hsplit
  exact List.map_injective_iff.2 (fun _ _ => String.toList_inj.1) hsplit

/-! ## Operands -/

theorem byteValue_injective : Function.Injective byteValue := by
  intro b c h
  have hint := congrArg Int32.toInt h
  have hb := b.toNat_lt
  have hc := c.toNat_lt
  rw [byteValue, byteValue, Int32.toInt_ofNat_of_lt (by omega),
    Int32.toInt_ofNat_of_lt (by omega)] at hint
  exact UInt8.toNat_inj.1 (Int.ofNat_inj.1 hint)

/-- The two bytes of a word stand in the low half of its value. -/
theorem toNat_wordValue (high low : UInt8) :
    (wordValue high low).toInt16.toUInt16.toNat = high.toNat * 256 + low.toNat := by
  have hhigh := high.toNat_lt
  have hlt : high.toNat <<< 8 < 2 ^ 16 := by
    rw [Nat.shiftLeft_eq]
    omega
  have hshift : (high.toUInt16 <<< 8).toNat = high.toNat <<< 8 := by
    rw [UInt16.toNat_shiftLeft, UInt8.toNat_toUInt16]
    exact Nat.mod_eq_of_lt hlt
  rw [wordValue, Int16.toInt16_toInt32, UInt16.toUInt16_toInt16, UInt16.toNat_or, hshift,
    UInt8.toNat_toUInt16, ← Nat.shiftLeft_add_eq_or_of_lt low.toNat_lt, Nat.shiftLeft_eq]

theorem wordValue_inj {high low high' low' : UInt8}
    (h : wordValue high low = wordValue high' low') : high = high' ∧ low = low' := by
  have hnat := congrArg (fun v : Value => v.toInt16.toUInt16.toNat) h
  simp only [toNat_wordValue] at hnat
  have hlow := low.toNat_lt
  have hlow' := low'.toNat_lt
  exact ⟨UInt8.toNat_inj.1 (by omega), UInt8.toNat_inj.1 (by omega)⟩

/-- Whole words are found again by their values. Half a word at the end has no value. -/
theorem wordValues_inj {operands operands' : List UInt8} (heven : operands.length % 2 = 0)
    (heven' : operands'.length % 2 = 0) (h : wordValues operands = wordValues operands') :
    operands = operands' := by
  fun_induction wordValues operands generalizing operands' with
  | case1 high low rest ih =>
      match operands' with
      | [] => cases h
      | [_] => cases h
      | high' :: low' :: rest' =>
          obtain ⟨hword, hrest⟩ := List.cons.inj h
          obtain ⟨rfl, rfl⟩ := wordValue_inj hword
          rw [List.length_cons, List.length_cons] at heven heven'
          rw [ih (by omega) (by omega) hrest]
  | case2 operands hshort =>
      match operands, operands' with
      | [], [] => rfl
      | [], [_] => cases heven'
      | [], _ :: _ :: _ => cases h
      | [_], _ => cases heven
      | high :: low :: rest, _ => exact absurd rfl (hshort high low rest)

/-- With the operands that its opcode admits, an instruction is determined by its text, up to
its offset. -/
theorem eq_of_text_eq (hadmits : ins.opcode.admits ins.operands.length)
    (hadmits' : other.opcode.admits other.operands.length) (h : ins.text = other.text) :
    ins.opcode = other.opcode ∧ ins.operands = other.operands := by
  obtain ⟨hname, hdecimal⟩ := List.cons.inj (words_eq_of_text_eq h)
  have hopcode : ins.opcode = other.opcode := Opcode.name_injective hname
  have htoString : Function.Injective fun v : Value => toString v.toInt := fun v v' hv =>
    Int32.toInt_inj.1 (toString_int_injective hv)
  have hvalues : ins.operandValues = other.operandValues :=
    List.map_injective_iff.2 htoString hdecimal
  refine ⟨hopcode, ?_⟩
  rw [operandValues, operandValues, ← hopcode] at hvalues
  split at hvalues
  · next hwords =>
      exact wordValues_inj (Opcode.admits_even hadmits hwords)
        (Opcode.admits_even hadmits' (hopcode ▸ hwords)) hvalues
  · exact List.map_injective_iff.2 byteValue_injective hvalues

end Instruction

/-! ## Lines -/

/-- What stands in front of the text of an instruction in its line. -/
def label (pc : Nat) : String :=
  padLeft 6 (toString pc) ++ ": "

/-- The line of an instruction without its end. -/
def Instruction.entry (ins : Instruction) : String :=
  label ins.pc ++ ins.text

/-- What stands behind the name in the first line of a listing. -/
def summary (program : Array Instruction) : String :=
  ": " ++ toString program.size ++ " instructions"

theorem newline_notMem_label (pc : Nat) : '\n' ∉ (label pc).toList := by
  refine newline_notMem_append (newline_notMem_append ?_ ?_) (by decide +kernel)
  · rw [String.toList_ofList, List.mem_replicate]
    exact fun h => absurd h.2 (by decide)
  · exact (isWord_toString_nat pc).newline_notMem

theorem newline_notMem_summary (program : Array Instruction) :
    '\n' ∉ (summary program).toList :=
  newline_notMem_append
    (newline_notMem_append (by decide +kernel)
      (isWord_toString_nat program.size).newline_notMem)
    (by decide +kernel)

theorem Instruction.newline_notMem_text (ins : Instruction) : '\n' ∉ ins.text.toList := by
  have hfold (values : List Value) (s : String) (hs : '\n' ∉ s.toList) :
      '\n' ∉ (values.foldl (fun s v => s ++ " " ++ toString v.toInt) s).toList := by
    induction values generalizing s with
    | nil => exact hs
    | cons v values ih =>
        exact ih _ (newline_notMem_append (newline_notMem_append hs (by decide +kernel))
          (isWord_toString_int v.toInt).newline_notMem)
  exact hfold _ _ ins.opcode.isWord_name.newline_notMem

theorem Instruction.newline_notMem_entry (ins : Instruction) : '\n' ∉ ins.entry.toList :=
  newline_notMem_append (newline_notMem_label ins.pc) ins.newline_notMem_text

/-- Instructions that are laid out from the same offset on are determined by their lines. -/
theorem IsLaidOut.eq_of_entries_eq {pc : Nat} {program program' : List Instruction}
    (h : IsLaidOut pc program) (h' : IsLaidOut pc program')
    (hentries : program.map Instruction.entry = program'.map Instruction.entry) :
    program = program' := by
  induction program generalizing pc program' with
  | nil => exact (List.map_eq_nil_iff.1 hentries.symm).symm
  | cons ins rest ih =>
      cases program' with
      | nil => cases hentries
      | cons ins' rest' =>
          obtain ⟨hpc, hadmits, hrest⟩ := h
          obtain ⟨hpc', hadmits', hrest'⟩ := h'
          obtain ⟨hentry, hbehind⟩ := List.cons.inj hentries
          -- Both start at the same offset, so behind equal labels there are equal texts.
          have hsame : ins.pc = ins'.pc := hpc.trans hpc'.symm
          have htext : ins.text = ins'.text := by
            rw [Instruction.entry, Instruction.entry, hsame] at hentry
            exact (String.append_right_inj _).1 hentry
          obtain ⟨hopcode, hoperands⟩ := Instruction.eq_of_text_eq hadmits hadmits' htext
          obtain rfl : ins = ins' := by
            cases ins
            cases ins'
            simp_all
          rw [ih hrest hrest' hbehind]

/-- Behind the name of the program a listing consists of lines. -/
theorem listing_eq_unlines (name : String) (program : Array Instruction) :
    listing name program =
      name ++ unlines (summary program :: program.toList.map Instruction.entry) := by
  have hend : " instructions\n" = " instructions" ++ "\n" := rfl
  have hlines : program.toList.map Instruction.line =
      (program.toList.map Instruction.entry).map (· ++ "\n") := by
    rw [List.map_map]
    rfl
  rw [listing, summary, unlines, hend, hlines, List.map_cons, String.join_cons]
  simp only [String.append_assoc]

/-- No line of a listing has a line break in it. -/
theorem newline_notMem_lines (program : Array Instruction) :
    ∀ line ∈ summary program :: program.toList.map Instruction.entry, '\n' ∉ line.toList := by
  refine List.forall_mem_cons.2 ⟨newline_notMem_summary program, fun line hline => ?_⟩
  obtain ⟨ins, -, rfl⟩ := List.mem_map.1 hline
  exact ins.newline_notMem_entry

/-- Programs with the same listing have the same instructions. -/
theorem eq_of_listing_eq {name : String} {p q : Array Instruction}
    (hp : IsLaidOut 0 p.toList) (hq : IsLaidOut 0 q.toList)
    (h : listing name p = listing name q) : p = q := by
  rw [listing_eq_unlines, listing_eq_unlines, String.append_right_inj] at h
  have hlines := unlines_inj (newline_notMem_lines p) (newline_notMem_lines q) h
  exact Array.toList_inj.1 (hp.eq_of_entries_eq hq (List.cons.inj hlines).2)

/-- Listings lose nothing. Programs whose listings under some name are the same text are made
up of the same bytes, and instructions with the same text have the same opcode and the same
operand bytes, wherever they were decoded. -/
theorem listing_loses_nothing :
    (∀ (name : String) (a b : List UInt8) (p q : Array Instruction), parse a = .ok p →
      parse b = .ok q → listing name p = listing name q → a = b) ∧
    ∀ (d e : Decoder) (ins other : Instruction), d.next.1 = some (.ok ins) →
      e.next.1 = some (.ok other) → ins.text = other.text →
      ins.opcode = other.opcode ∧ ins.operands = other.operands := by
  refine ⟨fun name a b p q ha hb hlisting => ?_, fun d e ins other hins hother htext => ?_⟩
  · obtain ⟨hp, rfl⟩ := parse_eq_ok_iff.1 ha
    obtain ⟨hq, rfl⟩ := parse_eq_ok_iff.1 hb
    rw [eq_of_listing_eq hp hq hlisting]
  · exact Instruction.eq_of_text_eq (Instruction.admits_of_next hins)
      (Instruction.admits_of_next hother) htext

/-- The listing of a counted push stands for these three bytes only, in particular not for a
push of the same byte without a count. The same text is found behind another instruction. -/
theorem listing_loses_nothing_counted_push :
    listing "prep" #[⟨.npushb, [7], 0⟩] = "prep: 1 instructions\n     0: NPUSHB 7\n" ∧
    [0x40, 1, 7] = encode (layOut 0 [(.npushb, [7])]) ∧
    (∀ b q, parse b = .ok q →
      listing "prep" q = "prep: 1 instructions\n     0: NPUSHB 7\n" → b = [0x40, 1, 7]) ∧
    ({ bytes := [0x20, 0x40, 1, 7], pc := 1 } : Decoder).next.1 =
      some (.ok ⟨.npushb, [7], 1⟩) ∧
    (⟨.npushb, [7], 0⟩ : Instruction).operands = (⟨.npushb, [7], 1⟩ : Instruction).operands := by
  have hparse : parse [0x40, 1, 7] = .ok #[⟨.npushb, [7], 0⟩] :=
    parse_eq_ok_iff.2 ⟨by decide, rfl⟩
  have hencoded : parse (encode (layOut 0 [(.npushb, [7])])) = .ok #[⟨.npushb, [7], 0⟩] :=
    parse_eq_ok_iff.2 ⟨by decide, rfl⟩
  have hlisting : listing "prep" #[⟨.npushb, [7], 0⟩] =
      "prep: 1 instructions\n     0: NPUSHB 7\n" := by
    decide +kernel
  exact ⟨hlisting, listing_loses_nothing.1 "prep" _ _ _ _ hparse hencoded rfl,
    fun b q hb hq => listing_loses_nothing.1 "prep" b _ q _ hb hparse (hq.trans hlisting.symm),
    rfl, (listing_loses_nothing.2 { bytes := [0x40, 1, 7], pc := 0 }
      { bytes := [0x20, 0x40, 1, 7], pc := 1 } _ _ rfl rfl rfl).2⟩

end GridFit
