import GridFit.Proofs.Program.RoundTrip
import GridFit.Proofs.Text.Reading
import Mathlib.Data.List.Nodup

/-!
# Mnemonics

A mnemonic is one word, and no two opcodes have the same one.

## Implementation notes

That mnemonics are distinct is checked on the numbers that their bytes spell. These are
compared within a residue class only, as comparing each with each takes too long.
-/

namespace GridFit

namespace Opcode

theorem mem_all (op : Opcode) : op ∈ all :=
  List.mem_filterMap.2 ⟨op.toByte.toNat, List.mem_range.2 op.toByte.toNat_lt, by
    rw [UInt8.ofNat_toNat, ofByte?_toByte]⟩

theorem isWord_digit (a : Bool) : IsWord (digit a) := by
  cases a <;> decide +kernel

theorem isWord_digits (width n : Nat) : IsWord (digits width n) := by
  induction width generalizing n with
  | zero => exact (by decide +kernel : IsWord "")
  | succ width ih => exact isWord_append.2 ⟨ih _, isWord_digit _⟩

/-- A mnemonic is a word. -/
theorem isWord_name (op : Opcode) : IsWord op.name := by
  cases op <;>
    simp only [name, isWord_append, isWord_digit, isWord_digits, and_true] <;> decide +kernel

/-- The number that the bytes of a mnemonic spell. -/
def spelling (op : Opcode) : Nat :=
  Scalar.unsigned op.name.toByteArray.data.toList

theorem nodup_spelling : ∀ k : Fin 17,
    ((all.filter fun op => op.spelling % 17 == k.val).map spelling).Nodup := by
  decide +kernel

/-- No two opcodes have the same mnemonic. -/
theorem name_injective : Function.Injective name := by
  intro op other hname
  have hspelling : op.spelling = other.spelling := by rw [spelling, spelling, hname]
  let k : Fin 17 := ⟨op.spelling % 17, Nat.mod_lt _ (by decide)⟩
  have hmem : op ∈ all.filter fun op => op.spelling % 17 == k.val :=
    List.mem_filter.2 ⟨op.mem_all, beq_self_eq_true _⟩
  have hother : other ∈ all.filter fun op => op.spelling % 17 == k.val :=
    List.mem_filter.2 ⟨other.mem_all, by rw [← hspelling]; exact beq_self_eq_true _⟩
  exact List.inj_on_of_nodup_map (nodup_spelling k) hmem hother hspelling

end Opcode

end GridFit
