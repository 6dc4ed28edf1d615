import GridFit.Proofs.Site

/-!
# Seams of programs

A program can be split between any two instructions. The first part ends at the offset at
which the second part begins, and this offset tells their instructions apart. So a jump
inside of a part finds its target in the whole program just where it finds it in the part.

## Implementation notes

The end of the first part is a place there, and in the whole program it is that of the first
instruction of the second part. A jump beyond it finds no place in the first part alone.
-/

namespace GridFit

/-- Two sequences of which the second begins where the first ends. -/
structure IsSeam (p q : Array Instruction) : Prop where
  /-- What is in the first sequence starts before its end. -/
  before : ∀ ins ∈ p, ins.pc < Site.endOffset p
  /-- What is in the second sequence does not. -/
  behind : ∀ ins ∈ q, Site.endOffset p ≤ ins.pc
  /-- The second sequence begins at the end of the first one. -/
  first : ∀ ins, q[0]? = some ins → ins.pc = Site.endOffset p
  /-- Together, they end further behind, unless the second one is empty. -/
  endOffset_lt : q ≠ #[] → Site.endOffset p < Site.endOffset (p ++ q)

theorem encode_append (program rest : List Instruction) :
    encode (program ++ rest) = encode program ++ encode rest :=
  List.flatMap_append

theorem length_encode_pos {program : List Instruction} (h : program ≠ []) :
    0 < (encode program).length := by
  cases program with
  | nil => exact absurd rfl h
  | cons first rest =>
      have hpos := first.size_pos
      rw [encode_cons, List.length_append, Instruction.length_encode]
      omega

namespace IsLaidOut

variable {pc : Nat} {program rest : List Instruction}

/-- What is laid out starts before its end. -/
theorem pc_lt (h : IsLaidOut pc program) {ins : Instruction} (hins : ins ∈ program) :
    ins.pc < pc + (encode program).length := by
  induction program generalizing pc with
  | nil => cases hins
  | cons first rest ih =>
      obtain ⟨hpc, -, hrest⟩ := h
      rw [encode_cons, List.length_append, Instruction.length_encode]
      rcases List.mem_cons.1 hins with rfl | hins
      · have hpos := ins.size_pos
        omega
      · have hlt := ih hrest hins
        unfold Instruction.endOffset at hlt
        omega

/-- The parts of what is laid out are laid out one after the other. -/
theorem of_append (h : IsLaidOut pc (program ++ rest)) :
    IsLaidOut pc program ∧ IsLaidOut (pc + (encode program).length) rest := by
  induction program generalizing pc with
  | nil => exact ⟨trivial, h⟩
  | cons first program ih =>
      obtain ⟨hpc, hadmits, hlaid⟩ := h
      obtain ⟨hprogram, hrest⟩ := ih hlaid
      refine ⟨⟨hpc, hadmits, hprogram⟩, ?_⟩
      rw [encode_cons, List.length_append, Instruction.length_encode, ← Nat.add_assoc, ← hpc]
      exact hrest

end IsLaidOut

namespace IsSeam

variable {p q : Array Instruction}

/-- Whatever a program is split into has a seam. -/
theorem of_parse {bytes : List UInt8} (h : parse bytes = .ok (p ++ q)) : IsSeam p q := by
  have hlaid := (parse_eq_ok_iff.1 h).1
  have hend := hlaid.siteEnd_eq
  rw [Array.toList_append] at hlaid hend
  obtain ⟨hp, hq⟩ := hlaid.of_append
  have hseam := hp.siteEnd_eq
  rw [Nat.zero_add, ← hseam] at hq
  rw [encode_append, List.length_append, ← hseam] at hend
  refine ⟨fun ins hins => ?_, fun ins hins => ?_, fun ins hins => ?_, fun hnonempty => ?_⟩
  · have hlt := hp.pc_lt (Array.mem_toList_iff.2 hins)
    omega
  · exact hq.le_pc (Array.mem_toList_iff.2 hins)
  · simpa using hq.pc_eq (i := 0) (by simpa using hins)
  · have hpos := length_encode_pos (mt Array.toList_eq_nil_iff.1 hnonempty)
    omega

/-- The end of the whole is that of the second part, unless that is empty. -/
theorem endOffset_append {last : Instruction} (hlast : last ∈ q) :
    Site.endOffset (p ++ q) = Site.endOffset q := by
  have hback : ∃ last, q.back? = some last := by
    rw [← Option.isSome_iff_exists, Array.back?_isSome]
    exact Array.ne_empty_of_mem hlast
  obtain ⟨last, hback⟩ := hback
  simp only [Site.endOffset, Array.back?_append, hback, Option.some_or]

variable (h : IsSeam p q) (font : FontInstance) {i n t : Nat} {ins : Instruction}

include h

/-- Nothing in the first part starts where the second one begins, or behind that. -/
theorem findIdx?_left_eq_none {offset : Nat} (hoffset : Site.endOffset p ≤ offset) :
    p.findIdx? (fun other => other.pc == offset) = none := by
  rw [Array.findIdx?_eq_none_iff]
  intro other hother
  have hlt := h.before other hother
  simp only [beq_eq_false_iff_ne]
  omega

/-- A place that an instruction finds in the first part is its place in the whole. -/
theorem target?_left (hins : p[i]? = some ins)
    (htarget : ({ font, sequence := p, index := i } : Site).target? n = some t) :
    ({ font, sequence := p ++ q, index := i } : Site).target? n = some t := by
  have hsize : i < p.size := (Array.getElem?_eq_some_iff.1 hins).1
  simp only [Site.target?, Array.getElem?_append_left hsize, hins] at htarget ⊢
  by_cases hempty : q = #[]
  · simpa only [hempty, Array.append_empty] using htarget
  · have hlt := h.endOffset_lt hempty
    by_cases hend : ins.pc + n = Site.endOffset p
    · -- In the whole, the end of the first part is the place of the first instruction behind it.
      rw [if_pos hend] at htarget
      obtain rfl := Option.some.inj htarget
      obtain ⟨first, hfirst⟩ : ∃ first, q[0]? = some first :=
        ⟨_, Array.getElem?_eq_getElem (Array.size_pos_iff.2 hempty)⟩
      have hplace : q.findIdx? (fun other => other.pc == ins.pc + n) = some 0 := by
        rw [Array.findIdx?_eq_some_iff_getElem]
        obtain ⟨hpos, hget⟩ := Array.getElem?_eq_some_iff.1 hfirst
        refine ⟨hpos, ?_, fun j hj => absurd hj (Nat.not_lt_zero j)⟩
        simp only [hget, h.first first hfirst, hend, beq_self_eq_true]
      rw [if_neg (by omega), Array.findIdx?_append,
        h.findIdx?_left_eq_none (Nat.le_of_eq hend.symm), Option.none_or, hplace, Option.map_some,
        Nat.zero_add]
    · rw [if_neg hend] at htarget
      obtain ⟨ht, hpc, -⟩ := Array.findIdx?_eq_some_iff_getElem.1 htarget
      have hbefore := h.before p[t] (Array.getElem_mem ht)
      have hpc : p[t].pc = ins.pc + n := by simpa using hpc
      rw [if_neg (by omega), Array.findIdx?_append, htarget, Option.some_or]

/-- An instruction of the second part finds the same places in the whole, behind the first
part. -/
theorem target?_right (hins : q[i]? = some ins) :
    ({ font, sequence := p ++ q, index := i + p.size } : Site).target? n =
      (({ font, sequence := q, index := i } : Site).target? n).map (· + p.size) := by
  have hmem : ins ∈ q := Array.mem_of_getElem? hins
  have hbehind := h.behind ins hmem
  have hins' : (p ++ q)[i + p.size]? = some ins := by
    rw [Array.getElem?_append_right (Nat.le_add_left _ _), Nat.add_sub_cancel, hins]
  simp only [Site.target?, hins, hins', endOffset_append hmem]
  by_cases hend : ins.pc + n = Site.endOffset q
  · rw [if_pos hend, if_pos hend, Array.size_append, Nat.add_comm]
    rfl
  · rw [if_neg hend, if_neg hend, Array.findIdx?_append,
      h.findIdx?_left_eq_none (Nat.le_add_right_of_le hbehind), Option.none_or]

end IsSeam

end GridFit
