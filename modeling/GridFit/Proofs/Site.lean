import GridFit.Proofs.Program.RoundTrip
import GridFit.Site

/-!
# Places named by offsets

A jump names the place it goes to by an offset. In a sequence whose offsets ascend, a
place that is named by a greater offset lies ahead, and no further in instructions than
in bytes. Programs ascend, since nothing precedes the bytes of an instruction but the
instructions before it.
-/

namespace GridFit

/-- The offsets of the instructions of a sequence ascend strictly. -/
def IsAscending (sequence : Array Instruction) : Prop :=
  sequence.toList.Pairwise fun ins other => ins.pc < other.pc

/-- Whether `t` is the index that `offset` names in a sequence: that of the end, if the
sequence ends there, and else that of the first instruction that starts there. -/
def IsPlaceOf (sequence : Array Instruction) (offset t : Nat) : Prop :=
  if offset = Site.endOffset sequence then t = sequence.size
  else ∃ ins, sequence[t]? = some ins ∧ ins.pc = offset ∧
    ∀ j other, j < t → sequence[j]? = some other → other.pc ≠ offset

theorem Instruction.size_pos (ins : Instruction) : 0 < ins.size := by
  unfold size
  split <;> omega

/-- The position that an instruction finds ahead of it is the place of its offset. -/
theorem Site.target?_eq_some_iff (site : Site) {ins : Instruction}
    (hins : site.sequence[site.index]? = some ins) {n t : Nat} :
    site.target? n = some t ↔ IsPlaceOf site.sequence (ins.pc + n) t := by
  unfold IsPlaceOf
  simp only [target?, hins]
  split
  · next hend => simp only [Option.some.injEq, eq_comm]
  · next hend =>
      rw [Array.findIdx?_eq_some_iff_getElem]
      constructor
      · rintro ⟨ht, hpc, hfirst⟩
        refine ⟨site.sequence[t], Array.getElem?_eq_getElem ht, by simpa using hpc, ?_⟩
        intro j other hj hother
        obtain ⟨hsize, rfl⟩ := Array.getElem?_eq_some_iff.1 hother
        simpa using hfirst j hj
      · rintro ⟨other, hother, hpc, hfirst⟩
        obtain ⟨ht, rfl⟩ := Array.getElem?_eq_some_iff.1 hother
        refine ⟨ht, by simpa using hpc, ?_⟩
        intro j hj
        simpa using hfirst j _ hj (Array.getElem?_eq_getElem (Nat.lt_trans hj ht))

/-- An offset names at most one place. -/
theorem IsPlaceOf.unique {sequence : Array Instruction} {offset t k : Nat}
    (ht : IsPlaceOf sequence offset t) (hk : IsPlaceOf sequence offset k) : k = t := by
  unfold IsPlaceOf at ht hk
  split at ht
  · next hend =>
      rw [if_pos hend] at hk
      rw [hk, ht]
  · next hend =>
      rw [if_neg hend] at hk
      obtain ⟨ins, hins, hpc, hfirst⟩ := ht
      obtain ⟨other, hother, hpc', hfirst'⟩ := hk
      rcases Nat.lt_trichotomy k t with hlt | heq | hgt
      · exact absurd hpc' (hfirst k other hlt hother)
      · exact heq
      · exact absurd hpc (hfirst' t ins hgt hins)

/-- No place lies beyond the end. -/
theorem IsPlaceOf.le_size {sequence : Array Instruction} {offset t : Nat}
    (h : IsPlaceOf sequence offset t) : t ≤ sequence.size := by
  unfold IsPlaceOf at h
  split at h
  · exact Nat.le_of_eq h
  · obtain ⟨ins, hins, -, -⟩ := h
    exact Nat.le_of_lt (Array.getElem?_eq_some_iff.1 hins).1

namespace IsLaidOut

/-- Nothing that is laid out from an offset on starts before it. -/
theorem le_pc {pc : Nat} {program : List Instruction} (h : IsLaidOut pc program)
    {ins : Instruction} (hins : ins ∈ program) : pc ≤ ins.pc := by
  induction program generalizing pc with
  | nil => cases hins
  | cons first rest ih =>
      obtain ⟨hpc, -, hrest⟩ := h
      rcases List.mem_cons.1 hins with rfl | hins
      · exact Nat.le_of_eq hpc.symm
      · have hle := ih hrest hins
        unfold Instruction.endOffset at hle
        omega

/-- What is laid out ascends. -/
theorem pairwise {pc : Nat} {program : List Instruction} (h : IsLaidOut pc program) :
    program.Pairwise fun ins other => ins.pc < other.pc := by
  induction program generalizing pc with
  | nil => exact .nil
  | cons first rest ih =>
      obtain ⟨-, -, hrest⟩ := h
      refine .cons ?_ (ih hrest)
      intro other hother
      have hle := hrest.le_pc hother
      have hpos := first.size_pos
      unfold Instruction.endOffset at hle
      omega

end IsLaidOut

namespace IsAscending

variable {sequence : Array Instruction} {i j n t : Nat} {ins other : Instruction}

theorem empty : IsAscending #[] := List.Pairwise.nil

/-- What parsing accepts ascends. -/
theorem of_parse {bytes : List UInt8} {program : Array Instruction}
    (h : parse bytes = .ok program) : IsAscending program :=
  (parse_eq_ok_iff.1 h).1.pairwise

/-- A part at the beginning of a sequence that ascends does so, too. -/
theorem of_append {rest : Array Instruction} (h : IsAscending (sequence ++ rest)) :
    IsAscending sequence := by
  unfold IsAscending at h
  rw [Array.toList_append, List.pairwise_append] at h
  exact h.1

/-- A sequence still ascends with one more instruction, if that one starts after all
others. -/
theorem push (h : IsAscending sequence) (hlast : ∀ other ∈ sequence, other.pc < ins.pc) :
    IsAscending (sequence.push ins) := by
  unfold IsAscending
  rw [Array.toList_push, List.pairwise_append]
  refine ⟨h, List.pairwise_singleton _ _, ?_⟩
  intro other hother last hins
  obtain rfl := List.mem_singleton.1 hins
  exact hlast other (Array.mem_toList_iff.1 hother)

theorem lt_of_lt (h : IsAscending sequence) (hins : sequence[i]? = some ins)
    (hother : sequence[j]? = some other) (hij : i < j) : ins.pc < other.pc := by
  obtain ⟨hi, rfl⟩ := Array.getElem?_eq_some_iff.1 hins
  obtain ⟨hj, rfl⟩ := Array.getElem?_eq_some_iff.1 hother
  exact List.pairwise_iff_getElem.1 h i j (by simpa using hi) (by simpa using hj) hij

/-- Offsets grow at least as fast as positions. -/
theorem add_le (h : IsAscending sequence) (hins : sequence[i]? = some ins)
    (hother : sequence[i + n]? = some other) : ins.pc + n ≤ other.pc := by
  induction n generalizing other with
  | zero =>
      obtain rfl := Option.some.inj (hins.symm.trans hother)
      exact Nat.le_refl _
  | succ n ih =>
      obtain ⟨hsize, -⟩ := Array.getElem?_eq_some_iff.1 hother
      have hbefore : sequence[i + n]? = some sequence[i + n] :=
        Array.getElem?_eq_getElem (Nat.lt_of_succ_lt hsize)
      have hle := ih hbefore
      have hlt := h.lt_of_lt hbefore hother (Nat.lt_succ_self _)
      omega

/-- A place that is named by a greater offset lies ahead, at most as many instructions as
there are bytes in between. -/
theorem ahead (h : IsAscending sequence) (hins : sequence[i]? = some ins) (hn : 0 < n)
    (hplace : IsPlaceOf sequence (ins.pc + n) t) : i < t ∧ t ≤ i + n := by
  obtain ⟨hi, -⟩ := Array.getElem?_eq_some_iff.1 hins
  unfold IsPlaceOf at hplace
  split at hplace
  · next hend =>
      subst hplace
      have hlast : sequence[i + (sequence.size - 1 - i)]? = some (sequence[sequence.size - 1]) := by
        rw [show i + (sequence.size - 1 - i) = sequence.size - 1 by omega]
        exact Array.getElem?_eq_getElem (by omega)
      have hback : sequence.back? = some (sequence[sequence.size - 1]) := by
        rw [Array.back?_eq_getElem?]
        exact Array.getElem?_eq_getElem (by omega)
      have hle := h.add_le hins hlast
      have hpos := sequence[sequence.size - 1].size_pos
      simp only [Site.endOffset, hback, Instruction.endOffset] at hend
      omega
  · obtain ⟨other, hother, hpc, -⟩ := hplace
    rcases Nat.lt_trichotomy i t with hlt | rfl | hlt
    · have hle : ins.pc + (t - i) ≤ other.pc :=
        h.add_le hins (by rwa [Nat.add_sub_cancel' (Nat.le_of_lt hlt)])
      omega
    · obtain rfl := Option.some.inj (hins.symm.trans hother)
      omega
    · have hback := h.lt_of_lt hother hins hlt
      omega

end IsAscending

end GridFit
