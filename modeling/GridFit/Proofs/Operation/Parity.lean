import GridFit.Proofs.Operation.Room
import GridFit.Proofs.Rounding.FixedGrid
import Mathlib.Algebra.Ring.Int.Parity

/-!
# Parity

Whether an operand is odd or even is asked of the pixels that are left after rounding, and answered
by a mask of the last bits. The mask leaves one of two values if the operand has been rounded to
whole pixels, so one question has the answer that the other one has not. This is so for
every operand, also where rounding wraps and is cut off at zero.
-/

namespace GridFit

variable {r g : RoundState} {n m v : Value}

namespace Value

/-- The last seven bits of a word are what is left over when it is divided by two pixels. -/
theorem toInt_and_127 (v : Value) : (v &&& 127).toInt = v.toInt % 128 := by
  have hlow : (v &&& 127).toBitVec.toNat = v.toBitVec.toNat % 128 := by
    rw [Int32.toBitVec_and, BitVec.toNat_and]
    exact Nat.and_two_pow_sub_one_eq_mod _ 7
  have hword := v.toBitVec.isLt
  rw [← Int32.toInt_toBitVec, ← Int32.toInt_toBitVec, BitVec.toInt_eq_toNat_cond,
    BitVec.toInt_eq_toNat_cond, hlow]
  split <;> split <;> omega

theorem and_127_beq (v t : Value) : (v &&& 127 == t) = decide (v.toInt % 128 = t.toInt) := by
  rw [Bool.eq_iff_iff, beq_iff_eq, decide_eq_true_iff, ← toInt_and_127, Int32.toInt_inj]

/-- A word and its negative leave the same over when they are divided by two pixels, if they are
whole pixels. -/
theorem toInt_neg_emod (hdvd : 64 ∣ v.toInt) : (-v).toInt % 128 = v.toInt % 128 := by
  rw [Int32.toInt_neg, Int.bmod]
  split <;> omega

end Value

namespace RoundState

/-- The modes that round to whole pixels. -/
def RoundsToPixels (r : RoundState) : Prop :=
  r.mode = .grid ∨ r.mode = .downToGrid ∨ r.mode = .upToGrid

/-- Whatever a sum wraps to, it is rounded to whole pixels. -/
theorem RoundsToPixels.dvd_round (h : r.RoundsToPixels) (n : Value) :
    64 ∣ (r.round n).toInt := by
  have hcut (x : Value) : 64 ∣ (max (Fixed.floor x) 0).toInt := by
    rw [Value.toInt_max_zero, Fixed.toInt_floor]
    omega
  have hmagnitude (x : Value) : 64 ∣ (r.roundMagnitude x).toInt := by
    unfold roundMagnitude
    rcases h with h | h | h
    · rw [h]
      exact hcut _
    · rw [h]
      exact hcut _
    · rw [h]
      exact hcut _
  unfold round
  split
  · exact hmagnitude n
  · have hdvd := hmagnitude (-n)
    rw [Int32.toInt_neg, Int.bmod]
    split <;> omega

/-- In every mode both sides of zero are rounded alike, but for the word that has no negative. -/
theorem round_neg (hzero : n ≠ 0) (hmin : n ≠ Int32.minValue) : r.round (-n) = -r.round n := by
  have hlow := n.le_toInt
  have hhigh := n.toInt_lt
  have hzero' : n.toInt ≠ 0 := fun heq => hzero (Int32.toInt_inj.1 heq)
  have hmin' : n.toInt ≠ -2 ^ 31 := fun heq => hmin (Int32.toInt_inj.1 heq)
  obtain ⟨v, hv, hv'⟩ := Value.exists_ofInt? (z := -n.toInt) (by omega) (by omega)
  have hside : 0 ≤ -n ↔ ¬0 ≤ n := by
    rw [Int32.le_iff_toInt_le, Int32.le_iff_toInt_le, Value.neg_of_ofInt? hv, hv',
      Int32.toInt_zero]
    omega
  unfold round
  by_cases hnonneg : 0 ≤ n
  · rw [if_neg (fun h => hside.1 h hnonneg), if_pos hnonneg, Int32.neg_neg]
  · rw [if_pos (hside.2 hnonneg), if_neg hnonneg, Int32.neg_neg]

/-- One pixel more leads to the next pixel. -/
theorem RoundsToPixels.natAbs_round_of_natAbs_eq (h : r.RoundsToPixels)
    (hroom : n.toInt.natAbs ≤ 2 ^ 31 - 192) (hm : m.toInt.natAbs = n.toInt.natAbs + 64) :
    (r.round m).toInt.natAbs = (r.round n).toInt.natAbs + 64 := by
  obtain ⟨g, hg, hphase, hperiod⟩ :
      ∃ g, r.mode.grid? = some g ∧ g.phase.toInt = 0 ∧ g.period.toInt = 64 := by
    rcases h with h | h | h <;> rw [h] <;> exact ⟨_, rfl, rfl, rfl⟩
  have hfixed := isFixed_of_grid? hg
  have hline (v : Value) (hv : v.toInt.natAbs ≤ 2 ^ 31 - 64) :
      ((r.round v).toInt.natAbs : Int) = 64 * ((v.toInt.natAbs + g.threshold.toInt) / 64) := by
    rw [toInt_round hg (hfixed.hasRoom hv), natAbs_gridLine hfixed.toIsGrid,
      hfixed.lineOfMagnitude_natAbs, hphase, hperiod, Int.zero_add, Int.sub_zero]
  have hn := hline n (by omega)
  have hm' := hline m (by omega)
  omega

end RoundState

/-- The questions of parity are answered by what is left over of two pixels. -/
theorem UnaryOp.parity_apply (r : RoundState) (n : Value) :
    odd.apply r n = Value.ofBool (decide ((r.round n).toInt % 128 = 64)) ∧
      even.apply r n = Value.ofBool (decide ((r.round n).toInt % 128 = 0)) := by
  rw [apply, apply, Value.and_127_beq, Value.and_127_beq]
  exact ⟨rfl, rfl⟩

/-- An operand is odd if it is rounded to an odd number of pixels. -/
theorem UnaryOp.odd_apply_eq_one_iff (r : RoundState) (n : Value) :
    odd.apply r n = 1 ↔ ∃ pixels, Odd pixels ∧ (r.round n).toInt = 64 * pixels := by
  have hone (b : Bool) : Value.ofBool b = 1 ↔ b = true := by cases b <;> decide
  rw [(parity_apply r n).1, hone, decide_eq_true_iff]
  constructor
  · intro hrest
    exact ⟨(r.round n).toInt / 64, Int.odd_iff.2 (by omega), by omega⟩
  · rintro ⟨pixels, hpixels, heq⟩
    have hrest := Int.odd_iff.1 hpixels
    omega

namespace RoundState.RoundsToPixels

/-- Both questions are answered, and differently. -/
theorem one_or_other (h : r.RoundsToPixels) (n : Value) :
    UnaryOp.odd.apply r n = 1 ∧ UnaryOp.even.apply r n = 0 ∨
      UnaryOp.odd.apply r n = 0 ∧ UnaryOp.even.apply r n = 1 := by
  obtain ⟨hodd, heven⟩ := UnaryOp.parity_apply r n
  have hdvd := h.dvd_round n
  rw [hodd, heven]
  by_cases hrest : (r.round n).toInt % 128 = 64
  · apply Or.inl
    rw [decide_eq_true hrest, decide_eq_false (by omega)]
    exact ⟨rfl, rfl⟩
  · apply Or.inr
    rw [decide_eq_false hrest, decide_eq_true (by omega)]
    exact ⟨rfl, rfl⟩

theorem parity_neg (h : r.RoundsToPixels) (hmin : n ≠ Int32.minValue) :
    UnaryOp.odd.apply r (-n) = UnaryOp.odd.apply r n ∧
      UnaryOp.even.apply r (-n) = UnaryOp.even.apply r n := by
  have hsame : (r.round (-n)).toInt % 128 = (r.round n).toInt % 128 := by
    by_cases hzero : n = 0
    · rw [hzero, Int32.neg_zero]
    · rw [round_neg hzero hmin, Value.toInt_neg_emod (h.dvd_round n)]
  obtain ⟨hodd, heven⟩ := UnaryOp.parity_apply r n
  obtain ⟨hodd', heven'⟩ := UnaryOp.parity_apply r (-n)
  rw [hodd', heven', hodd, heven, hsame]
  exact ⟨rfl, rfl⟩

/-- A pixel more exchanges the answers. -/
theorem parity_of_natAbs_eq (h : r.RoundsToPixels) (hroom : n.toInt.natAbs ≤ 2 ^ 31 - 192)
    (hm : m.toInt.natAbs = n.toInt.natAbs + 64) :
    UnaryOp.odd.apply r m = UnaryOp.even.apply r n ∧
      UnaryOp.even.apply r m = UnaryOp.odd.apply r n := by
  have hnext := h.natAbs_round_of_natAbs_eq hroom hm
  have hdvd := h.dvd_round n
  have hdvd' := h.dvd_round m
  have hodd : (r.round m).toInt % 128 = 64 ↔ (r.round n).toInt % 128 = 0 := by omega
  have heven : (r.round m).toInt % 128 = 0 ↔ (r.round n).toInt % 128 = 64 := by omega
  obtain ⟨hodd', heven'⟩ := UnaryOp.parity_apply r m
  rw [hodd', heven', (UnaryOp.parity_apply r n).1, (UnaryOp.parity_apply r n).2]
  simp only [hodd, heven, true_and]

end RoundState.RoundsToPixels

/-- A mode that rounds to whole pixels makes every operand odd or even and not both, and odd if it
is rounded to an odd number of pixels. An operand and its negative are alike, but for the word that
has no negative. A pixel more makes an odd operand even and an even one odd, as long as it is not
among the greatest ones. -/
theorem parity_of_whole_pixels (hmode : r.RoundsToPixels) (n : Value) :
    (∀ (site : Site) (ins : Instruction) (w : Workspace) (rest : List Value),
      w.graphics.round = r → w.stack.values = n :: rest → w.stack.hasRoom 0 = true →
        (ins.opcode = .odd →
          ins.execute site w = .ok () (w.replaced 1 (UnaryOp.odd.apply r n))) ∧
        (ins.opcode = .even →
          ins.execute site w = .ok () (w.replaced 1 (UnaryOp.even.apply r n)))) ∧
    (UnaryOp.odd.apply r n = 1 ∧ UnaryOp.even.apply r n = 0 ∨
      UnaryOp.odd.apply r n = 0 ∧ UnaryOp.even.apply r n = 1) ∧
    (UnaryOp.odd.apply r n = 1 ↔ ∃ pixels, Odd pixels ∧ (r.round n).toInt = 64 * pixels) ∧
    (n ≠ Int32.minValue → UnaryOp.odd.apply r (-n) = UnaryOp.odd.apply r n ∧
      UnaryOp.even.apply r (-n) = UnaryOp.even.apply r n) ∧
    (n.toInt.natAbs ≤ 2 ^ 31 - 192 → ∀ m : Value, m.toInt.natAbs = n.toInt.natAbs + 64 →
      UnaryOp.odd.apply r m = UnaryOp.even.apply r n ∧
        UnaryOp.even.apply r m = UnaryOp.odd.apply r n) := by
  refine ⟨fun site ins w rest hround hvalues hroom => ⟨fun hop => ?_, fun hop => ?_⟩,
    hmode.one_or_other n, UnaryOp.odd_apply_eq_one_iff r n,
    hmode.parity_neg, fun hroom m => hmode.parity_of_natAbs_eq hroom⟩
  · have hunary : ins.opcode.operation = .unary .odd := by rw [hop]; rfl
    rw [← hround]
    exact Instruction.execute_unary hunary hvalues hroom site
  · have hunary : ins.opcode.operation = .unary .even := by rw [hop]; rfl
    rw [← hround]
    exact Instruction.execute_unary hunary hvalues hroom site

/-- A workspace that rounds to the nearest pixel, with one operand on a full stack. -/
def askingParity (n : Value) : Workspace :=
  { stack := { values := [n], limit := some 1 }, storage := .zeros 0, cvt := .zeros 0 }

/-- The site of a question that stands alone. -/
def paritySite : Site :=
  { font := ({} : Options).toFontInstance, sequence := #[⟨.odd, [], 0⟩], index := 0 }

/-- Almost a pixel below zero is odd, like almost a pixel above it, and almost two pixels below zero
are even. -/
theorem parity_of_whole_pixels_belowZero :
    (⟨.odd, [], 0⟩ : Instruction).execute paritySite (askingParity (-57)) =
        .ok () ((askingParity (-57)).replaced 1 1) ∧
      UnaryOp.odd.apply {} (-57) = UnaryOp.odd.apply {} 57 ∧
        UnaryOp.odd.apply {} (-121) = UnaryOp.even.apply {} (-57) := by
  obtain ⟨hexecute, -, -, hneg, hnext⟩ :=
    parity_of_whole_pixels (r := {}) (.inl rfl) (-57)
  have hodd : UnaryOp.odd.apply {} (-57) = 1 := by decide
  refine ⟨?_, (hneg (by decide)).1.symm, (hnext (by decide) (-121) (by decide)).1⟩
  rw [(hexecute paritySite _ (askingParity (-57)) [] rfl rfl rfl).1 rfl, hodd]

end GridFit
