import GridFit.Proofs.Rounding.Overflow

/-!
# Configured grids

Both configured modes round a magnitude to the same grid line, though one of them masks and the
other one divides. Masking rounds down, as long as the period is a power of two. Dividing
rounds to zero, which only differs below zero, and a line below zero is replaced by the phase
anyway. The line is that of one formula, and no result on the way to it overflows.

## Implementation notes

What makes a grid is checked for all selectors at once: a selector chooses from a few periods,
phases and thresholds. The check runs through lists of these, with `List.all`. As a statement
about the members of the lists, it could also be decided by trying all words.
-/

namespace GridFit

namespace RoundState

variable {r : RoundState} {d m v : Value} {q : Int}

/-- The line of a configured grid to which a magnitude is rounded, as an integer. The line at the
phase is the first one, and the distance from it is rounded down to whole periods after the
threshold has been added. -/
def lineOfMagnitude (r : RoundState) (m : Int) : Int :=
  r.phase.toInt + r.period.toInt *
    max 0 ((m + r.threshold.toInt - r.phase.toInt).fdiv r.period.toInt)

/-- The line of a configured grid to which a distance is rounded. It lies on the side of zero on
which the distance lies. -/
def gridLine (r : RoundState) (d : Int) : Int :=
  if d < 0 then -r.lineOfMagnitude d.natAbs else r.lineOfMagnitude d.natAbs

/-- A round state whose parameters make a grid with small distances. -/
structure IsGrid (r : RoundState) : Prop where
  /-- Lines are apart. -/
  period_pos : 0 < r.period.toInt
  /-- The first line does not lie below zero. -/
  phase_nonneg : 0 ≤ r.phase.toInt
  /-- The first line lies before the end of the first period. -/
  phase_lt : r.phase.toInt < r.period.toInt
  /-- Lines are not far apart. -/
  period_le : r.period.toInt ≤ 128
  /-- The threshold adds little. -/
  threshold_le : r.threshold.toInt ≤ 256
  /-- The threshold takes away little. -/
  neg_le_threshold : -128 ≤ r.threshold.toInt
  /-- What masks has a power of two as its period. -/
  period_eq : r.mode = .super → ∃ k < 31, r.period.toInt = 2 ^ k

instance (r : RoundState) : Decidable r.IsGrid :=
  decidable_of_iff
    (0 < r.period.toInt ∧ 0 ≤ r.phase.toInt ∧ r.phase.toInt < r.period.toInt ∧
      r.period.toInt ≤ 128 ∧ r.threshold.toInt ≤ 256 ∧ -128 ≤ r.threshold.toInt ∧
      (r.mode = .super → ∃ k < 31, r.period.toInt = 2 ^ k))
    ⟨fun ⟨h₁, h₂, h₃, h₄, h₅, h₆, h₇⟩ => ⟨h₁, h₂, h₃, h₄, h₅, h₆, h₇⟩,
      fun ⟨h₁, h₂, h₃, h₄, h₅, h₆, h₇⟩ => ⟨h₁, h₂, h₃, h₄, h₅, h₆, h₇⟩⟩

/-! ## Selectors -/

/-- The thresholds that selectors choose from. -/
def thresholds (period : Value) : List Value :=
  (period - 1) :: (List.range 16).map fun n => (Int32.ofNat n - 4) * period / 8

theorem selectedPeriod_mem (gridPeriod selector : Value) :
    selectedPeriod gridPeriod selector ∈ [gridPeriod / 2, gridPeriod, gridPeriod * 2] := by
  unfold selectedPeriod
  simp only
  split
  · simp
  · split <;> simp

theorem selectedPhase_mem (period selector : Value) :
    selectedPhase period selector ∈ [0, period / 4, period / 2, period * 3 / 4] := by
  unfold selectedPhase
  simp only
  split
  · simp
  · split
    · simp
    · split <;> simp

theorem selectedThreshold_mem (period selector : Value) :
    selectedThreshold period selector ∈ thresholds period := by
  have hlow : (selector &&& 0x0F).toBitVec.toNat < 16 := by
    rw [Int32.toBitVec_and, BitVec.toNat_and]
    exact Nat.and_lt_two_pow (n := 4) _ (by decide)
  have hbits : selector &&& 0x0F = Int32.ofNat (selector &&& 0x0F).toBitVec.toNat :=
    Int32.toBitVec_inj.1 (by simp)
  unfold selectedThreshold
  simp only
  split
  · exact .head _
  · refine .tail _ (List.mem_map.2 ⟨_, List.mem_range.2 hlow, ?_⟩)
    rw [← hbits]

/-- Every selector configures a grid, for both grid periods that there are. -/
theorem isGrid_configure {mode : RoundMode} {gridPeriod : Value}
    (h : (mode, gridPeriod) ∈ [(RoundMode.super, (0x4000 : Value)), (.super45, 0x2D41)])
    (selector : Value) : (configure mode gridPeriod selector).IsGrid := by
  have hall : ([(RoundMode.super, (0x4000 : Value)), (.super45, 0x2D41)].all fun grid =>
      [grid.2 / 2, grid.2, grid.2 * 2].all fun period =>
      [0, period / 4, period / 2, period * 3 / 4].all fun phase =>
      (thresholds period).all fun threshold => decide
        ({ mode := grid.1, period := period >>> 8, phase := phase >>> 8,
           threshold := threshold >>> 8 } : RoundState).IsGrid) = true := by
    decide +kernel
  simp only [List.all_eq_true, decide_eq_true_eq] at hall
  exact hall _ h _ (selectedPeriod_mem _ _) _ (selectedPhase_mem _ _) _ (selectedThreshold_mem _ _)

/-! ## Lines -/

/-- Above zero, a quotient rounded to zero is one that is rounded down. -/
theorem max_zero_tdiv {n p : Int} (hp : 0 < p) : max 0 (n.tdiv p) = max 0 (n.fdiv p) := by
  rw [Int.fdiv_eq_ediv_of_nonneg n (Int.le_of_lt hp)]
  cases Int.le_total 0 n with
  | inl hnonneg => rw [Int.tdiv_eq_ediv_of_nonneg hnonneg]
  | inr hneg =>
      have htdiv : n.tdiv p ≤ 0 := by
        have hneg' := Int.tdiv_nonneg (Int.neg_nonneg_of_nonpos hneg) (Int.le_of_lt hp)
        rw [Int.neg_tdiv] at hneg'
        omega
      have hediv : n / p ≤ 0 := Int.ediv_nonpos_of_nonpos_of_neg hneg hp
      rw [Int.max_eq_left htdiv, Int.max_eq_left hediv]

/-- A line below the phase is replaced by the line at the phase. -/
theorem toInt_atLeastPhase (hgrid : r.IsGrid)
    (hv : v.toInt = q * r.period.toInt + r.phase.toInt) :
    (r.atLeastPhase v).toInt = r.phase.toInt + r.period.toInt * max 0 q := by
  have hperiod := hgrid.period_pos
  have hphase := hgrid.phase_nonneg
  have hbelow := hgrid.phase_lt
  unfold atLeastPhase
  split
  · next hneg =>
      have hlt : v.toInt < 0 := Int32.lt_iff_toInt_lt.1 hneg
      have hq : q ≤ 0 := by
        by_contra hpos
        have := Int.mul_pos (Int.not_le.1 hpos) hperiod
        omega
      rw [Int.max_eq_left hq, Int.mul_zero, Int.add_zero]
  · next hnonneg =>
      have hle : 0 ≤ v.toInt := Int.not_lt.1 fun hlt => hnonneg (Int32.lt_iff_toInt_lt.2 hlt)
      have hq : 0 ≤ q := by
        by_contra hneg
        have := Int.mul_le_mul_of_nonneg_right (Int.le_sub_one_of_lt (Int.not_le.1 hneg))
          (Int.le_of_lt hperiod)
        omega
      rw [hv, Int.max_eq_right hq, Int.mul_comm, Int.add_comm]

/-- No line of a grid lies below zero. -/
theorem lineOfMagnitude_nonneg (hgrid : r.IsGrid) (m : Int) : 0 ≤ r.lineOfMagnitude m :=
  Int.add_nonneg hgrid.phase_nonneg
    (Int.mul_nonneg (Int.le_of_lt hgrid.period_pos) (Int.le_max_left _ _))

/-- A magnitude with some room below the greatest word is rounded to its line. -/
theorem exists_roundMagnitude? (hgrid : r.IsGrid) (hmode : r.mode = .super ∨ r.mode = .super45)
    (hnonneg : 0 ≤ m.toInt) (hroom : m.toInt ≤ 2 ^ 31 - 257) :
    ∃ v, r.roundMagnitude? m = some v ∧
      v.toInt = r.lineOfMagnitude m.toInt := by
  obtain ⟨hperiod, hphase, hbelow, hperiod', hthreshold, hthreshold', -⟩ := id hgrid
  obtain ⟨shift, hshift, hshift'⟩ :=
    Value.exists_ofInt? (z := r.threshold.toInt - r.phase.toInt) (by omega) (by omega)
  obtain ⟨shifted, hshifted, hshifted'⟩ :=
    Value.exists_ofInt? (z := m.toInt + shift.toInt) (by omega) (by omega)
  have hnumerator : m.toInt + r.threshold.toInt - r.phase.toInt = shifted.toInt := by omega
  unfold roundMagnitude? lineOfMagnitude
  rw [hnumerator]
  cases hmode with
  | inl hsuper =>
      obtain ⟨mask, hmask, -⟩ := Value.exists_ofInt? (z := -r.period.toInt) (by omega) (by omega)
      obtain ⟨k, -, hk⟩ := hgrid.period_eq hsuper
      have hmasked : (shifted &&& mask).toInt =
          shifted.toInt.fdiv r.period.toInt * r.period.toInt := by
        rw [← Value.neg_of_ofInt? hmask, Value.toInt_and_neg hk,
          Int.fdiv_eq_ediv_of_nonneg _ (Int.le_of_lt hperiod)]
      have hle : (shifted &&& mask).toInt ≤ shifted.toInt := by
        rw [hmasked, Int.fdiv_eq_ediv_of_nonneg _ (Int.le_of_lt hperiod)]
        exact Int.ediv_mul_le _ (Int.ne_of_gt hperiod)
      obtain ⟨line, hline, hline'⟩ := Value.exists_ofInt?
        (z := (shifted &&& mask).toInt + r.phase.toInt)
        (by have := (shifted &&& mask).le_toInt; omega) (by omega)
      refine ⟨r.atLeastPhase line, ?_, toInt_atLeastPhase hgrid (hmasked ▸ hline')⟩
      simp only [hsuper, hshift, hshifted, hmask, hline, Option.bind_eq_bind, Option.bind_some,
        Option.pure_def]
  | inr hsuper45 =>
      have hne : r.period ≠ 0 := fun hzero => by
        rw [hzero] at hperiod
        exact absurd hperiod (by decide)
      obtain ⟨count, hcount, hcount'⟩ :=
        Value.exists_ofInt? (z := shifted.toInt.tdiv r.period.toInt)
          (by have := Int.natAbs_tdiv_le_natAbs shifted.toInt r.period.toInt; omega)
          (by have := Int.natAbs_tdiv_le_natAbs shifted.toInt r.period.toInt; omega)
      have hcut : (count.toInt * r.period.toInt).natAbs ≤ shifted.toInt.natAbs := by
        rw [hcount', Int.natAbs_mul, Int.natAbs_tdiv]
        exact Nat.div_mul_le_self _ _
      obtain ⟨multiple, hmultiple, hmultiple'⟩ :=
        Value.exists_ofInt? (z := count.toInt * r.period.toInt) (by omega) (by omega)
      obtain ⟨line, hline, hline'⟩ :=
        Value.exists_ofInt? (z := multiple.toInt + r.phase.toInt) (by omega) (by omega)
      refine ⟨r.atLeastPhase line, ?_, ?_⟩
      · simp only [hsuper45, if_neg hne, hshift, hshifted, hcount, hmultiple, hline,
          Option.bind_eq_bind, Option.bind_some, Option.pure_def]
      · rw [← max_zero_tdiv hperiod, ← hcount']
        exact toInt_atLeastPhase hgrid (by rw [hline', hmultiple'])

/-- A distance with some room below the greatest magnitude is rounded to its line, and no result
on the way overflows. -/
theorem exists_round? (hgrid : r.IsGrid) (hmode : r.mode = .super ∨ r.mode = .super45)
    (hroom : d.toInt.natAbs ≤ 2 ^ 31 - 257) :
    ∃ v, r.round? d = some v ∧ v.toInt = r.gridLine d.toInt := by
  unfold round? gridLine
  by_cases hnonneg : 0 ≤ d
  · have hle : 0 ≤ d.toInt := Int32.le_iff_toInt_le.1 hnonneg
    obtain ⟨v, hv, hline⟩ := exists_roundMagnitude? hgrid hmode hle (by omega)
    refine ⟨v, by rw [if_pos hnonneg]; exact hv, ?_⟩
    rw [hline, if_neg (Int.not_lt.2 hle), Int.natAbs_of_nonneg hle]
  · have hlt : d.toInt < 0 := Int.not_le.1 fun h => hnonneg (Int32.le_iff_toInt_le.2 h)
    have hneg : (-d).toInt = d.toInt.natAbs := by
      obtain ⟨m, hm, hm'⟩ := Value.exists_ofInt? (z := -d.toInt) (by omega) (by omega)
      rw [Value.neg_of_ofInt? hm, hm']
      omega
    have hon : ¬ r.mode = .off := by
      rcases hmode with hmode | hmode <;> simp [hmode]
    obtain ⟨m, hm, hline⟩ := exists_roundMagnitude? (m := -d) hgrid hmode (by omega) (by omega)
    have hline' := lineOfMagnitude_nonneg hgrid (-d).toInt
    obtain ⟨v, hv, hv'⟩ := Value.exists_ofInt? (z := -m.toInt)
      (by have := m.toInt_lt; omega) (by omega)
    refine ⟨v, ?_, ?_⟩
    · rw [if_neg hnonneg, if_neg hon, hm]
      exact hv
    · rw [hv', hline, if_pos hlt, hneg]

end RoundState

end GridFit
