import GridFit.Proofs.Rounding.ConfiguredGrid
import GridFit.Proofs.Rounding.Nearest
import Mathlib.Order.Bounds.Defs

/-!
# Fixed grids

Pixels, half pixels and pixel centres are the lines of configured grids as well, and not to round
at all is to round to all units. So the fixed modes follow the formula of the configured ones, and
what holds for all grid lines holds for them: rounding keeps the order of distances, treats both
sides of zero alike, and leaves lines alone. The formula needs some room below the greatest word
for the threshold. Without it the sum wraps, and what it wraps to is cut off at zero.
-/

namespace GridFit

/-- The grid of a fixed mode, written as a configured one. -/
def RoundMode.grid? : RoundMode → Option RoundState
  | .grid => some { mode := .super, threshold := 32, phase := 0, period := 64 }
  | .halfGrid => some { mode := .super, threshold := 32, phase := 32, period := 64 }
  | .doubleGrid => some { mode := .super, threshold := 16, phase := 0, period := 32 }
  | .downToGrid => some { mode := .super, threshold := 0, phase := 0, period := 64 }
  | .upToGrid => some { mode := .super, threshold := 63, phase := 0, period := 64 }
  | .off => some { mode := .super, threshold := 0, phase := 0, period := 1 }
  | .super | .super45 => none

/-- An integer on the side of zero on which another one lies, or zero itself. Zero lies on the upper
side. -/
def IsOnSideOf (x v : Int) : Prop :=
  (0 ≤ x → 0 ≤ v) ∧ (x < 0 → v ≤ 0)

theorem RoundMode.exists_grid? {mode : RoundMode} (h : mode ≠ .super ∧ mode ≠ .super45) :
    ∃ g, mode.grid? = some g := by
  obtain ⟨hsuper, hsuper45⟩ := h
  cases mode with
  | super => exact absurd rfl hsuper
  | super45 => exact absurd rfl hsuper45
  | _ => exact ⟨_, rfl⟩

namespace Value

theorem toInt_max_zero (v : Value) : (max v 0).toInt = max v.toInt 0 := by
  change Int32.toInt (if v ≤ 0 then 0 else v) = max v.toInt 0
  have hzero : (0 : Value).toInt = 0 := rfl
  split
  · next hle =>
      rw [Int32.le_iff_toInt_le] at hle
      omega
  · next hgt =>
      rw [Int32.le_iff_toInt_le] at hgt
      omega

end Value

/-- The pixel at which a word lies begins at the next multiple of 64 below it. -/
theorem Fixed.toInt_floor (x : Value) : (Fixed.floor x).toInt = x.toInt / 64 * 64 :=
  Value.toInt_and_neg (p := 64) (k := 6) rfl x

namespace RoundState

variable {r g : RoundState} {m d e v : Value} {x y : Int}

/-- What a round state makes of a distance, said without the way in which it is computed. -/
def RoundsTo (r : RoundState) (x v : Int) : Prop :=
  match r.mode with
  | .grid => IsNearestMultiple 64 x v
  | .doubleGrid => IsNearestMultiple 32 x v
  | .downToGrid => IsOnSideOf x v ∧ IsGreatest {n | 64 ∣ n ∧ n ≤ x.natAbs} v.natAbs
  | .upToGrid => IsOnSideOf x v ∧ IsLeast {n | 64 ∣ n ∧ x.natAbs ≤ n} v.natAbs
  | .halfGrid => IsOnSideOf x v ∧ v.natAbs = 64 * (x.natAbs / 64) + 32
  | .off => v = x
  | .super | .super45 => v = r.gridLine x

/-! ## Grid lines -/

theorem lineOfMagnitude_mono (hgrid : r.IsGrid) (h : x ≤ y) :
    r.lineOfMagnitude x ≤ r.lineOfMagnitude y := by
  have hperiod := Int.le_of_lt hgrid.period_pos
  have hcount : (x + r.threshold.toInt - r.phase.toInt).fdiv r.period.toInt ≤
      (y + r.threshold.toInt - r.phase.toInt).fdiv r.period.toInt := by
    rw [Int.fdiv_eq_ediv_of_nonneg _ hperiod, Int.fdiv_eq_ediv_of_nonneg _ hperiod]
    apply Int.ediv_le_ediv hgrid.period_pos
    omega
  unfold lineOfMagnitude
  apply Int.add_le_add_left
  apply Int.mul_le_mul_of_nonneg_left _ hperiod
  omega

/-- The lines of greater distances are not below those of smaller ones. -/
theorem gridLine_mono (hgrid : r.IsGrid) (h : x ≤ y) : r.gridLine x ≤ r.gridLine y := by
  have hx := lineOfMagnitude_nonneg hgrid x.natAbs
  have hy := lineOfMagnitude_nonneg hgrid y.natAbs
  unfold gridLine
  split
  · split
    · have hle := lineOfMagnitude_mono (x := y.natAbs) (y := x.natAbs) hgrid (by omega)
      omega
    · omega
  · split
    · omega
    · exact lineOfMagnitude_mono hgrid (by omega)

/-- The lines on both sides of zero are alike. -/
theorem gridLine_neg (h : x ≠ 0) : r.gridLine (-x) = -r.gridLine x := by
  unfold gridLine
  rw [Int.natAbs_neg]
  split <;> split <;> omega

theorem natAbs_gridLine (hgrid : r.IsGrid) (x : Int) :
    (r.gridLine x).natAbs = r.lineOfMagnitude x.natAbs := by
  have hnonneg := lineOfMagnitude_nonneg hgrid x.natAbs
  unfold gridLine
  split <;> omega

theorem isOnSideOf_gridLine (hgrid : r.IsGrid) (x : Int) : IsOnSideOf x (r.gridLine x) := by
  have hnonneg := lineOfMagnitude_nonneg hgrid x.natAbs
  unfold IsOnSideOf gridLine
  split <;> omega

/-- A line is its own line if the threshold does not lead to the next one. -/
theorem lineOfMagnitude_lineOfMagnitude (hgrid : r.IsGrid) (hthreshold : 0 ≤ r.threshold.toInt)
    (hthreshold' : r.threshold.toInt < r.period.toInt) (x : Int) :
    r.lineOfMagnitude (r.lineOfMagnitude x) = r.lineOfMagnitude x := by
  have hperiod := hgrid.period_pos
  unfold lineOfMagnitude
  generalize hcount : max 0 ((x + r.threshold.toInt - r.phase.toInt).fdiv r.period.toInt) = q
  have hnonneg : 0 ≤ q := hcount ▸ Int.le_max_left _ _
  have hshift : r.phase.toInt + r.period.toInt * q + r.threshold.toInt - r.phase.toInt =
      r.threshold.toInt + r.period.toInt * q := by omega
  rw [hshift, Int.fdiv_eq_ediv_of_nonneg _ (Int.le_of_lt hperiod),
    Int.add_mul_ediv_left _ _ (Int.ne_of_gt hperiod), Int.ediv_eq_zero_of_lt hthreshold hthreshold',
    Int.zero_add, Int.max_eq_right hnonneg]

theorem gridLine_gridLine (hgrid : r.IsGrid) (hthreshold : 0 ≤ r.threshold.toInt)
    (hthreshold' : r.threshold.toInt < r.period.toInt) (x : Int) :
    r.gridLine (r.gridLine x) = r.gridLine x := by
  have hidem := lineOfMagnitude_lineOfMagnitude hgrid hthreshold hthreshold' x.natAbs
  have hnonneg := lineOfMagnitude_nonneg hgrid x.natAbs
  rw [gridLine, natAbs_gridLine hgrid, hidem]
  unfold gridLine
  split <;> split <;> omega

/-! ## Fixed grids as configured ones -/

/-- A configured grid as those of the fixed modes are. -/
structure IsFixed (g : RoundState) : Prop extends g.IsGrid where
  /-- Every magnitude is at the first line or behind it. -/
  phase_le : g.phase.toInt ≤ g.threshold.toInt
  /-- A magnitude on a line stays there. -/
  threshold_lt : g.threshold.toInt < g.period.toInt
  /-- The threshold adds less than a pixel. -/
  threshold_le_phase : g.threshold.toInt ≤ g.phase.toInt + 63
  /-- The range of words begins and ends with a period. -/
  period_dvd : g.period.toInt ∣ 2 ^ 31

theorem isFixed_of_grid? {mode : RoundMode} (h : mode.grid? = some g) : g.IsFixed := by
  cases mode <;> cases h <;>
    exact ⟨by decide, by decide, by decide, by decide, by decide⟩

/-- Whether a threshold can be added to a distance. -/
def HasRoom (r : RoundState) (x : Int) : Prop :=
  x.natAbs + r.threshold.toInt - r.phase.toInt < 2 ^ 31

/-- If the first line is that at zero, a threshold is added and the rest above a line is masked. -/
theorem toInt_maskedMagnitude (hroom : g.HasRoom m.toInt) (hnonneg : 0 ≤ m.toInt)
    (hthreshold : 0 ≤ g.threshold.toInt) (hphase : g.phase = 0) {k : Nat}
    (hperiod : g.period.toInt = 2 ^ k) :
    (max ((m + g.threshold) &&& -g.period) 0).toInt = g.lineOfMagnitude m.toInt := by
  have hzero : g.phase.toInt = 0 := by rw [hphase]; rfl
  have hpos : 0 < g.period.toInt := hperiod ▸ Int.pow_pos (by decide)
  unfold HasRoom at hroom
  obtain ⟨sum, hsum, hsum'⟩ :=
    Value.exists_ofInt? (z := m.toInt + g.threshold.toInt) (by omega) (by omega)
  have hcount : 0 ≤ sum.toInt / g.period.toInt := Int.ediv_nonneg (by omega) (Int.le_of_lt hpos)
  have hline : 0 ≤ sum.toInt / g.period.toInt * g.period.toInt :=
    Int.mul_nonneg hcount (Int.le_of_lt hpos)
  rw [Value.toInt_max_zero, Value.toInt_and_neg hperiod, Value.add_of_ofInt? hsum,
    Int.max_eq_left hline, lineOfMagnitude, ← hsum', hzero, Int.sub_zero, Int.zero_add,
    Int.fdiv_eq_ediv_of_nonneg _ (Int.le_of_lt hpos), Int.max_eq_right hcount, Int.mul_comm]

/-- The centre of every pixel is a word. -/
theorem exists_centre? (m : Value) :
    ∃ v, Value.ofInt? ((Fixed.floor m).toInt + (32 : Value).toInt) = some v ∧
      v.toInt = (Fixed.floor m).toInt + (32 : Value).toInt := by
  have hlow : -2 ^ 31 ≤ m.toInt := m.le_toInt
  have hhigh : m.toInt < 2 ^ 31 := m.toInt_lt
  have hhalf : (32 : Value).toInt = 32 := rfl
  apply Value.exists_ofInt?
  · rw [Fixed.toInt_floor, hhalf]
    omega
  · rw [Fixed.toInt_floor, hhalf]
    omega

/-- In a fixed mode a magnitude is rounded to its line, if the threshold can be added to it. -/
theorem toInt_roundMagnitude (h : r.mode.grid? = some g) (hnonneg : 0 ≤ m.toInt)
    (hroom : g.HasRoom m.toInt) : (r.roundMagnitude m).toInt = g.lineOfMagnitude m.toInt := by
  have hlast : m.toInt < 2 ^ 31 := m.toInt_lt
  unfold roundMagnitude
  generalize r.mode = mode at h
  cases mode with
  | grid =>
      cases h
      have hmasked := toInt_maskedMagnitude hroom hnonneg (by decide) rfl (k := 6) rfl
      exact hmasked
  | doubleGrid =>
      cases h
      have hmasked := toInt_maskedMagnitude hroom hnonneg (by decide) rfl (k := 5) rfl
      exact hmasked
  | upToGrid =>
      cases h
      have hmasked := toInt_maskedMagnitude hroom hnonneg (by decide) rfl (k := 6) rfl
      exact hmasked
  | downToGrid =>
      cases h
      have hmasked := toInt_maskedMagnitude hroom hnonneg (by decide) rfl (k := 6) rfl
      rwa [Int32.add_zero] at hmasked
  | halfGrid =>
      cases h
      obtain ⟨centre, hcentre, hcentre'⟩ := exists_centre? m
      rw [Value.toInt_max_zero, Value.add_of_ofInt? hcentre, hcentre', Fixed.toInt_floor]
      change max (m.toInt / 64 * 64 + 32) 0 = 32 + 64 * max 0 ((m.toInt + 32 - 32).fdiv 64)
      rw [Int.fdiv_eq_ediv_of_nonneg _ (by decide)]
      omega
  | off =>
      cases h
      change m.toInt = 0 + 1 * max 0 ((m.toInt + 0 - 0).fdiv 1)
      rw [Int.fdiv_one]
      omega
  | super => cases h
  | super45 => cases h

/-- In a fixed mode no magnitude overflows. What one is rounded to does not lie below zero, unless
magnitudes are not rounded at all. -/
theorem roundMagnitude?_of_grid? (h : r.mode.grid? = some g) (m : Value) :
    r.roundMagnitude? m = some (r.roundMagnitude m) ∧
      (r.mode ≠ .off → 0 ≤ (r.roundMagnitude m).toInt) := by
  have hcut (v : Value) : 0 ≤ (max v 0).toInt := by
    rw [Value.toInt_max_zero]
    exact Int.le_max_right _ _
  unfold roundMagnitude? roundMagnitude
  generalize r.mode = mode at h
  cases mode with
  | halfGrid =>
      obtain ⟨centre, hcentre, -⟩ := exists_centre? m
      rw [Value.add_of_ofInt? hcentre]
      exact ⟨by simp only [hcentre, Option.bind_eq_bind, Option.bind_some, Option.pure_def],
        fun _ => hcut centre⟩
  | off => exact ⟨rfl, fun hoff => absurd rfl hoff⟩
  | super => cases h
  | super45 => cases h
  | _ => exact ⟨rfl, fun _ => hcut _⟩

/-- In a fixed mode no distance overflows, and every one is rounded to the side on which it lies. -/
theorem round?_of_grid? (h : r.mode.grid? = some g) (d : Value) :
    r.round? d = some (r.round d) ∧ IsOnSideOf d.toInt (r.round d).toInt := by
  obtain ⟨v, hv, hside⟩ : ∃ v, r.round? d = some v ∧ IsOnSideOf d.toInt v.toInt := by
    unfold round?
    by_cases hnonneg : 0 ≤ d
    · have hle : 0 ≤ d.toInt := Int32.le_iff_toInt_le.1 hnonneg
      obtain ⟨hm, hm'⟩ := roundMagnitude?_of_grid? h d
      refine ⟨r.roundMagnitude d, by rw [if_pos hnonneg, hm], fun _ => ?_, fun hlt => ?_⟩
      · by_cases hoff : r.mode = .off
        · rw [roundMagnitude, hoff]
          exact hle
        · exact hm' hoff
      · omega
    · have hlt : d.toInt < 0 := Int.not_le.1 fun h => hnonneg (Int32.le_iff_toInt_le.2 h)
      rw [if_neg hnonneg]
      by_cases hoff : r.mode = .off
      · exact ⟨d, if_pos hoff, by omega, by omega⟩
      · obtain ⟨hm, hm'⟩ := roundMagnitude?_of_grid? h (-d)
        have hle := hm' hoff
        have hlast := (r.roundMagnitude (-d)).toInt_lt
        obtain ⟨v, hv, hv'⟩ := Value.exists_ofInt? (z := -(r.roundMagnitude (-d)).toInt)
          (by omega) (by omega)
        refine ⟨v, ?_, by omega, by omega⟩
        rw [if_neg hoff, hm]
        exact hv
  rw [round_of_round? hv]
  exact ⟨hv, hside⟩

/-- In a fixed mode a distance is rounded to its line, if the threshold can be added to it. -/
theorem toInt_round (h : r.mode.grid? = some g) (hroom : g.HasRoom d.toInt) :
    (r.round d).toInt = g.gridLine d.toInt := by
  have hfixed := isFixed_of_grid? h
  have hthreshold := hfixed.phase_le
  have hsmall : d.toInt.natAbs < 2 ^ 31 := by
    unfold HasRoom at hroom
    omega
  unfold round gridLine
  by_cases hnonneg : 0 ≤ d
  · have hle : 0 ≤ d.toInt := Int32.le_iff_toInt_le.1 hnonneg
    rw [if_pos hnonneg, if_neg (Int.not_lt.2 hle), Int.natAbs_of_nonneg hle]
    exact toInt_roundMagnitude h hle hroom
  · have hlt : d.toInt < 0 := Int.not_le.1 fun h => hnonneg (Int32.le_iff_toInt_le.2 h)
    obtain ⟨m, hm, hm'⟩ := Value.exists_ofInt? (z := -d.toInt) (by omega) (by omega)
    have hmagnitude : m.toInt = d.toInt.natAbs := by omega
    have hline : (r.roundMagnitude m).toInt = g.lineOfMagnitude d.toInt.natAbs := by
      rw [← hmagnitude]
      apply toInt_roundMagnitude h (by omega)
      unfold HasRoom at hroom ⊢
      omega
    have hline' := lineOfMagnitude_nonneg hfixed.toIsGrid d.toInt.natAbs
    have hlast := (r.roundMagnitude m).toInt_lt
    obtain ⟨v, hv, hv'⟩ := Value.exists_ofInt? (z := -(r.roundMagnitude m).toInt)
      (by omega) (by omega)
    rw [if_neg hnonneg, if_pos hlt, Value.neg_of_ofInt? hm, Value.neg_of_ofInt? hv, hv', hline]

/-! ## The lines of fixed grids -/

/-- No line of a fixed grid has to be cut off at the first one. -/
theorem IsFixed.lineOfMagnitude_natAbs (hfixed : g.IsFixed) (x : Int) :
    g.lineOfMagnitude x.natAbs = g.phase.toInt +
      g.period.toInt * ((x.natAbs + g.threshold.toInt - g.phase.toInt) / g.period.toInt) := by
  have hperiod := Int.le_of_lt hfixed.period_pos
  have hphase := hfixed.phase_le
  rw [lineOfMagnitude, Int.fdiv_eq_ediv_of_nonneg _ hperiod,
    Int.max_eq_right (Int.ediv_nonneg (by omega) hperiod)]

/-- The line of a distance in a fixed grid is what the mode asks for. -/
theorem roundsTo_gridLine (h : r.mode.grid? = some g) (x : Int) : r.RoundsTo x (g.gridLine x) := by
  have hfixed := isFixed_of_grid? h
  have hside := isOnSideOf_gridLine hfixed.toIsGrid x
  have habs := natAbs_gridLine hfixed.toIsGrid x
  rw [hfixed.lineOfMagnitude_natAbs] at habs
  unfold RoundsTo
  unfold IsOnSideOf at hside
  generalize r.mode = mode at h
  generalize hv : g.gridLine x = v at hside habs
  cases mode with
  | grid =>
      cases h
      change (v.natAbs : Int) = 0 + 64 * ((x.natAbs + 32 - 0) / 64) at habs
      apply IsNearestMultiple.of_near (by decide) <;> omega
  | doubleGrid =>
      cases h
      change (v.natAbs : Int) = 0 + 32 * ((x.natAbs + 16 - 0) / 32) at habs
      apply IsNearestMultiple.of_near (by decide) <;> omega
  | downToGrid =>
      cases h
      change (v.natAbs : Int) = 0 + 64 * ((x.natAbs + 0 - 0) / 64) at habs
      refine ⟨hside, ⟨by omega, by omega⟩, ?_⟩
      rintro n ⟨hdvd, hle⟩
      omega
  | upToGrid =>
      cases h
      change (v.natAbs : Int) = 0 + 64 * ((x.natAbs + 63 - 0) / 64) at habs
      refine ⟨hside, ⟨by omega, by omega⟩, ?_⟩
      rintro n ⟨hdvd, hle⟩
      omega
  | halfGrid =>
      cases h
      change (v.natAbs : Int) = 32 + 64 * ((x.natAbs + 32 - 32) / 64) at habs
      refine ⟨hside, ?_⟩
      omega
  | off =>
      cases h
      change (v.natAbs : Int) = 0 + 1 * ((x.natAbs + 0 - 0) / 1) at habs
      change v = x
      omega
  | super => cases h
  | super45 => cases h

/-- Where a threshold can be added to a distance, it can be added to the line of the distance. -/
theorem HasRoom.gridLine (hfixed : g.IsFixed) (hroom : g.HasRoom x) :
    g.HasRoom (g.gridLine x) := by
  have hperiod := hfixed.period_pos
  have hthreshold := hfixed.threshold_lt
  unfold HasRoom at hroom ⊢
  rw [natAbs_gridLine hfixed.toIsGrid, hfixed.lineOfMagnitude_natAbs]
  generalize hnumerator : x.natAbs + g.threshold.toInt - g.phase.toInt = n at hroom
  obtain ⟨k, hk⟩ := hfixed.period_dvd
  -- As many periods as there are below a word are fewer than there are in the range of words.
  have hcount : n / g.period.toInt < k :=
    Int.ediv_lt_of_lt_mul hperiod (by rwa [Int.mul_comm, ← hk])
  have hlast : g.period.toInt * (n / g.period.toInt + 1) ≤ g.period.toInt * k :=
    Int.mul_le_mul_of_nonneg_left hcount (Int.le_of_lt hperiod)
  rw [Int.mul_add, Int.mul_one, ← hk] at hlast
  omega

/-- All distances but the greatest leave room for all thresholds. -/
theorem IsFixed.hasRoom (hfixed : g.IsFixed) (hle : x.natAbs ≤ 2 ^ 31 - 64) : g.HasRoom x := by
  have hthreshold := hfixed.threshold_le_phase
  unfold HasRoom
  omega

/-- Both sides of zero are rounded alike. -/
theorem toInt_round_neg (h : r.mode.grid? = some g) (hroom : g.HasRoom d.toInt) (hne : d ≠ 0) :
    (r.round (-d)).toInt = -(r.round d).toInt := by
  have hthreshold := (isFixed_of_grid? h).phase_le
  have hne' : d.toInt ≠ 0 := fun heq => hne (Int32.toInt_inj.1 heq)
  obtain ⟨e, he, he'⟩ : ∃ e, Value.ofInt? (-d.toInt) = some e ∧ e.toInt = -d.toInt := by
    unfold HasRoom at hroom
    apply Value.exists_ofInt? <;> omega
  have hroom' : g.HasRoom e.toInt := by
    unfold HasRoom at hroom ⊢
    rwa [he', Int.natAbs_neg]
  calc (r.round (-d)).toInt = (r.round e).toInt := by rw [Value.neg_of_ofInt? he]
    _ = g.gridLine (-d.toInt) := by rw [toInt_round h hroom', he']
    _ = -g.gridLine d.toInt := gridLine_neg hne'
    _ = -(r.round d).toInt := by rw [toInt_round h hroom]

/-- The fixed modes round to their grids. As long as a distance is not among the greatest ones, it
is rounded as its mode says, lines are left alone, both sides of zero are rounded alike, and the
order of distances is kept. And no distance at all overflows or changes sides, even if the sum with
a threshold wraps. -/
theorem fixed_rounding_exact (hmode : r.mode ≠ .super ∧ r.mode ≠ .super45) :
    (∀ d : Value, d.toInt.natAbs ≤ 2 ^ 31 - 64 →
      r.RoundsTo d.toInt (r.round d).toInt ∧ r.round (r.round d) = r.round d ∧
        (d ≠ 0 → (r.round (-d)).toInt = -(r.round d).toInt) ∧
          ∀ e : Value, e.toInt.natAbs ≤ 2 ^ 31 - 64 → d ≤ e → r.round d ≤ r.round e) ∧
    ∀ d : Value, r.round? d = some (r.round d) ∧ IsOnSideOf d.toInt (r.round d).toInt := by
  obtain ⟨g, hg⟩ := RoundMode.exists_grid? hmode
  have hfixed := isFixed_of_grid? hg
  refine ⟨fun d hd => ?_, round?_of_grid? hg⟩
  have hroom := hfixed.hasRoom hd
  have hline := toInt_round hg hroom
  refine ⟨?_, ?_, toInt_round_neg hg hroom, fun e he hle => ?_⟩
  · rw [hline]
    exact roundsTo_gridLine hg d.toInt
  · have hthreshold := Int.le_trans hfixed.phase_nonneg hfixed.phase_le
    have hroom' : g.HasRoom (r.round d).toInt := hline ▸ hroom.gridLine hfixed
    apply Int32.toInt_inj.1
    rw [toInt_round hg hroom', hline]
    exact gridLine_gridLine hfixed.toIsGrid hthreshold hfixed.threshold_lt d.toInt
  · apply Int32.le_iff_toInt_le.2
    rw [hline, toInt_round hg (hfixed.hasRoom he)]
    exact gridLine_mono hfixed.toIsGrid (Int32.le_iff_toInt_le.1 hle)

/-- Half a pixel below zero, whole pixels are rounded to as at half a pixel above it. With the
greatest word the sum wraps, and the result is zero. -/
theorem fixed_rounding_exact_halfPixel :
    let r : RoundState := { mode := .grid }
    IsNearestMultiple 64 (-32) (-64) ∧ r.round (-64) = -64 ∧ (r.round 32).toInt = 64 ∧
      r.round (-32) ≤ r.round 31 ∧ IsOnSideOf (2 ^ 31 - 1) 0 := by
  intro r
  obtain ⟨hrange, hall⟩ := fixed_rounding_exact (r := r) (by decide)
  obtain ⟨hto, hidem, hneg, hmono⟩ := hrange (-32) (by decide)
  exact ⟨hto, hidem, hneg (by decide), hmono 31 (by decide) (by decide), (hall 0x7FFFFFFF).2⟩

end RoundState

end GridFit
