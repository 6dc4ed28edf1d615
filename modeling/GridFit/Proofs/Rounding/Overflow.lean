import GridFit.Proofs.Word
import GridFit.Rounding

/-!
# Rounding without overflow

Rounding with arithmetic that finds nothing where a result is no word. Additions in the fixed
grids that wrap on purpose are left as they are. Whatever is found is what rounding with
arithmetic that wraps gives, so it remains to see where something is found.
-/

namespace GridFit

namespace RoundState

variable {r : RoundState} {m d v : Value}

/-- Rounds a magnitude, unless a result overflows. -/
def roundMagnitude? (r : RoundState) (m : Value) : Option Value :=
  match r.mode with
  | .halfGrid => do
      let centre ← Value.ofInt? ((Fixed.floor m).toInt + (32 : Value).toInt)
      return max centre 0
  | .super => do
      let shift ← Value.ofInt? (r.threshold.toInt - r.phase.toInt)
      let shifted ← Value.ofInt? (m.toInt + shift.toInt)
      let mask ← Value.ofInt? (-r.period.toInt)
      let line ← Value.ofInt? ((shifted &&& mask).toInt + r.phase.toInt)
      return r.atLeastPhase line
  | .super45 =>
      if r.period = 0 then some (r.atLeastPhase r.phase)
      else do
        let shift ← Value.ofInt? (r.threshold.toInt - r.phase.toInt)
        let shifted ← Value.ofInt? (m.toInt + shift.toInt)
        let count ← Value.ofInt? (shifted.toInt.tdiv r.period.toInt)
        let multiple ← Value.ofInt? (count.toInt * r.period.toInt)
        let line ← Value.ofInt? (multiple.toInt + r.phase.toInt)
        return r.atLeastPhase line
  | _ => some (r.roundMagnitude m)

/-- Rounds a distance and keeps its sign, unless a result overflows. The magnitude of the least
distance wraps on purpose. -/
def round? (r : RoundState) (d : Value) : Option Value :=
  if 0 ≤ d then r.roundMagnitude? d
  else if r.mode = .off then some d
  else do
    let m ← r.roundMagnitude? (-d)
    Value.ofInt? (-m.toInt)

/-- A magnitude that is found is the rounded one. -/
theorem roundMagnitude_of_roundMagnitude? (h : r.roundMagnitude? m = some v) :
    r.roundMagnitude m = v := by
  unfold roundMagnitude? at h
  cases hmode : r.mode with
  | halfGrid =>
      simp only [hmode, Option.bind_eq_bind, Option.bind_eq_some_iff, Option.pure_def,
        Option.some.injEq] at h
      obtain ⟨centre, hcentre, rfl⟩ := h
      simp only [roundMagnitude, hmode, Value.add_of_ofInt? hcentre]
  | super =>
      simp only [hmode, Option.bind_eq_bind, Option.bind_eq_some_iff, Option.pure_def,
        Option.some.injEq] at h
      obtain ⟨shift, hshift, shifted, hshifted, mask, hmask, line, hline, rfl⟩ := h
      simp only [roundMagnitude, hmode, Value.sub_of_ofInt? hshift, Value.add_of_ofInt? hshifted,
        Value.neg_of_ofInt? hmask, Value.add_of_ofInt? hline]
  | super45 =>
      simp only [hmode] at h
      split at h
      · next hperiod =>
          simp only [roundMagnitude, hmode, if_pos hperiod]
          exact Option.some.inj h
      · next hperiod =>
          simp only [Option.bind_eq_bind, Option.bind_eq_some_iff, Option.pure_def,
            Option.some.injEq] at h
          obtain ⟨shift, hshift, shifted, hshifted, count, hcount, multiple, hmultiple, line, hline,
            rfl⟩ := h
          simp only [roundMagnitude, hmode, if_neg hperiod, Value.sub_of_ofInt? hshift,
            Value.add_of_ofInt? hshifted, Value.div_of_ofInt? hcount,
            Value.mul_of_ofInt? hmultiple, Value.add_of_ofInt? hline]
  | _ =>
      simp only [hmode] at h
      exact Option.some.inj h

/-- A distance that is found is the rounded one. -/
theorem round_of_round? (h : r.round? d = some v) : r.round d = v := by
  unfold round? at h
  unfold round
  split at h
  · next hnonneg =>
      rw [if_pos hnonneg]
      exact roundMagnitude_of_roundMagnitude? h
  · next hneg =>
      rw [if_neg hneg]
      split at h
      · next hoff =>
          rw [← Option.some.inj h, roundMagnitude, hoff, Int32.neg_neg]
      · obtain ⟨m, hm, hv⟩ := Option.bind_eq_some_iff.1 h
        rw [roundMagnitude_of_roundMagnitude? hm]
        exact Value.neg_of_ofInt? hv

end RoundState

end GridFit
