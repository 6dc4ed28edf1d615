import Mathlib.Algebra.Ring.Int.Defs

/-!
# Nearest multiples

What it means to round an integer to the nearest multiple of another one, and to round a quotient
of two integers to the nearest integer. Two candidates may be equally near. They lie on both
sides of what is rounded, and the one farther from zero is taken.
-/

namespace GridFit

/-- A multiple of `p` that is nearest to `x`. Of two nearest ones it is the one farther from
zero. -/
structure IsNearestMultiple (p x v : Int) : Prop where
  dvd : p ∣ v
  nearest : ∀ u, p ∣ u → (x - v).natAbs ≤ (x - u).natAbs
  farther : ∀ u, p ∣ u → (x - u).natAbs = (x - v).natAbs → u.natAbs ≤ v.natAbs

/-- An integer that is nearest to the quotient `n / p`. Of two nearest ones it is the one farther
from zero. -/
def IsNearestQuotient (n p z : Int) : Prop :=
  IsNearestMultiple p n (p * z)

variable {p x v u n z y : Int}

namespace IsNearestMultiple

/-- A multiple is the nearest one if it is no more than half of `p` away, and if it is the outer
one of two multiples that are both so far away. -/
theorem of_near (hp : 0 < p) (hdvd : p ∣ v) (hnear : 2 * (x - v).natAbs ≤ p)
    (houter : 2 * (x - v).natAbs = p → v.natAbs = x.natAbs + (x - v).natAbs) :
    IsNearestMultiple p x v := by
  have hapart (u : Int) (hu : p ∣ u) (hne : u ≠ v) : p ≤ (u - v).natAbs := by
    have hle := Int.le_of_dvd (by omega) (Int.dvd_natAbs.2 (Int.dvd_sub hu hdvd))
    exact hle
  refine ⟨hdvd, fun u hu => ?_, fun u hu heq => ?_⟩
  · by_cases hne : u = v
    · rw [hne]
    · have hfar := hapart u hu hne
      omega
  · by_cases hne : u = v
    · rw [hne]
    · have hfar := hapart u hu hne
      omega

/-- There is no more than one nearest multiple. -/
theorem unique (hv : IsNearestMultiple p x v) (hu : IsNearestMultiple p x u) : v = u := by
  have hdistance := Nat.le_antisymm (hv.nearest u hu.dvd) (hu.nearest v hv.dvd)
  have hmagnitude := Nat.le_antisymm (hu.farther v hv.dvd hdistance)
    (hv.farther u hu.dvd hdistance.symm)
  -- If one were the negative of the other, zero would be nearer.
  have hzero := hv.nearest 0 (Int.dvd_zero p)
  omega

end IsNearestMultiple

/-- A quotient that leaves nothing over is rounded to itself. -/
theorem IsNearestQuotient.of_mul (hp : 0 < p) (z : Int) : IsNearestQuotient (z * p) p z := by
  have hsame := Int.mul_comm z p
  apply IsNearestMultiple.of_near hp (Int.dvd_mul_right p z) <;> omega

theorem IsNearestQuotient.unique (hp : p ≠ 0) (hz : IsNearestQuotient n p z)
    (hy : IsNearestQuotient n p y) : z = y :=
  Int.eq_of_mul_eq_mul_left hp (IsNearestMultiple.unique hz hy)

end GridFit
