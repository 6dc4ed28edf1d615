import GridFit.Value
import Mathlib.Algebra.Ring.Int.Defs
import Mathlib.Algebra.Ring.Nat

/-!
# Words as integers

Arithmetic on words is that on integers as long as no result leaves the range of a word. To
see whether one does, an operation takes its result as an integer first, and the integer is a
word or nothing. Masking with a negative power of two is compared with a quotient that is
rounded down, and the location that a word names with the word itself.
-/

namespace GridFit

/-- A negative power of two has the bits from its exponent on. -/
theorem getElem_neg_twoPow {w k i : Nat} (hi : i < w) :
    (-BitVec.twoPow w k)[i] = decide (k ≤ i) := by
  have hones : -BitVec.twoPow w k = BitVec.allOnes w <<< k := by
    rw [← BitVec.neg_one_eq_allOnes, BitVec.shiftLeft_neg, BitVec.twoPow]
  rw [hones, BitVec.getElem_shiftLeft, BitVec.getElem_allOnes, Bool.and_true, Bool.eq_iff_iff]
  simp

/-- More cells than a memory can have in an address space of 64 bits. -/
def addressableCells : Nat := 0x8000000000000000

namespace Value

variable {l v x y p : Value} {z : Int}

/-! ## Results that may overflow -/

/-- The word for an integer, if there is one. -/
def ofInt? (z : Int) : Option Value :=
  if -2 ^ 31 ≤ z ∧ z < 2 ^ 31 then some (Int32.ofInt z) else none

theorem ofInt?_eq_some_iff : ofInt? z = some v ↔ v.toInt = z := by
  unfold ofInt?
  constructor
  · intro h
    split at h
    · next hrange =>
        obtain rfl := Option.some.inj h
        exact Int32.toInt_ofInt_of_le hrange.1 hrange.2
    · cases h
  · rintro rfl
    rw [if_pos ⟨v.le_toInt, v.toInt_lt⟩, Int32.ofInt_toInt]

/-- There is a word for every integer in the range of words. -/
theorem exists_ofInt? (hlow : -2 ^ 31 ≤ z) (hhigh : z < 2 ^ 31) :
    ∃ v, ofInt? z = some v ∧ v.toInt = z :=
  ⟨Int32.ofInt z, if_pos ⟨hlow, hhigh⟩, Int32.toInt_ofInt_of_le hlow hhigh⟩

/-- What does not overflow is what wrapping gives. -/
theorem ofInt_of_ofInt? (h : ofInt? z = some v) : Int32.ofInt z = v := by
  rw [← ofInt?_eq_some_iff.1 h, Int32.ofInt_toInt]

theorem add_of_ofInt? (h : ofInt? (x.toInt + y.toInt) = some v) : x + y = v := by
  rw [← ofInt_of_ofInt? h, Int32.ofInt_add, Int32.ofInt_toInt, Int32.ofInt_toInt]

theorem sub_of_ofInt? (h : ofInt? (x.toInt - y.toInt) = some v) : x - y = v := by
  rw [← ofInt_of_ofInt? h, Int32.ofInt_sub, Int32.ofInt_toInt, Int32.ofInt_toInt]

theorem neg_of_ofInt? (h : ofInt? (-x.toInt) = some v) : -x = v := by
  rw [← ofInt_of_ofInt? h, Int32.ofInt_neg, Int32.ofInt_toInt]

theorem mul_of_ofInt? (h : ofInt? (x.toInt * y.toInt) = some v) : x * y = v := by
  rw [← ofInt_of_ofInt? h, Int32.ofInt_mul, Int32.ofInt_toInt, Int32.ofInt_toInt]

theorem div_of_ofInt? (h : ofInt? (x.toInt.tdiv y.toInt) = some v) : x / y = v := by
  rw [← ofInt_of_ofInt? h, Int32.ofInt_tdiv x.minValue_le_toInt x.toInt_le y.minValue_le_toInt
    y.toInt_le, Int32.ofInt_toInt, Int32.ofInt_toInt]

/-! ## Masks -/

/-- Masking with a negative power of two leaves the multiple of the power that is next below. -/
theorem toInt_and_neg {k : Nat} (hp : p.toInt = 2 ^ k) (x : Value) :
    (x &&& -p).toInt = x.toInt / p.toInt * p.toInt := by
  have hlow := x.le_toInt
  have hhigh := x.toInt_lt
  have hlt := p.toInt_lt
  have hpos : 0 < p.toInt := hp ▸ Int.pow_pos (by decide)
  have hk : k < 31 := by
    rw [hp] at hlt
    exact (Nat.pow_lt_pow_iff_right (a := 2) (by decide)).1 (by exact_mod_cast hlt)
  have hpow : (BitVec.twoPow 32 k).toInt = 2 ^ k := by
    rw [BitVec.toInt_twoPow, if_neg (by omega), if_neg (by omega)]
  have hbits : p.toBitVec = BitVec.twoPow 32 k :=
    BitVec.eq_of_toInt_eq (hp.trans hpow.symm)
  -- The mask keeps the bits that are still there after a shift to the right and back again.
  have hshift : (x &&& -p).toBitVec = x.toBitVec.sshiftRight k <<< k := by
    rw [Int32.toBitVec_and, Int32.toBitVec_neg, hbits]
    ext i hi
    rw [BitVec.getElem_and, getElem_neg_twoPow hi, BitVec.getElem_shiftLeft]
    by_cases hki : k ≤ i
    · simp [BitVec.getElem_sshiftRight, hki, Nat.add_sub_cancel' hki, hi, Nat.not_lt.2 hki]
    · simp [hki, Nat.lt_of_not_le hki]
  have hvalue : (x &&& -p).toInt = (x.toInt / p.toInt * p.toInt).bmod (2 ^ 32) := by
    rw [← Int32.toInt_toBitVec, hshift, BitVec.shiftLeft_eq_mul_twoPow, BitVec.toInt_mul,
      BitVec.toInt_sshiftRight, Int.shiftRight_eq_div_pow, hpow, hp, Int32.toInt_toBitVec]
    rfl
  have hle : x.toInt / p.toInt * p.toInt ≤ x.toInt := Int.ediv_mul_le x.toInt (Int.ne_of_gt hpos)
  have hge : -2 ^ 31 ≤ x.toInt / p.toInt * p.toInt := by
    have hsplit : (-2 ^ 31 : Int) = -2 ^ (31 - k) * p.toInt := by
      rw [hp, Int.neg_mul, ← Int.pow_add, Nat.sub_add_cancel (Nat.le_of_lt hk)]
    rw [hsplit]
    exact Int.mul_le_mul_of_nonneg_right
      ((Int.le_ediv_iff_mul_le hpos).2 (hsplit ▸ hlow)) (Int.le_of_lt hpos)
  rw [hvalue, Int.bmod_eq_of_le_mul_two (by omega) (by omega)]

/-! ## Locations -/

/-- A word that is not negative names the location of this number. -/
theorem location_of_nonneg (h : 0 ≤ l.toInt) : l.location = l.toInt.toNat := by
  have hlt : l.toInt < 2 ^ 31 := l.toInt_lt
  unfold location
  rw [Int.emod_eq_of_lt h (by omega)]

/-- A negative word names a location beyond all memories that there can be. -/
theorem lt_location_of_neg (h : l.toInt < 0) : addressableCells < l.location := by
  have hle : -2 ^ 31 ≤ l.toInt := l.le_toInt
  unfold addressableCells location
  omega

end Value

end GridFit
