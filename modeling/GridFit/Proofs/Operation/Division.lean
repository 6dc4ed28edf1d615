import GridFit.Proofs.Operation.Room
import Mathlib.Algebra.Ring.Int.Defs
import Mathlib.Algebra.Ring.Nat

/-!
# Division

A division strips the signs of its operands in 32 bits, divides in 64 bits, and puts the sign
back. The least word is the only one whose sign cannot be stripped, as no word holds its
magnitude. The quotient is the exact one where neither operand is that word. As a dividend
it keeps its sign, which is then put back once more, and that goes unnoticed only where the
quotient is its own negative. As a divisor it is taken for zero.

## Implementation notes

Nothing overflows in 64 bits, so the quotient is compared with that of the integers before it
is reduced to 32 bits, and reducing keeps negatives.
-/

namespace GridFit

namespace Fixed

variable {a b x : Value}

/-- The quotient of two 26.6 numbers as integers, without its fraction and then reduced to
32 bits. -/
def exactQuotient (a b : Value) : Value :=
  Int32.ofInt ((a.toInt * 64).tdiv b.toInt)

/-- A number without its sign, in 32 bits. -/
def stripSign (x : Value) : Value :=
  if x < 0 then -x else x

/-! ## Signs -/

theorem toInt_ne_zero (h : x ≠ 0) : x.toInt ≠ 0 := fun heq => h (Int32.toInt_inj.1 heq)

theorem toInt_ne_minValue (h : x ≠ Int32.minValue) : x.toInt ≠ -2 ^ 31 := fun heq =>
  h (Int32.toInt_inj.1 (heq.trans Int32.toInt_minValue.symm))

/-- The sign of every word but the least one can be changed. -/
theorem toInt_neg_of_ne (h : x ≠ Int32.minValue) : (-x).toInt = -x.toInt := by
  have hne := toInt_ne_minValue h
  have hlow := x.le_toInt
  have hhigh := x.toInt_lt
  rw [Int32.toInt_neg, Int.bmod_eq_of_le_mul_two (by omega) (by omega)]

theorem stripSign_minValue : stripSign Int32.minValue = Int32.minValue := by
  decide

theorem stripSign_pos (hzero : b ≠ 0) (hmin : b ≠ Int32.minValue) : 0 < stripSign b := by
  have hne := toInt_ne_zero hzero
  have hword : (0 : Value).toInt = 0 := rfl
  rw [stripSign]
  split
  · next hneg =>
      rw [Int32.lt_iff_toInt_lt, hword] at hneg ⊢
      rw [toInt_neg_of_ne hmin]
      omega
  · next hnonneg =>
      rw [Int32.lt_iff_toInt_lt, hword] at hnonneg ⊢
      omega

theorem exactQuotient_neg_left (h : a ≠ Int32.minValue) :
    exactQuotient (-a) b = -exactQuotient a b := by
  rw [exactQuotient, toInt_neg_of_ne h, Int.neg_mul, Int.neg_tdiv, Int32.ofInt_neg, exactQuotient]

theorem exactQuotient_neg_right (h : b ≠ Int32.minValue) :
    exactQuotient a (-b) = -exactQuotient a b := by
  rw [exactQuotient, toInt_neg_of_ne h, Int.tdiv_neg, Int32.ofInt_neg, exactQuotient]

/-! ## Quotients -/

/-- In 64 bits two words are divided as integers. -/
theorem toInt32_wideQuotient (a b : Value) :
    (a.toInt64 * (64 : Value).toInt64 / b.toInt64).toInt32 = exactQuotient a b := by
  have hlow := a.le_toInt
  have hhigh := a.toInt_lt
  have hlow' := b.le_toInt
  have hhigh' := b.toInt_lt
  have h64 : (64 : Value).toInt64 = Int64.ofInt 64 := rfl
  have hmin : Int64.minValue.toInt = -2 ^ 63 := rfl
  have hmax : Int64.maxValue.toInt = 2 ^ 63 - 1 := rfl
  rw [h64, ← Int64.ofInt_int32ToInt, ← Int64.ofInt_int32ToInt, ← Int64.ofInt_mul,
    ← Int64.ofInt_tdiv (by omega) (by omega) (by omega) (by omega), Int64.toInt32_ofInt,
    exactQuotient]

/-- The magnitude of a quotient, as far as signs can be stripped in 32 bits. -/
def quotientMagnitude (a b : Value) : Value :=
  if 0 < stripSign b then exactQuotient (stripSign a) (stripSign b) else 0x7FFFFFFF

theorem mulDivTruncating_eq (a b : Value) :
    mulDivTruncating a 64 b =
      if xor (decide (a < 0)) (decide (b < 0)) then -quotientMagnitude a b
      else quotientMagnitude a b := by
  have hmagnitude : (if 0 < stripSign b then
      (stripSign a).toInt64 * (stripSign 64).toInt64 / (stripSign b).toInt64
      else 0x7FFFFFFF).toInt32 = quotientMagnitude a b := by
    rw [quotientMagnitude]
    split
    · exact toInt32_wideQuotient (stripSign a) (stripSign b)
    · rfl
  have hsign : xor (xor (decide (a < 0)) (decide ((64 : Value) < 0))) (decide (b < 0)) =
      xor (decide (a < 0)) (decide (b < 0)) := by
    rw [show decide ((64 : Value) < 0) = false from rfl, Bool.xor_false]
  unfold mulDivTruncating
  simp only [hsign]
  split
  · rw [Int64.toInt32_neg]
    exact congrArg (- ·) hmagnitude
  · exact hmagnitude

/-- Only the least divisor counts as not positive. -/
theorem mulDivTruncating_minValue (a : Value) :
    mulDivTruncating a 64 Int32.minValue = if a < 0 then 0x7FFFFFFF else -0x7FFFFFFF := by
  have hmagnitude : quotientMagnitude a Int32.minValue = 0x7FFFFFFF := rfl
  have hless : decide (Int32.minValue < 0) = true := rfl
  rw [mulDivTruncating_eq, hmagnitude, hless]
  by_cases hneg : a < 0 <;> simp [hneg]

/-- The least dividend keeps its sign, which is then put back a second time. -/
theorem mulDivTruncating_of_ne (hzero : b ≠ 0) (hmin : b ≠ Int32.minValue) (a : Value) :
    mulDivTruncating a 64 b =
      if a = Int32.minValue then -exactQuotient a b else exactQuotient a b := by
  have hmagnitude : quotientMagnitude a b = exactQuotient (stripSign a) (stripSign b) :=
    if_pos (stripSign_pos hzero hmin)
  have hdivisor (x : Value) : exactQuotient x (stripSign b) =
      if b < 0 then -exactQuotient x b else exactQuotient x b := by
    rw [stripSign, apply_ite (exactQuotient x), exactQuotient_neg_right hmin]
  -- The sign taken off the divisor cancels against the one put back for it. It is the same
  -- for the dividend, unless nothing was taken off it.
  rw [mulDivTruncating_eq, hmagnitude, hdivisor]
  by_cases ha : a = Int32.minValue
  · have hless : decide (a < 0) = true := by
      subst ha
      rfl
    rw [hless, if_pos ha, ha, stripSign_minValue]
    by_cases hneg : b < 0 <;> simp [hneg]
  · have hdividend : exactQuotient (stripSign a) b =
        if a < 0 then -exactQuotient a b else exactQuotient a b := by
      rw [stripSign, apply_ite (exactQuotient · b), exactQuotient_neg_left ha]
    rw [hdividend, if_neg ha]
    by_cases hneg : a < 0 <;> by_cases hneg' : b < 0 <;> simp [hneg, hneg']

/-- In 32 bits a number is its own negative exactly if it is a multiple of 2³¹. -/
theorem neg_ofInt_eq_iff (z : Int) : -Int32.ofInt z = Int32.ofInt z ↔ (2 : Int) ^ 31 ∣ z := by
  rw [← Int32.ofInt_neg, ← Int32.toInt_inj, Int32.toInt_ofInt, Int32.toInt_ofInt]
  simp only [Int.bmod, Int32.size]
  constructor
  · intro h
    split at h <;> split at h <;> omega
  · intro h
    split <;> split <;> omega

/-- The quotient of 2³⁷ by a smaller number than 2³¹ is a multiple of 2³¹ only if nothing is
left over. -/
theorem dvd_div_iff {n : Nat} (hpos : 0 < n) (hlt : n < 2 ^ 31) :
    2 ^ 31 ∣ 2 ^ 37 / n ↔ n ∣ 64 := by
  constructor
  · rintro ⟨m, hm⟩
    have hle := Nat.div_mul_le_self (2 ^ 37) n
    have hgt := @Nat.lt_div_mul_add (2 ^ 37) n hpos
    have hproduct : 2 ^ 31 * m * n = 2 ^ 31 * (n * m) := by
      rw [Nat.mul_assoc, Nat.mul_comm m n]
    rw [hm, hproduct] at hle hgt
    exact ⟨m, by omega⟩
  · rintro ⟨m, hm⟩
    have hproduct : 2 ^ 37 = n * (2 ^ 31 * m) := by
      rw [Nat.mul_left_comm]
      omega
    exact ⟨m, Nat.div_eq_of_eq_mul_right hpos hproduct⟩

/-- The quotient of the least dividend is its own negative exactly if nothing is left over, as
then none of its digits are among the last 31. -/
theorem neg_exactQuotient_minValue_iff (hzero : b ≠ 0) (hmin : b ≠ Int32.minValue) :
    -exactQuotient Int32.minValue b = exactQuotient Int32.minValue b ↔ b.toInt ∣ 64 := by
  have hne := toInt_ne_zero hzero
  have hne' := toInt_ne_minValue hmin
  have hlow := b.le_toInt
  have hhigh := b.toInt_lt
  have hmagnitude : ((Int32.minValue.toInt * 64).tdiv b.toInt).natAbs =
      2 ^ 37 / b.toInt.natAbs :=
    Int.natAbs_tdiv _ _
  calc -exactQuotient Int32.minValue b = exactQuotient Int32.minValue b
      ↔ ((2 ^ 31 : Nat) : Int) ∣ (Int32.minValue.toInt * 64).tdiv b.toInt :=
        neg_ofInt_eq_iff _
    _ ↔ 2 ^ 31 ∣ 2 ^ 37 / b.toInt.natAbs := by rw [Int.ofNat_dvd_left, hmagnitude]
    _ ↔ b.toInt.natAbs ∣ 64 := dvd_div_iff (Int.natAbs_pos.2 hne) (by omega)
    _ ↔ b.toInt ∣ 64 := Int.natAbs_dvd_natAbs (b := 64)

/-- A quotient by the least divisor is small. -/
theorem exactQuotient_minValue_ne (a : Value) :
    exactQuotient a Int32.minValue ≠ 0x7FFFFFFF ∧
      exactQuotient a Int32.minValue ≠ -0x7FFFFFFF := by
  have hlow := a.le_toInt
  have hhigh := a.toInt_lt
  have hmagnitude : ((a.toInt * 64).tdiv Int32.minValue.toInt).natAbs =
      (a.toInt * 64).natAbs / 2 ^ 31 :=
    Int.natAbs_tdiv _ _
  have hsmall : (a.toInt * 64).natAbs / 2 ^ 31 ≤ 64 := by omega
  have hvalue : (exactQuotient a Int32.minValue).toInt =
      (a.toInt * 64).tdiv Int32.minValue.toInt := by
    rw [exactQuotient, Int32.toInt_ofInt,
      Int.bmod_eq_of_le_mul_two (by simp only [Int32.size]; omega)
        (by simp only [Int32.size]; omega)]
  have hlarge : ((0x7FFFFFFF : Value)).toInt = 2 ^ 31 - 1 := rfl
  have hlarge' : ((-0x7FFFFFFF : Value)).toInt = -(2 ^ 31 - 1) := rfl
  constructor <;> intro h <;> rw [h] at hvalue <;> omega

/-- The quotient is the exact one only for a divisor whose sign can be stripped, and for a
dividend whose sign can be stripped or does not matter. -/
theorem mulDivTruncating_eq_exactQuotient_iff (hzero : b ≠ 0) :
    mulDivTruncating a 64 b = exactQuotient a b ↔
      b ≠ Int32.minValue ∧ (a ≠ Int32.minValue ∨ b.toInt ∣ 64) := by
  by_cases hb : b = Int32.minValue
  · subst hb
    obtain ⟨hne, hne'⟩ := exactQuotient_minValue_ne a
    rw [mulDivTruncating_minValue]
    split
    · simp [hne.symm]
    · simp [hne'.symm]
  · rw [mulDivTruncating_of_ne hzero hb]
    by_cases ha : a = Int32.minValue
    · subst ha
      simp [hb, neg_exactQuotient_minValue_iff hzero hb]
    · simp [ha, hb]

end Fixed

/-- A division by zero fails, and every other division succeeds. It pushes the exact quotient
if and only if the divisor is not the least word, and the dividend is not the least word
either unless the divisor divides a pixel. Otherwise the quotient of the least dividend has the
wrong sign, and the least divisor counts as if it were zero. -/
theorem division_exact_iff (site : Site) (ins : Instruction) (w : Workspace) (a b : Value)
    (rest : List Value) (hdiv : ins.opcode = .div) (hvalues : w.stack.values = b :: a :: rest)
    (hroom : w.stack.hasRoom 0 = true) :
    (b = 0 → ins.execute site w = .error .divideByZero (w.popped 2)) ∧
    (b ≠ 0 → ∃ q,
      ins.execute site w = .ok () { w.popped 2 with stack := (w.popped 2).stack.cons q } ∧
      (q = Fixed.exactQuotient a b ↔
        b ≠ Int32.minValue ∧ (a ≠ Int32.minValue ∨ b.toInt ∣ 64)) ∧
      (b ≠ Int32.minValue → a = Int32.minValue → q = -Fixed.exactQuotient a b) ∧
      (b = Int32.minValue → q = if a < 0 then 0x7FFFFFFF else -0x7FFFFFFF)) := by
  have hop : ins.opcode.operation = .binary .div := by rw [hdiv]; rfl
  have hexecute := Instruction.execute_binary hop hvalues hroom site
  constructor
  · intro hzero
    rw [hexecute, BinaryOp.apply, if_pos hzero]
  · intro hzero
    refine ⟨Fixed.mulDivTruncating a 64 b, ?_, Fixed.mulDivTruncating_eq_exactQuotient_iff hzero,
      fun hmin ha => ?_, fun hmin => ?_⟩
    · rw [hexecute, BinaryOp.apply, if_neg hzero]
    · rw [Fixed.mulDivTruncating_of_ne hzero hmin, if_pos ha]
    · rw [hmin, Fixed.mulDivTruncating_minValue]

/-- A workspace with nothing but two operands, the second of them on top, and no room for
more. -/
def dividing (a b : Value) : Workspace :=
  { Workspace.ofOptions { storageSize := 0 } with stack := { values := [b, a], limit := some 2 } }

/-- The site of a division that stands alone. -/
def divisionSite : Site :=
  { font := {}, sequence := #[⟨.div, [], 0⟩], index := 0 }

/-- A quotient of 2³¹ wraps around, and there is none by zero. -/
theorem division_exact_iff_wrapping :
    (⟨.div, [], 0⟩ : Instruction).execute divisionSite (dividing 33554432 (-1)) =
      .ok () { (dividing 33554432 (-1)).popped 2 with
        stack := ((dividing 33554432 (-1)).popped 2).stack.cons Int32.minValue } ∧
    (⟨.div, [], 0⟩ : Instruction).execute divisionSite (dividing 64 0) =
      .error .divideByZero ((dividing 64 0).popped 2) := by
  constructor
  · obtain ⟨q, hq, hexact, -⟩ := (division_exact_iff divisionSite ⟨.div, [], 0⟩
      (dividing 33554432 (-1)) 33554432 (-1) [] rfl rfl rfl).2 (by decide)
    obtain rfl : q = Int32.minValue :=
      (hexact.2 ⟨by decide, .inl (by decide)⟩).trans (by decide)
    exact hq
  · exact (division_exact_iff divisionSite ⟨.div, [], 0⟩ (dividing 64 0) 64 0 [] rfl rfl rfl).1 rfl

/-- The least word divided by two pixels gives half of it with the wrong sign. -/
theorem least_dividend_changes_sign :
    (∃ w, (⟨.div, [], 0⟩ : Instruction).execute divisionSite (dividing Int32.minValue 128) =
      .ok () w ∧ w.stack.values = [1073741824]) ∧
    Fixed.exactQuotient Int32.minValue 128 = -1073741824 :=
  ⟨⟨_, rfl, by decide⟩, by decide⟩

end GridFit
