import GridFit.Proofs.Operation.Memory
import GridFit.Proofs.Operation.Room
import GridFit.Proofs.Rounding.FixedGrid

/-!
# Products

Products of fixed point numbers are rounded to the nearest unit, by two ways of computing them.
Products of pixels are taken of magnitudes, and half a pixel is added before the product is cut.
Products with a scale keep their sign. Cutting rounds them down, so one unit less is added to a
negative one. Both come to the nearest unit, of two the one farther from zero, and 64 bits have
room for all that is computed on the way. Only the result is reduced to 32 bits.

## Implementation notes

The products with arithmetic that finds nothing where a result leaves 64 bits are those of the
wrapping arithmetic wherever something is found, which is everywhere.

`Fixed.mul` and `Fixed.mulDiv` stand for operations of a library outside of the interpreter. What
is shown of them holds of the interpreter as far as that library computes as it documents.
-/

namespace GridFit

namespace Fixed

variable {a b c v : Value} {x y u : Int64} {z : Int} {n : Nat}

/-! ## Arithmetic in 64 bits -/

/-- The word of 64 bits for an integer, if there is one. -/
def wide? (z : Int) : Option Int64 :=
  if -2 ^ 63 ≤ z ∧ z < 2 ^ 63 then some (Int64.ofInt z) else none

/-- The word of 64 bits without a sign for a number, if there is one. -/
def unsigned? (n : Nat) : Option UInt64 :=
  if n < 2 ^ 64 then some (UInt64.ofNat n) else none

theorem exists_wide? (hlow : -2 ^ 63 ≤ z) (hhigh : z < 2 ^ 63) :
    ∃ x, wide? z = some x ∧ x.toInt = z :=
  ⟨Int64.ofInt z, if_pos ⟨hlow, hhigh⟩, Int64.toInt_ofInt_of_le hlow hhigh⟩

theorem exists_unsigned? (h : n < 2 ^ 64) : ∃ q, unsigned? n = some q ∧ q.toNat = n :=
  ⟨UInt64.ofNat n, if_pos h, UInt64.toNat_ofNat_of_lt' h⟩

/-- What does not leave 64 bits is what wrapping gives. -/
theorem ofInt_of_wide? (h : wide? z = some x) : Int64.ofInt z = x := by
  unfold wide? at h
  split at h
  · exact Option.some.inj h
  · cases h

theorem mul_of_wide? (h : wide? (x.toInt * y.toInt) = some u) : x * y = u := by
  rw [← ofInt_of_wide? h, Int64.ofInt_mul, Int64.ofInt_toInt, Int64.ofInt_toInt]

theorem add_of_wide? (h : wide? (x.toInt + y.toInt) = some u) : x + y = u := by
  rw [← ofInt_of_wide? h, Int64.ofInt_add, Int64.ofInt_toInt, Int64.ofInt_toInt]

theorem sub_of_wide? (h : wide? (x.toInt - y.toInt) = some u) : x - y = u := by
  rw [← ofInt_of_wide? h, Int64.ofInt_sub, Int64.ofInt_toInt, Int64.ofInt_toInt]

theorem neg_of_wide? (h : wide? (-x.toInt) = some u) : -x = u := by
  rw [← ofInt_of_wide? h, Int64.ofInt_neg, Int64.ofInt_toInt]

/-- A shift to the right divides by a power of two and rounds down. -/
theorem toInt_shiftRight (x : Int64) : (x >>> 16).toInt = x.toInt / 65536 := by
  have hshift : (x >>> 16).toBitVec = x.toBitVec.sshiftRight 16 := rfl
  rw [← Int64.toInt_toBitVec, hshift, BitVec.toInt_sshiftRight, Int.shiftRight_eq_div_pow,
    Int64.toInt_toBitVec]
  rfl

/-- No product of two words is greater than that of the least one with itself. -/
theorem natAbs_product_le (a b : Value) : (a.toInt * b.toInt).natAbs ≤ 2 ^ 62 := by
  have hword (x : Value) : x.toInt.natAbs ≤ 2 ^ 31 := by
    have hlow := x.le_toInt
    have hhigh := x.toInt_lt
    omega
  calc (a.toInt * b.toInt).natAbs = a.toInt.natAbs * b.toInt.natAbs := Int.natAbs_mul _ _
    _ ≤ 2 ^ 31 * 2 ^ 31 := Nat.mul_le_mul (hword a) (hword b)
    _ = 2 ^ 62 := rfl

/-! ## Products with a scale -/

/-- The 16.16 product of two numbers, unless a result on the way leaves 64 bits. -/
def mul? (a b : Value) : Option Value := do
  let product ← wide? (a.toInt64.toInt * b.toInt64.toInt)
  let raised ← wide? (product.toInt + (0x8000 : Int64).toInt)
  let settled ← wide? (raised.toInt - (if product < 0 then 1 else 0 : Int64).toInt)
  return (settled >>> 16).toInt32

/-- A product with a scale is rounded to the nearest unit and reduced to 32 bits, and nothing on the
way leaves 64 bits. -/
theorem mul_nearest (a b : Value) :
    mul? a b = some (mul a b) ∧
      ∃ z, IsNearestQuotient (a.toInt * b.toInt) 65536 z ∧ mul a b = Int32.ofInt z := by
  have hbound := natAbs_product_le a b
  have hhalf : (0x8000 : Int64).toInt = 0x8000 := rfl
  rw [← Int32.toInt_toInt64 a, ← Int32.toInt_toInt64 b] at hbound ⊢
  obtain ⟨product, hproduct, hproduct'⟩ :=
    exists_wide? (z := a.toInt64.toInt * b.toInt64.toInt) (by omega) (by omega)
  rw [← hproduct'] at hbound ⊢
  obtain ⟨raised, hraised, hraised'⟩ :=
    exists_wide? (z := product.toInt + (0x8000 : Int64).toInt) (by omega) (by omega)
  -- A negative product is settled by one unit less.
  have hsettling : (if product < 0 then 1 else 0 : Int64).toInt =
      if product.toInt < 0 then 1 else 0 := by
    simp only [Int64.lt_iff_toInt_lt, Int64.toInt_zero]
    split <;> rfl
  obtain ⟨settled, hsettled, hsettled'⟩ :=
    exists_wide? (z := raised.toInt - (if product < 0 then 1 else 0 : Int64).toInt)
      (by rw [hsettling]; omega) (by rw [hsettling]; omega)
  have hmul : mul a b = (settled >>> 16).toInt32 := by
    unfold mul
    simp only [mul_of_wide? hproduct, add_of_wide? hraised, sub_of_wide? hsettled]
  refine ⟨?_, settled.toInt / 65536, ?_, ?_⟩
  · rw [hmul]
    simp only [mul?, hproduct, hraised, hsettled, Option.bind_eq_bind, Option.bind_some,
      Option.pure_def]
  · rw [hsettled', hsettling, hraised', hhalf]
    apply IsNearestMultiple.of_near (by decide) (Int.dvd_mul_right _ _)
    · split <;> omega
    · split <;> omega
  · rw [hmul, ← toInt_shiftRight, ← Int64.toInt32_ofInt, Int64.ofInt_toInt]

/-! ## Products of pixels -/

/-- The absolute value in 64 bits, unless it leaves them. -/
def magnitude? (a : Value) : Option UInt64 :=
  if a.toInt64 < 0 then (wide? (-a.toInt64.toInt)).map Int64.toUInt64 else some a.toInt64.toUInt64

/-- The quotient of magnitudes to the nearest unit, unless a result on the way leaves 64 bits. -/
def quotient? (left right divisor : UInt64) : Option UInt64 := do
  let product ← unsigned? (left.toNat * right.toNat)
  let raised ← unsigned? (product.toNat + (divisor >>> 1).toNat)
  return raised / divisor

/-- The quotient `a * b / c` to the nearest unit, unless a result on the way leaves 64 bits. -/
def mulDiv? (a b c : Value) : Option Value := do
  let left ← magnitude? a
  let right ← magnitude? b
  let divisor ← magnitude? c
  let quotient ← if c = 0 then some 0x7FFFFFFF else quotient? left right divisor
  let reduced := quotient.toUInt32.toInt32
  return if xor (xor (decide (a < 0)) (decide (b < 0))) (decide (c < 0)) then -reduced else reduced

theorem magnitude?_eq (a : Value) :
    magnitude? a = some (magnitude a) ∧ (magnitude a).toNat = a.toInt.natAbs := by
  have hlow := a.le_toInt
  have hhigh := a.toInt_lt
  have hword := Int32.toInt_toInt64 a
  have hzero : (0 : Int64).toInt = 0 := rfl
  have hnat (x : Int64) (hx : 0 ≤ x.toInt) : x.toUInt64.toNat = x.toInt.natAbs := by
    rw [Int64.toNat_toUInt64_of_le (Int64.le_iff_toInt_le.2 hx), Int64.toNatClampNeg]
    omega
  unfold magnitude? magnitude
  by_cases hneg : a.toInt64 < 0
  · have hlt := Int64.lt_iff_toInt_lt.1 hneg
    obtain ⟨x, hx, hx'⟩ := exists_wide? (z := -a.toInt64.toInt) (by omega) (by omega)
    simp only [if_pos hneg, hx, neg_of_wide? hx, Option.map_some, true_and]
    rw [hnat x (by omega)]
    omega
  · have hle : 0 ≤ a.toInt64.toInt := Int.not_lt.1 fun h => hneg (Int64.lt_iff_toInt_lt.2 h)
    simp only [if_neg hneg, true_and]
    rw [hnat _ hle, hword]

/-- The magnitude of a product of pixels. Half a pixel is added before it is cut. -/
def pixelProduct (left right : UInt64) : UInt64 :=
  (left * right + (64 : UInt64) >>> 1) / 64

theorem quotient?_eq {left right : UInt64} (h : left.toNat * right.toNat ≤ 2 ^ 62) :
    quotient? left right 64 = some (pixelProduct left right) ∧
      (pixelProduct left right).toNat = (left.toNat * right.toNat + 32) / 64 := by
  have hhalf : ((64 : UInt64) >>> 1).toNat = 32 := rfl
  obtain ⟨product, hproduct, hproduct'⟩ :=
    exists_unsigned? (n := left.toNat * right.toNat) (by omega)
  obtain ⟨raised, hraised, hraised'⟩ :=
    exists_unsigned? (n := product.toNat + ((64 : UInt64) >>> 1).toNat) (by omega)
  have hwrapped : left * right + (64 : UInt64) >>> 1 = raised := by
    apply UInt64.toNat_inj.1
    rw [UInt64.toNat_add, UInt64.toNat_mul, hraised', hhalf, hproduct',
      Nat.mod_eq_of_lt (by omega), Nat.mod_eq_of_lt (by omega)]
  rw [pixelProduct, hwrapped, UInt64.toNat_div, hraised', hhalf, hproduct']
  refine ⟨?_, rfl⟩
  simp only [quotient?, hproduct, hraised, Option.bind_eq_bind, Option.bind_some, Option.pure_def]

/-- The magnitudes of two words have a product to which half a pixel can be added. -/
theorem pixelProduct_magnitude (a b : Value) :
    quotient? (magnitude a) (magnitude b) 64 = some (pixelProduct (magnitude a) (magnitude b)) ∧
      (pixelProduct (magnitude a) (magnitude b)).toNat =
        ((a.toInt * b.toInt).natAbs + 32) / 64 := by
  have hproduct : (magnitude a).toNat * (magnitude b).toNat = (a.toInt * b.toInt).natAbs := by
    rw [(magnitude?_eq a).2, (magnitude?_eq b).2, Int.natAbs_mul]
  rw [← hproduct]
  exact quotient?_eq (hproduct ▸ natAbs_product_le a b)

/-- Reducing a word without a sign to 32 bits is reducing the number that it stands for. -/
theorem toInt32_toUInt32 (q : UInt64) : q.toUInt32.toInt32 = Int32.ofInt q.toNat := by
  rw [← UInt32.ofNat_uInt64ToNat, UInt32.toInt32_ofNat', ← Int32.ofInt_eq_ofNat]

/-- The sign of a product is that of one of its factors, unless both have one. -/
theorem product_sign (a b : Value) :
    if xor (decide (a < 0)) (decide (b < 0)) then a.toInt * b.toInt ≤ 0
    else 0 ≤ a.toInt * b.toInt := by
  have hneg {x : Value} (h : x < 0) : x.toInt ≤ 0 := Int.le_of_lt (Int32.lt_iff_toInt_lt.1 h)
  have hnonneg {x : Value} (h : ¬x < 0) : 0 ≤ x.toInt :=
    Int.not_lt.1 fun hlt => h (Int32.lt_iff_toInt_lt.2 hlt)
  by_cases ha : a < 0 <;> by_cases hb : b < 0 <;> simp only [ha, hb]
  · exact Int.mul_nonneg_of_nonpos_of_nonpos (hneg ha) (hneg hb)
  · exact Int.mul_nonpos_of_nonpos_of_nonneg (hneg ha) (hnonneg hb)
  · exact Int.mul_nonpos_of_nonneg_of_nonpos (hnonneg ha) (hneg hb)
  · exact Int.mul_nonneg (hnonneg ha) (hnonneg hb)

/-- A product of pixels is that of the magnitudes, with the sign put back. -/
theorem mulDiv_eq (a b : Value) :
    mulDiv? a b 64 = some (mulDiv a b 64) ∧
      mulDiv a b 64 = if xor (decide (a < 0)) (decide (b < 0)) then
        -Int32.ofInt (pixelProduct (magnitude a) (magnitude b)).toNat
      else Int32.ofInt (pixelProduct (magnitude a) (magnitude b)).toNat := by
  have hne : (64 : Value) ≠ 0 := by decide
  have hdivisor : magnitude? 64 = some 64 ∧ magnitude 64 = 64 := by decide
  have hsign : xor (xor (decide (a < 0)) (decide (b < 0))) (decide ((64 : Value) < 0)) =
      xor (decide (a < 0)) (decide (b < 0)) := by
    rw [show decide ((64 : Value) < 0) = false from rfl, Bool.xor_false]
  rw [← toInt32_toUInt32]
  constructor
  · simp only [mulDiv?, mulDiv, (magnitude?_eq a).1, (magnitude?_eq b).1, hdivisor.1, hdivisor.2,
      (pixelProduct_magnitude a b).1, if_neg hne, hsign, Option.bind_eq_bind, Option.bind_some,
      Option.pure_def, pixelProduct]
  · simp only [mulDiv, hsign, hdivisor.2, if_neg hne, pixelProduct]

/-- A product of pixels is rounded to the nearest unit and reduced to 32 bits, and nothing on the
way leaves 64 bits. -/
theorem mulDiv_nearest (a b : Value) :
    mulDiv? a b 64 = some (mulDiv a b 64) ∧
      ∃ z, IsNearestQuotient (a.toInt * b.toInt) 64 z ∧ mulDiv a b 64 = Int32.ofInt z := by
  obtain ⟨hfound, hmul⟩ := mulDiv_eq a b
  have hproduct := product_sign a b
  have hquotient := (pixelProduct_magnitude a b).2
  refine ⟨hfound, ?_⟩
  rw [hmul]
  generalize (pixelProduct (magnitude a) (magnitude b)).toNat = quotient at hquotient
  generalize a.toInt * b.toInt = product at hquotient hproduct
  split at hproduct
  · next hneg =>
      refine ⟨-quotient, ?_, by rw [if_pos hneg, Int32.ofInt_neg]⟩
      apply IsNearestMultiple.of_near (by decide) (Int.dvd_mul_right _ _) <;> omega
  · next hnonneg =>
      refine ⟨quotient, ?_, by rw [if_neg hnonneg]⟩
      apply IsNearestMultiple.of_near (by decide) (Int.dvd_mul_right _ _) <;> omega

theorem mulDiv_comm (a b : Value) : mulDiv b a 64 = mulDiv a b 64 := by
  obtain ⟨-, z, hz, hab⟩ := mulDiv_nearest a b
  obtain ⟨-, y, hy, hba⟩ := mulDiv_nearest b a
  rw [Int.mul_comm] at hy
  rw [hab, hba, hz.unique (by decide) hy]

theorem mulDiv_one (a : Value) : mulDiv a 64 64 = a := by
  obtain ⟨-, z, hz, hproduct⟩ := mulDiv_nearest a 64
  rw [hproduct, hz.unique (by decide) (.of_mul (by decide) a.toInt), Int32.ofInt_toInt]

theorem mul_one (a : Value) : mul a 65536 = a := by
  obtain ⟨-, z, hz, hproduct⟩ := mul_nearest a 65536
  rw [hproduct, hz.unique (by decide) (.of_mul (by decide) a.toInt), Int32.ofInt_toInt]

/-! ## Whole pixels -/

theorem isGreatest_floor (a : Value) :
    IsGreatest {v : Int | 64 ∣ v ∧ v ≤ a.toInt} (floor a).toInt := by
  rw [toInt_floor]
  constructor
  · constructor <;> omega
  · rintro v ⟨hdvd, hle⟩
    omega

/-- The last words have no multiple of a pixel above them, and wrap to the least word. -/
theorem exists_isLeast_ceiling (a : Value) :
    ∃ z, IsLeast {v : Int | 64 ∣ v ∧ a.toInt ≤ v} z ∧ ceiling a = Int32.ofInt z := by
  refine ⟨(a.toInt + 63) / 64 * 64, ⟨⟨by omega, by omega⟩, ?_⟩, ?_⟩
  · rintro v ⟨hdvd, hle⟩
    omega
  · have hlow := a.le_toInt
    have hhigh := a.toInt_lt
    have h63 : (63 : Value).toInt = 63 := rfl
    apply Int32.toInt_inj.1
    rw [ceiling, toInt_floor, Int32.toInt_add, h63, Int32.toInt_ofInt]
    simp only [Int.bmod, Int32.size]
    split <;> split <;> omega

end Fixed

/-- Products and whole pixels are exact but for the last step, in which what is no word is reduced
to 32 bits. A product of two operands is rounded to the nearest unit, and so is a product with
the scale that is written to the control value table. Nothing on the way to them leaves 64 bits. So
the operands of a product can be exchanged, and a whole pixel changes nothing, nor does a scale of
one. Rounding down and up leads to the next whole pixel. -/
theorem products_rounded_once (site : Site) (ins : Instruction) (w : Workspace)
    (hroom : w.stack.hasRoom 0 = true) :
    (∀ a b rest, ins.opcode = .mul → w.stack.values = b :: a :: rest →
      ins.execute site w = .ok () (w.replaced 2 (Fixed.mulDiv a b 64)) ∧
      (∃ z, IsNearestQuotient (a.toInt * b.toInt) 64 z ∧ Fixed.mulDiv a b 64 = Int32.ofInt z) ∧
      Fixed.mulDiv? a b 64 = some (Fixed.mulDiv a b 64) ∧
      Fixed.mulDiv b a 64 = Fixed.mulDiv a b 64 ∧ Fixed.mulDiv a 64 64 = a) ∧
    (∀ v l rest, ins.opcode = .wcvtf → w.stack.values = v :: l :: rest →
      ∀ hl : l.location < w.cvt.values.size,
        let scaled := Fixed.mul v site.font.scale
        ins.execute site w = .ok ()
          ((w.popped 2).withCells .cvt ⟨w.cvt.values.set l.location scaled hl⟩) ∧
        (∃ z, IsNearestQuotient (v.toInt * site.font.scale.toInt) 65536 z ∧
          scaled = Int32.ofInt z) ∧
        Fixed.mul? v site.font.scale = some scaled ∧ (site.font.scale = 65536 → scaled = v)) ∧
    (∀ a rest, ins.opcode = .floor → w.stack.values = a :: rest →
      ins.execute site w = .ok () (w.replaced 1 (Fixed.floor a)) ∧
      IsGreatest {v : Int | 64 ∣ v ∧ v ≤ a.toInt} (Fixed.floor a).toInt) ∧
    ∀ a rest, ins.opcode = .ceiling → w.stack.values = a :: rest →
      ins.execute site w = .ok () (w.replaced 1 (Fixed.ceiling a)) ∧
      ∃ z, IsLeast {v : Int | 64 ∣ v ∧ a.toInt ≤ v} z ∧ Fixed.ceiling a = Int32.ofInt z := by
  refine ⟨fun a b rest hop hvalues => ?_, fun v l rest hop hvalues hl => ?_,
    fun a rest hop hvalues => ?_, fun a rest hop hvalues => ?_⟩
  · have hmul : ins.opcode.operation = .binary .mul := by rw [hop]; rfl
    obtain ⟨hfound, hnearest⟩ := Fixed.mulDiv_nearest a b
    exact ⟨Instruction.execute_binary hmul hvalues hroom site, hnearest, hfound,
      Fixed.mulDiv_comm a b, Fixed.mulDiv_one a⟩
  · have hwrite : ins.opcode.write? site.font.scale =
        some (.cvt, fun v => Fixed.mul v site.font.scale) := by rw [hop]; rfl
    obtain ⟨hfound, hnearest⟩ := Fixed.mul_nearest v site.font.scale
    refine ⟨?_, hnearest, hfound, fun hone => ?_⟩
    · rw [Instruction.execute_of_write? hwrite hvalues]
      exact dif_pos hl
    · rw [hone]
      exact Fixed.mul_one v
  · have hfloor : ins.opcode.operation = .unary .floor := by rw [hop]; rfl
    exact ⟨Instruction.execute_unary hfloor hvalues hroom site, Fixed.isGreatest_floor a⟩
  · have hceiling : ins.opcode.operation = .unary .ceiling := by rw [hop]; rfl
    exact ⟨Instruction.execute_unary hceiling hvalues hroom site, Fixed.exists_isLeast_ceiling a⟩

/-- A workspace with one control value, and with the given operands, bottom first, on a stack that
has no room for more than two. -/
def multiplying (operands : List Value) : Workspace :=
  { stack := (OperandStack.empty (some 2)).append operands
    storage := .zeros 0
    cvt := .zeros 1 }

/-- The site of an instruction in a font that is drawn at half its size. -/
def halfScaleSite : Site :=
  { font := { ({} : Options).toFontInstance with scale := 32768 }, sequence := #[], index := 0 }

/-- Half a unit below zero is rounded to the whole one by both products, and the greatest word is
rounded up to the least one. -/
theorem products_rounded_once_halves :
    (⟨.mul, [], 0⟩ : Instruction).execute halfScaleSite (multiplying [-1, 32]) =
        .ok () ((multiplying [-1, 32]).replaced 2 (-1)) ∧
      (∃ w, (⟨.wcvtf, [], 0⟩ : Instruction).execute halfScaleSite (multiplying [0, -1]) =
        .ok () w ∧ w.cvt.values = #[-1]) ∧
      IsGreatest {v : Int | 64 ∣ v ∧ v ≤ -1} (-64) ∧
      (⟨.ceiling, [], 0⟩ : Instruction).execute halfScaleSite (multiplying [0x7FFFFFFF]) =
        .ok () ((multiplying [0x7FFFFFFF]).replaced 1 Int32.minValue) := by
  obtain ⟨hmul, -⟩ := products_rounded_once halfScaleSite ⟨.mul, [], 0⟩ (multiplying [-1, 32]) rfl
  obtain ⟨-, hwcvtf, -⟩ :=
    products_rounded_once halfScaleSite ⟨.wcvtf, [], 0⟩ (multiplying [0, -1]) rfl
  obtain ⟨-, -, hfloor, -⟩ :=
    products_rounded_once halfScaleSite ⟨.floor, [], 0⟩ (multiplying [-1]) rfl
  obtain ⟨-, -, -, hceiling⟩ :=
    products_rounded_once halfScaleSite ⟨.ceiling, [], 0⟩ (multiplying [0x7FFFFFFF]) rfl
  have hproduct : Fixed.mulDiv (-1) 32 64 = -1 := by decide
  have hlast : Fixed.ceiling 0x7FFFFFFF = Int32.minValue := by decide
  refine ⟨?_, ⟨_, (hwcvtf (-1) 0 [] rfl rfl (by decide)).1, by decide⟩,
    (hfloor (-1) [] rfl rfl).2, ?_⟩
  · rw [(hmul (-1) 32 [] rfl rfl).1, hproduct]
  · rw [(hceiling 0x7FFFFFFF [] rfl rfl).1, hlast]

end GridFit
