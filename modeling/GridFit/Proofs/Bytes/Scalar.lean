import GridFit.Bytes.Scalar
import Mathlib.Algebra.Order.Ring.Int
import Mathlib.Tactic.Ring

/-!
# The numbers that bytes stand for

In place-value notation every byte counts for a power of 256, the first one for the highest. In
two's complement bytes with the highest bit set stand for what they spell less the number of all
values. A number is written with one byte for every power, the lowest one of the quotient rounded
down. What is added in higher places is not seen there, so a negative number is written with the
bytes that stand for it.
-/

namespace GridFit

namespace Scalar

variable {t : Scalar} {bytes : List UInt8}

/-- The number that bytes spell, every byte counting for its place. -/
def placeValue : List UInt8 → Nat
  | [] => 0
  | b :: rest => b.toNat * 256 ^ rest.length + placeValue rest

/-- The number that bytes stand for. In two's complement those with the highest bit set stand for
negative numbers. -/
def value (t : Scalar) (bytes : List UInt8) : Int :=
  if t.isSigned ∧ 128 ≤ bytes.headD 0 then (placeValue bytes : Int) - 256 ^ bytes.length
  else placeValue bytes

theorem value_uint8 (b : UInt8) : uint8.value [b] = b.toNat := by
  simp [value, isSigned, placeValue]

/-- The lowest bytes of a number in base 256, the highest of them first. -/
def bigEndian : Nat → Int → List UInt8
  | 0, _ => []
  | n + 1, v => UInt8.ofInt (v / 256 ^ n) :: bigEndian n v

/-- The bytes that a number is written with. -/
def encode (t : Scalar) (v : Int) : List UInt8 :=
  bigEndian t.size v

/-! ## Reading -/

theorem placeValue_lt (bytes : List UInt8) : placeValue bytes < 256 ^ bytes.length := by
  induction bytes with
  | nil => decide
  | cons b rest ih =>
      have hb : b.toNat + 1 ≤ 256 := b.toNat_lt
      calc b.toNat * 256 ^ rest.length + placeValue rest
          < (b.toNat + 1) * 256 ^ rest.length := by rw [Nat.add_mul, Nat.one_mul]; omega
        _ ≤ 256 * 256 ^ rest.length := Nat.mul_le_mul_right _ hb
        _ = 256 ^ (rest.length + 1) := (Nat.pow_succ').symm

/-- Bytes that are read one after the other raise what was read before them to a higher place. -/
theorem foldl_eq_placeValue (bytes : List UInt8) (k : Nat) :
    bytes.foldl (fun n b => n * 256 + b.toNat) k = k * 256 ^ bytes.length + placeValue bytes := by
  induction bytes generalizing k with
  | nil => simp [placeValue]
  | cons b rest ih =>
      rw [List.foldl_cons, ih, List.length_cons, placeValue]
      ring

theorem unsigned_eq_placeValue (bytes : List UInt8) : unsigned bytes = placeValue bytes := by
  rw [unsigned, foldl_eq_placeValue, Nat.zero_mul, Nat.zero_add]

/-- The number that bytes spell is in the lower half just if the highest bit is not set. -/
theorem two_mul_placeValue_lt_iff (b : UInt8) (rest : List UInt8) :
    2 * placeValue (b :: rest) < 256 ^ (rest.length + 1) ↔ b < 128 := by
  have hrest := placeValue_lt rest
  rw [UInt8.lt_iff_toNat_lt, show (128 : UInt8).toNat = 128 from rfl, placeValue, Nat.pow_succ']
  generalize 256 ^ rest.length = place at hrest ⊢
  constructor
  · intro h
    by_contra hb
    have hle := Nat.mul_le_mul_right place (Nat.not_lt.1 hb)
    omega
  · intro hb
    have hle := Nat.mul_le_mul_right place (Nat.le_of_lt_succ hb)
    omega

/-- The number that bytes spell is brought into the signed range by taking off the number of all
values if the highest bit is set. -/
theorem bmod_placeValue (hne : bytes ≠ []) :
    Int.bmod (placeValue bytes) (256 ^ bytes.length) =
      if 128 ≤ bytes.headD 0 then (placeValue bytes : Int) - 256 ^ bytes.length
      else placeValue bytes := by
  obtain ⟨b, rest, rfl⟩ := List.exists_cons_of_ne_nil hne
  have hlt := placeValue_lt (b :: rest)
  have hhalf := two_mul_placeValue_lt_iff b rest
  have heven : 256 ^ (rest.length + 1) = 2 * (128 * 256 ^ rest.length) := by
    rw [Nat.pow_succ']
    ring
  rw [List.length_cons] at hlt ⊢
  rw [List.headD_cons, Int.bmod_def, Int.emod_eq_of_lt (by omega) (by exact_mod_cast hlt)]
  by_cases hb : b < 128
  · rw [if_neg (UInt8.not_le.2 hb), if_pos]
    have := hhalf.2 hb
    omega
  · rw [if_pos (UInt8.not_lt.1 hb), if_neg]
    · push_cast
      rfl
    · have := mt hhalf.1 hb
      omega

theorem cardinality_eq (t : Scalar) : t.cardinality = 256 ^ t.size := by
  cases t <;> rfl

theorem size_pos (t : Scalar) : 0 < t.size := by
  cases t <;> decide

/-- Exactly as many bytes as a scalar occupies are read, as the number that they stand for. -/
theorem decode?_of_length (h : bytes.length = t.size) : t.decode? bytes = some (t.value bytes) := by
  have hne : bytes ≠ [] := List.ne_nil_of_length_pos (h ▸ t.size_pos)
  rw [decode?, if_pos h, unsigned_eq_placeValue, cardinality_eq, ← h, bmod_placeValue hne, value]
  cases t.isSigned <;> simp

/-! ## Writing -/

theorem ofInt_toNat_add_mul (b : UInt8) (m : Int) : UInt8.ofInt (b.toNat + m * 256) = b := by
  have hb := b.toNat_lt
  apply UInt8.toNat_inj.1
  rw [UInt8.ofInt, UInt8.toNat_ofNat']
  omega

/-- The number that bytes spell is written with these bytes, whatever is added in higher places. -/
theorem bigEndian_placeValue_add (bytes : List UInt8) (m : Int) :
    bigEndian bytes.length (placeValue bytes + m * 256 ^ bytes.length) = bytes := by
  induction bytes generalizing m with
  | nil => rfl
  | cons b rest ih =>
      have hrest : (placeValue rest : Int) < 256 ^ rest.length := by
        exact_mod_cast placeValue_lt rest
      have hplace : (256 : Int) ^ rest.length ≠ 0 := pow_ne_zero _ (by decide)
      -- For the other bytes the first one is a part of what is added in higher places.
      have habove : ((placeValue (b :: rest) : Nat) : Int) + m * 256 ^ (b :: rest).length =
          placeValue rest + (b.toNat + m * 256) * 256 ^ rest.length := by
        rw [placeValue, List.length_cons]
        push_cast
        ring
      have hhigh : (placeValue rest + (b.toNat + m * 256) * 256 ^ rest.length : Int) /
          256 ^ rest.length = b.toNat + m * 256 := by
        rw [Int.add_mul_ediv_right _ _ hplace, Int.ediv_eq_zero_of_lt (by omega) hrest,
          Int.zero_add]
      rw [habove, List.length_cons, bigEndian, hhigh, ofInt_toNat_add_mul, ih]

/-- The number that bytes stand for is written with these bytes. -/
theorem encode_value (h : bytes.length = t.size) : t.encode (t.value bytes) = bytes := by
  rw [encode, ← h, value]
  split
  · simpa [sub_eq_add_neg] using bigEndian_placeValue_add bytes (-1)
  · simpa using bigEndian_placeValue_add bytes 0

/-- A set highest bit counts negatively, and all bits set stand for minus one. -/
example : int16.value [0x80, 0x01] = -32767 ∧ int32.value [0xFF, 0xFF, 0xFF, 0xFF] = -1 ∧
    uint16.value [0x80, 0x01] = 32769 := by
  decide

end Scalar

end GridFit
