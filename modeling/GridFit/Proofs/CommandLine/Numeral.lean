import GridFit.CommandLine.Numeral
import Mathlib.Data.List.Basic

/-!
# What numerals spell

A numeral consists of decimal digits, perhaps with a sign in front of them. It is read as the
integer that it spells, or not at all if this integer is not of the type that is asked for.
-/

namespace GridFit.Numeral

variable {cs : List Char} {text : String} {n : Nat} {z : Int}

/-! ## Digits -/

/-- Decimal digits that spell a number. -/
structure IsDecimal (cs : List Char) (n : Nat) : Prop where
  /-- There is a digit. -/
  ne_nil : cs ≠ []
  /-- There is nothing else. -/
  isDigit : ∀ c ∈ cs, c.isDigit = true
  /-- The digits have this value. -/
  value : Nat.ofDigitChars 10 cs 0 = n

/-- The decimal digits of a number spell it. -/
theorem isDecimal_toString (n : Nat) : IsDecimal (toString n).toList n where
  ne_nil := by simp [Nat.toList_repr]
  isDigit c hc := by
    rw [Nat.toString_eq_repr, Nat.toList_repr] at hc
    exact Nat.isDigit_of_mem_toDigits (by decide) (by decide) hc
  value := by rw [Nat.toString_eq_repr, Nat.toList_repr, Nat.ofDigitChars_ten_toDigits]

theorem isDigit_iff {c : Char} : c.isDigit = true ↔ '0' ≤ c ∧ c ≤ '9' := by
  simp [Char.isDigit, Char.le_def]

theorem foldl_addDigit_none (cs : List Char) : cs.foldl addDigit none = none := by
  induction cs with
  | nil => rfl
  | cons c rest ih => exact ih

/-- Adding digits one after the other gives the value of all of them. -/
theorem foldl_addDigit_eq_some_iff {m : Nat} : cs.foldl addDigit (some m) = some n ↔
    (∀ c ∈ cs, c.isDigit = true) ∧ Nat.ofDigitChars 10 cs m = n := by
  induction cs generalizing m with
  | nil => simp
  | cons c rest ih =>
      rw [List.foldl_cons, List.forall_mem_cons, Nat.ofDigitChars_cons, isDigit_iff, addDigit]
      by_cases hc : '0' ≤ c ∧ c ≤ '9'
      · rw [if_pos hc, ih, Nat.mul_comm m 10]
        simp [hc]
      · rw [if_neg hc, foldl_addDigit_none]
        simp [hc]

theorem digits?_eq_some_iff : digits? cs = some n ↔ IsDecimal cs n := by
  unfold digits?
  cases cs with
  | nil => exact ⟨fun h => (by cases h), fun h => absurd rfl h.ne_nil⟩
  | cons c rest =>
      rw [List.isEmpty_cons, if_neg Bool.false_ne_true, foldl_addDigit_eq_some_iff]
      exact ⟨fun ⟨hdigits, hvalue⟩ => ⟨List.cons_ne_nil _ _, hdigits, hvalue⟩,
        fun h => ⟨h.isDigit, h.value⟩⟩

/-- There is no sign among digits. -/
theorem not_isDecimal_cons {c : Char} (hc : c.isDigit = false) : ¬IsDecimal (c :: cs) n :=
  fun h => by
    rw [h.isDigit c List.mem_cons_self] at hc
    cases hc

/-! ## Signs -/

/-- Digits spell an integer, with a sign in front of them or without. -/
inductive Spells : List Char → Int → Prop
  | unsigned {cs : List Char} {n : Nat} (h : IsDecimal cs n) : Spells cs n
  | plus {cs : List Char} {n : Nat} (h : IsDecimal cs n) : Spells ('+' :: cs) n
  | minus {cs : List Char} {n : Nat} (h : IsDecimal cs n) : Spells ('-' :: cs) (-n)

/-- The usual text of an integer spells it. -/
theorem spells_toString (z : Int) : Spells (toString z).toList z := by
  rw [Int.toString_eq_repr, Int.repr_eq_if]
  split
  · next hz =>
      have hdecimal := Spells.unsigned (isDecimal_toString z.toNat)
      rwa [Int.toNat_of_nonneg hz] at hdecimal
  · next hz =>
      have hdecimal := Spells.minus (isDecimal_toString (-z).toNat)
      rw [Int.toNat_of_nonneg (by omega), Int.neg_neg] at hdecimal
      simpa using hdecimal

theorem signed?_eq_some_iff : signed? text = some z ↔ Spells text.toList z := by
  unfold signed?
  split
  · next cs hcs =>
      simp only [hcs, Option.map_eq_some_iff, digits?_eq_some_iff]
      constructor
      · rintro ⟨n, hn, rfl⟩
        exact .minus hn
      · rintro (h | h | h)
        · exact absurd h (not_isDecimal_cons rfl)
        · exact ⟨_, h, rfl⟩
  · next cs hcs =>
      simp only [hcs, Option.map_eq_some_iff, digits?_eq_some_iff]
      constructor
      · rintro ⟨n, hn, rfl⟩
        exact .plus hn
      · rintro (h | h | h)
        · exact absurd h (not_isDecimal_cons rfl)
        · exact ⟨_, h, rfl⟩
  · next hminus hplus =>
      simp only [Option.map_eq_some_iff, digits?_eq_some_iff]
      constructor
      · rintro ⟨n, hn, rfl⟩
        exact .unsigned hn
      · intro h
        generalize hcs : text.toList = cs at h hminus hplus
        cases h with
        | unsigned h => exact ⟨_, h, rfl⟩
        | plus h => exact absurd rfl (hplus _)
        | minus h => exact absurd rfl (hminus _)

/-! ## Types -/

/-- A text spells a value. -/
def SpellsValue (text : String) (v : Value) : Prop :=
  Spells text.toList v.toInt

/-- A text spells a number of 16 bits. -/
def SpellsUInt16 (text : String) (n : UInt16) : Prop :=
  Spells text.toList n.toNat

/-- A text spells a size: a number of at most 64 bits without a minus sign. -/
structure SpellsSize (text : String) (n : Nat) : Prop where
  /-- The number is spelled. -/
  spells : IsDecimal text.toList n ∨ ∃ digits, text.toList = '+' :: digits ∧ IsDecimal digits n
  /-- The number has at most 64 bits. -/
  lt : n < 0x10000000000000000

theorem value?_eq_some_iff {v : Value} : value? text = some v ↔ SpellsValue text v := by
  simp only [SpellsValue, ← signed?_eq_some_iff, value?, bind, Option.bind_eq_some_iff]
  constructor
  · rintro ⟨z, hz, hv⟩
    split at hv
    · next hrange =>
        cases hv
        rw [hz, Int32.toInt_ofInt_of_le hrange.1 (by omega)]
    · cases hv
  · intro h
    exact ⟨_, h, by rw [if_pos ⟨v.le_toInt, v.toInt_le⟩, Int32.ofInt_toInt]⟩

theorem uint16?_eq_some_iff {n : UInt16} : uint16? text = some n ↔ SpellsUInt16 text n := by
  simp only [SpellsUInt16, ← signed?_eq_some_iff, uint16?, bind, Option.bind_eq_some_iff]
  constructor
  · rintro ⟨z, hz, hn⟩
    split at hn
    · next hrange =>
        cases hn
        have hlt : z.toNat < UInt16.size := by
          have hsize : UInt16.size = 65536 := rfl
          omega
        rw [hz, UInt16.toNat_ofNat_of_lt' hlt, Int.toNat_of_nonneg hrange.1]
    · cases hn
  · intro h
    have hlt := n.toNat_lt
    have hrange : 0 ≤ (n.toNat : Int) ∧ (n.toNat : Int) ≤ 65535 := by omega
    exact ⟨_, h, by rw [if_pos hrange, Int.toNat_natCast, UInt16.ofNat_toNat]⟩

theorem unsigned?_eq_some_iff : unsigned? text = some n ↔
    IsDecimal text.toList n ∨ ∃ digits, text.toList = '+' :: digits ∧ IsDecimal digits n := by
  unfold unsigned?
  split
  · next cs hcs => simp [hcs, digits?_eq_some_iff, not_isDecimal_cons (c := '+') rfl]
  · next hplus =>
      rw [digits?_eq_some_iff]
      exact ⟨.inl, fun h => h.resolve_right fun ⟨digits, hdigits, _⟩ => hplus _ hdigits⟩

theorem size?_eq_some_iff : size? text = some n ↔ SpellsSize text n := by
  simp only [size?, bind, Option.bind_eq_some_iff, unsigned?_eq_some_iff]
  constructor
  · rintro ⟨m, hm, hn⟩
    split at hn
    · next hlt =>
        cases hn
        exact ⟨hm, hlt⟩
    · cases hn
  · rintro ⟨hspells, hlt⟩
    exact ⟨n, hspells, if_pos hlt⟩

end GridFit.Numeral
