import GridFit.Bytes.Hex
import Mathlib.Algebra.Group.Nat.Even
import Mathlib.Data.List.Induction

/-!
# Reading hexadecimal text

What is left of a text without its blanks decides how it is read. It stands for bytes if it
consists of pairs of digits, and lower-cased it is then the text that these bytes are written
as. Otherwise the first character that is no digit is at fault, and the number of digits only
if there is no such character.

## Implementation notes

A character stands for a digit if the lower-case character does (`digit?_eq_some_iff`). The
characters of ASCII are checked one by one. A character outside of ASCII is not a digit, and
does not become one when it is lower-cased.
-/

namespace GridFit

namespace Hex

/-- The characters of a text that are not blank. -/
def remaining (text : String) : List Char :=
  text.toList.filter (· ∉ [' ', '\t', '\n', '\x0c', '\r'])

/-- A hexadecimal digit of either case. -/
def IsDigit (c : Char) : Prop :=
  ('0' ≤ c ∧ c ≤ '9') ∨ ('a' ≤ c ∧ c ≤ 'f') ∨ ('A' ≤ c ∧ c ≤ 'F')

/-- It can be decided whether a character is a digit. -/
instance : DecidablePred IsDigit := fun c =>
  inferInstanceAs (Decidable (('0' ≤ c ∧ c ≤ '9') ∨ ('a' ≤ c ∧ c ≤ 'f') ∨ ('A' ≤ c ∧ c ≤ 'F')))

/-- The two digits of a byte, the high one first. -/
def halves (b : UInt8) : List UInt8 :=
  [b / 16, b % 16]

variable {c : Char} {cs : List Char} {n : UInt8} {ds bytes : List UInt8} {text : String}

/-! ## Digits -/

theorem digit?_ofNat_eq_some_iff : ∀ k < 128, ∀ n < 16,
    digit? (Char.ofNat k) = some (UInt8.ofNat n) ↔
      (Char.ofNat k).toLower = digitChar (UInt8.ofNat n) := by
  decide +kernel

theorem digit?_ofNat_lt : ∀ k < 128, ∀ n ∈ digit? (Char.ofNat k), n < 16 := by
  decide +kernel

theorem toNat_digitChar_lt : ∀ n < 16, (digitChar (UInt8.ofNat n)).toNat < 128 := by
  decide +kernel

/-- There are no digits outside of ASCII. -/
theorem digit?_eq_none_of_le (h : 128 ≤ c.toNat) : digit? c = none := by
  have hnot (d : Char) (hd : d.toNat < 128) : ¬c ≤ d := by
    rw [Char.le_def, UInt32.le_iff_toNat_le]
    exact Nat.not_le.2 (Nat.lt_of_lt_of_le hd h)
  simp [digit?, hnot '9' (by decide), hnot 'f' (by decide), hnot 'F' (by decide)]

/-- Only letters of ASCII are lower-cased. -/
theorem toLower_eq_of_le (h : 128 ≤ c.toNat) : c.toLower = c := by
  refine dif_neg fun hupper => ?_
  exact absurd (UInt32.le_iff_toNat_le.1 hupper.2) (Nat.not_le.2 (Nat.lt_of_lt_of_le (by decide) h))

/-- A character has a value if it is the digit of this value once it is lower-cased. -/
theorem digit?_eq_some_iff : digit? c = some n ↔ n < 16 ∧ c.toLower = digitChar n := by
  rcases Nat.lt_or_ge c.toNat 128 with hascii | hascii
  · have hlt := digit?_ofNat_lt c.toNat hascii n
    have hiff := digit?_ofNat_eq_some_iff c.toNat hascii n.toNat
    rw [Char.ofNat_toNat] at hlt hiff
    rw [UInt8.ofNat_toNat] at hiff
    constructor
    · intro h
      exact ⟨hlt h, (hiff (UInt8.lt_iff_toNat_lt.1 (hlt h))).1 h⟩
    · rintro ⟨hn, h⟩
      exact (hiff (UInt8.lt_iff_toNat_lt.1 hn)).2 h
  · rw [digit?_eq_none_of_le hascii, toLower_eq_of_le hascii]
    constructor
    · intro h
      cases h
    · rintro ⟨hn, rfl⟩
      have hdigit := toNat_digitChar_lt n.toNat (UInt8.lt_iff_toNat_lt.1 hn)
      rw [UInt8.ofNat_toNat] at hdigit
      exact absurd hascii (Nat.not_le.2 hdigit)

/-- The digits are the characters that have a value. -/
theorem isDigit_iff : IsDigit c ↔ ∃ n, digit? c = some n := by
  rw [IsDigit, digit?]
  by_cases hdecimal : '0' ≤ c ∧ c ≤ '9'
  · simp [hdecimal]
  · by_cases hlower : 'a' ≤ c ∧ c ≤ 'f'
    · simp [hdecimal, hlower]
    · simp [hdecimal, hlower]

theorem digit?_eq_none_iff : digit? c = none ↔ ¬IsDigit c := by
  rw [isDigit_iff, Option.eq_none_iff_forall_ne_some, not_exists]

theorem digits_cons_eq_ok_iff : digits (c :: cs) = .ok ds ↔
    ∃ d rest, ds = d :: rest ∧ digit? c = some d ∧ digits cs = .ok rest := by
  rw [digits]
  cases digit? c with
  | none => simp
  | some d => cases digits cs <;> simp [eq_comm]

/-- Characters are read as digits if they are these digits once they are lower-cased. -/
theorem digits_eq_ok_iff :
    digits cs = .ok ds ↔ (∀ d ∈ ds, d < 16) ∧ cs.map Char.toLower = ds.map digitChar := by
  induction cs generalizing ds with
  | nil => cases ds <;> simp [digits]
  | cons c cs ih =>
      rw [digits_cons_eq_ok_iff, List.map_cons]
      constructor
      · rintro ⟨d, rest, rfl, hd, hrest⟩
        obtain ⟨hlt, hlower⟩ := ih.1 hrest
        obtain ⟨hdlt, hdlower⟩ := digit?_eq_some_iff.1 hd
        exact ⟨List.forall_mem_cons.2 ⟨hdlt, hlt⟩, congrArg₂ List.cons hdlower hlower⟩
      · rintro ⟨hlt, hlower⟩
        obtain ⟨d, rest, rfl, hd, hrest⟩ := List.map_eq_cons_iff.1 hlower.symm
        obtain ⟨hdlt, hrestlt⟩ := List.forall_mem_cons.1 hlt
        exact ⟨d, rest, rfl, digit?_eq_some_iff.2 ⟨hdlt, hd.symm⟩, ih.2 ⟨hrestlt, hrest.symm⟩⟩

/-- Reading fails at the first character that is not a digit. -/
theorem digits_eq_error_iff {e : HexError} :
    digits cs = .error e ↔ ∃ c, cs.find? (¬IsDigit ·) = some c ∧ e = .notADigit c := by
  induction cs with
  | nil => simp [digits]
  | cons c cs ih =>
      rw [digits]
      cases hc : digit? c with
      | none => simp [digit?_eq_none_iff.1 hc, eq_comm]
      | some d =>
          rw [List.find?_cons_of_neg (by simpa using isDigit_iff.2 ⟨d, hc⟩), ← ih]
          cases digits cs <;> simp

theorem exists_digits_eq_ok_iff : (∃ ds, digits cs = .ok ds) ↔ ∀ c ∈ cs, IsDigit c := by
  have herror : (∃ e, digits cs = .error e) ↔ ¬∀ c ∈ cs, IsDigit c := by
    simp [digits_eq_error_iff, ← Option.isSome_iff_exists]
  rw [← not_iff_not, ← herror]
  cases digits cs <;> simp

theorem length_of_digits_eq_ok (h : digits cs = .ok ds) : ds.length = cs.length := by
  have hlower := congrArg List.length (digits_eq_ok_iff.1 h).2
  rwa [List.length_map, List.length_map, eq_comm] at hlower

/-! ## Pairs -/

/-- A byte is joined from its halves. -/
theorem high_mul_add_low (b : UInt8) : b / 16 * 16 + b % 16 = b := by
  rw [← UInt8.toNat_inj, UInt8.toNat_add, UInt8.toNat_mul, UInt8.toNat_div, UInt8.toNat_mod]
  have hb := b.toNat_lt
  show ((b.toNat / 16 * 16) % 256 + b.toNat % 16) % 256 = b.toNat
  omega

/-- Digits are the halves of the byte that they are joined to. -/
theorem halves_mul_add {high low : UInt8} (hhigh : high < 16) (hlow : low < 16) :
    halves (high * 16 + low) = [high, low] := by
  have hhigh' : high.toNat < 16 := UInt8.lt_iff_toNat_lt.1 hhigh
  have hlow' : low.toNat < 16 := UInt8.lt_iff_toNat_lt.1 hlow
  have hbyte : (high * 16 + low).toNat = high.toNat * 16 + low.toNat := by
    rw [UInt8.toNat_add, UInt8.toNat_mul]
    show (high.toNat * 16 % 256 + low.toNat) % 256 = _
    omega
  have hdiv : (high * 16 + low) / 16 = high := by
    rw [← UInt8.toNat_inj, UInt8.toNat_div, hbyte]
    show (high.toNat * 16 + low.toNat) / 16 = high.toNat
    omega
  have hmod : (high * 16 + low) % 16 = low := by
    rw [← UInt8.toNat_inj, UInt8.toNat_mod, hbyte]
    show (high.toNat * 16 + low.toNat) % 16 = low.toNat
    omega
  rw [halves, hdiv, hmod]

theorem lt_of_mem_flatMap_halves : ∀ d ∈ bytes.flatMap halves, d < 16 := by
  intro d hd
  obtain ⟨b, -, hd⟩ := List.mem_flatMap.1 hd
  simp only [halves, List.mem_cons, List.not_mem_nil, or_false] at hd
  rcases hd with rfl | rfl
  · rw [UInt8.lt_iff_toNat_lt, UInt8.toNat_div]
    exact Nat.div_lt_of_lt_mul b.toNat_lt
  · exact UInt8.mod_lt b (by decide)

/-- Digits are joined to the bytes that they are the halves of. -/
theorem pairs_eq_ok_iff (h : ∀ d ∈ ds, d < 16) :
    pairs ds = .ok bytes ↔ ds = bytes.flatMap halves := by
  constructor
  · intro hpairs
    induction ds using List.twoStepInduction generalizing bytes with
    | nil =>
        cases hpairs
        rfl
    | singleton d => cases hpairs
    | cons_cons high low rest ih _ =>
        obtain ⟨hhigh, hlow, hrest⟩ : high < 16 ∧ low < 16 ∧ ∀ d ∈ rest, d < 16 := by
          simpa only [List.forall_mem_cons] using h
        rw [pairs] at hpairs
        cases hjoined : pairs rest with
        | error e => simp [hjoined] at hpairs
        | ok joined =>
            rw [hjoined] at hpairs
            obtain rfl : (high * 16 + low) :: joined = bytes := Except.ok.inj hpairs
            rw [List.flatMap_cons, halves_mul_add hhigh hlow, ← ih hrest hjoined]
            rfl
  · rintro rfl
    induction bytes with
    | nil => rfl
    | cons b bytes ih =>
        rw [List.flatMap_cons, List.forall_mem_append] at h
        rw [List.flatMap_cons, halves, List.cons_append, List.cons_append, List.nil_append, pairs,
          ih h.2, high_mul_add_low]

/-- Digits cannot be joined just if one is left over. -/
theorem pairs_eq_error_iff {e : HexError} :
    pairs ds = .error e ↔ e = .oddLength ∧ ¬Even ds.length := by
  induction ds using List.twoStepInduction with
  | nil => simp [pairs]
  | singleton d => simp [pairs, eq_comm]
  | cons_cons high low rest ih _ =>
      rw [List.length_cons, List.length_cons, Nat.even_add_one, Nat.even_add_one, not_not, ← ih,
        pairs]
      cases pairs rest <;> simp

/-! ## Texts -/

theorem toList_encode (bytes : List UInt8) :
    (encode bytes).toList = (bytes.flatMap halves).map digitChar := by
  rw [encode, String.toList_ofList, List.map_flatMap]
  rfl

theorem remaining_eq (text : String) :
    text.toList.filter (fun c => !isBlank c) = remaining text := by
  refine List.filter_congr fun c _ => ?_
  simp [isBlank, Bool.beq_eq_decide_eq, Bool.and_assoc]

/-- A text is read as bytes just if what remains of it, lower-cased, is how these are written. -/
theorem decode_eq_ok_iff :
    decode text = .ok bytes ↔ (remaining text).map Char.toLower = (encode bytes).toList := by
  rw [toList_encode, decode, remaining_eq]
  constructor
  · intro h
    cases hdigits : digits (remaining text) with
    | error e => simp [hdigits] at h
    | ok ds =>
        rw [hdigits] at h
        obtain ⟨hlt, hlower⟩ := digits_eq_ok_iff.1 hdigits
        rw [hlower, (pairs_eq_ok_iff hlt).1 h]
  · intro h
    rw [digits_eq_ok_iff.2 ⟨lt_of_mem_flatMap_halves, h⟩]
    exact (pairs_eq_ok_iff lt_of_mem_flatMap_halves).2 rfl

/-- A text is at fault for its first character that is not a digit, and only if there is none for
the number of its digits. -/
theorem decode_eq_error_iff {e : HexError} : decode text = .error e ↔
    (∃ c, (remaining text).find? (¬IsDigit ·) = some c ∧ e = .notADigit c) ∨
      (∀ c ∈ remaining text, IsDigit c) ∧ ¬Even (remaining text).length ∧ e = .oddLength := by
  rw [← digits_eq_error_iff, ← exists_digits_eq_ok_iff, decode, remaining_eq]
  cases hdigits : digits (remaining text) with
  | error e' => simp
  | ok ds =>
      rw [← length_of_digits_eq_ok hdigits]
      simp [pairs_eq_error_iff, and_comm]

theorem decode_eq_notADigit_iff : decode text = .error (.notADigit c) ↔
    (remaining text).find? (¬IsDigit ·) = some c := by
  simp [decode_eq_error_iff]

theorem decode_eq_oddLength_iff : decode text = .error .oddLength ↔
    (∀ c ∈ remaining text, IsDigit c) ∧ ¬Even (remaining text).length := by
  simp [decode_eq_error_iff]

/-- A text stands for bytes if neither a character nor the number of digits is at fault. -/
theorem exists_decode_eq_ok_iff : (∃ bytes, decode text = .ok bytes) ↔
    (∀ c ∈ remaining text, IsDigit c) ∧ Even (remaining text).length := by
  have hdigits : (∃ c, decode text = .error (.notADigit c)) ↔
      ¬∀ c ∈ remaining text, IsDigit c := by
    simp [decode_eq_notADigit_iff, ← Option.isSome_iff_exists]
  rcases hdecode : decode text with (c | _) | bytes
  · have hnot := hdigits.1 ⟨c, hdecode⟩
    exact iff_of_false (fun ⟨_, h⟩ => nomatch h) fun h => hnot h.1
  · have hodd := decode_eq_oddLength_iff.1 hdecode
    exact iff_of_false (fun ⟨_, h⟩ => nomatch h) fun h => hodd.2 h.2
  · have hall : ∀ c ∈ remaining text, IsDigit c := by
      by_contra hnot
      obtain ⟨c, hc⟩ := hdigits.2 hnot
      cases hdecode.symm.trans hc
    have heven : Even (remaining text).length := by
      by_contra hodd
      cases hdecode.symm.trans (decode_eq_oddLength_iff.2 ⟨hall, hodd⟩)
    exact iff_of_true ⟨bytes, rfl⟩ ⟨hall, heven⟩

/-- Hexadecimal text is read exactly. It stands for bytes if its characters that are not blank
are digits of either case and even in number. These are then the bytes that are written as the
lower-cased digits, wherever blanks stand in between. Otherwise the first character that is
neither blank nor a digit is named, and the number of digits is at fault only if there is no
such character. -/
theorem decode_exact (text : String) :
    ((∃ bytes, decode text = .ok bytes) ↔
      (∀ c ∈ remaining text, IsDigit c) ∧ Even (remaining text).length) ∧
    (∀ bytes, decode text = .ok bytes ↔
      (remaining text).map Char.toLower = (encode bytes).toList) ∧
    (∀ c, (decode text = .error (.notADigit c) ↔
        (remaining text).find? (¬IsDigit ·) = some c) ∧
      (HexError.notADigit c).message = "'" ++ String.singleton c ++ "' is not a hex digit") ∧
    (decode text = .error .oddLength ↔
      (∀ c ∈ remaining text, IsDigit c) ∧ ¬Even (remaining text).length) :=
  ⟨exists_decode_eq_ok_iff, fun _ => decode_eq_ok_iff, fun _ => ⟨decode_eq_notADigit_iff, rfl⟩,
    decode_eq_oddLength_iff⟩

/-- Blanks may stand anywhere, also between the digits of a byte. -/
example : decode "b0\t 0\n1 2C2\x0cd" = .ok [0xb0, 0x01, 0x2c, 0x2d] := by
  decide +kernel

/-- A character that does not belong comes before an odd number of digits. -/
example : decode "b0 1x y" = .error (.notADigit 'x') ∧ decode "b0 1" = .error .oddLength := by
  decide +kernel

end Hex

end GridFit
