import Mathlib.Data.List.Basic
import Mathlib.Data.List.TakeWhile

/-!
# Reading texts back

A word is text without spaces and line breaks. A number in decimal digits is read off the front
of a text as far as the digits go, so it has to be followed by something else, or by nothing.
Members with a separator between any two of them are read off one after the other, if the separator
begins with another character than what comes behind the last member. Lines are found again at
their ends.
-/

namespace GridFit

/-! ## Words -/

/-- Text without any space or line break in it. -/
def IsWord (s : String) : Prop :=
  ∀ c ∈ s.toList, c.isWhitespace = false

/-- It can be decided whether a text is a word. -/
instance (s : String) : Decidable (IsWord s) :=
  decidable_of_iff (s.toList.all (fun c => !c.isWhitespace) = true) (by simp [IsWord])

theorem isWord_append {s t : String} : IsWord (s ++ t) ↔ IsWord s ∧ IsWord t := by
  simp only [IsWord, String.toList_append, List.forall_mem_append]

theorem IsWord.space_notMem {s : String} (h : IsWord s) : ' ' ∉ s.toList := fun hmem => by
  cases h ' ' hmem

theorem IsWord.newline_notMem {s : String} (h : IsWord s) : '\n' ∉ s.toList := fun hmem => by
  cases h '\n' hmem

/-! ## Numbers -/

/-- Whether a character can belong to a number in decimal digits. -/
def isNumeric (c : Char) : Bool :=
  c.isDigit || c == '-'

/-- What a text begins with cannot belong to a number. -/
def EndsNumber (s : List Char) : Prop :=
  ∀ c ∈ s.head?, isNumeric c = false

theorem endsNumber_cons {c : Char} {s : List Char} (h : isNumeric c = false) :
    EndsNumber (c :: s) := by
  rintro c' hc'
  obtain rfl : c = c' := Option.some.inj hc'
  exact h

theorem endsNumber_nil : EndsNumber [] := fun _ hc => by
  cases hc

theorem isNumeric_of_mem_toString_nat {n : Nat} {c : Char} (hc : c ∈ (toString n).toList) :
    isNumeric c = true := by
  rw [Nat.toString_eq_repr, Nat.toList_repr] at hc
  simp [isNumeric, Nat.isDigit_of_mem_toDigits (by decide) (by decide) hc]

theorem isNumeric_of_mem_toString_int {n : Int} {c : Char} (hc : c ∈ (toString n).toList) :
    isNumeric c = true := by
  rw [Int.toString_eq_repr, Int.repr_eq_if] at hc
  split at hc
  · exact isNumeric_of_mem_toString_nat hc
  · rw [String.toList_append, List.mem_append] at hc
    rcases hc with hsign | hdigit
    · obtain rfl : c = '-' := List.mem_singleton.1 hsign
      rfl
    · exact isNumeric_of_mem_toString_nat hdigit

theorem toString_nat_injective : Function.Injective fun n : Nat => toString n := by
  intro m n h
  have hdigits := congrArg (fun s : String => Nat.ofDigitChars 10 s.toList 0) h
  simpa [Nat.toList_repr, Nat.ofDigitChars_ten_toDigits] using hdigits

/-- No natural number has a sign in front of it. -/
theorem toString_nat_ne_sign (n : Nat) (s : String) : toString n ≠ "-" ++ s := by
  intro h
  have hsign : '-' ∈ (toString n).toList := by
    rw [h, String.toList_append]
    exact List.mem_append_left _ List.mem_cons_self
  rw [Nat.toString_eq_repr, Nat.toList_repr] at hsign
  cases Nat.isDigit_of_mem_toDigits (by decide) (by decide) hsign

theorem toString_int_injective : Function.Injective fun n : Int => toString n := by
  intro m n h
  simp only [Int.toString_eq_repr, Int.repr_eq_if, ← Nat.toString_eq_repr] at h
  split at h <;> split at h
  · have hnat := toString_nat_injective h
    omega
  · exact absurd h (toString_nat_ne_sign _ _)
  · exact absurd h.symm (toString_nat_ne_sign _ _)
  · have hnat := toString_nat_injective ((String.append_right_inj _).1 h)
    omega

theorem isWhitespace_of_isNumeric {c : Char} (h : isNumeric c = true) :
    c.isWhitespace = false := by
  by_contra hspace
  simp only [Char.isWhitespace, Bool.or_eq_false_iff, decide_eq_false_iff_not, not_and_or,
    not_not] at hspace
  rcases hspace with ((rfl | rfl) | rfl) | rfl <;> cases h

/-- Digits make up a word. -/
theorem isWord_toString_nat (n : Nat) : IsWord (toString n) :=
  fun _ hc => isWhitespace_of_isNumeric (isNumeric_of_mem_toString_nat hc)

/-- Digits make up a word, with a sign as well as without. -/
theorem isWord_toString_int (n : Int) : IsWord (toString n) :=
  fun _ hc => isWhitespace_of_isNumeric (isNumeric_of_mem_toString_int hc)

/-- Texts that could be numbers are the same in front of what cannot belong to them. -/
theorem eq_of_numeric_append_eq {u v s t : List Char} (hu : ∀ c ∈ u, isNumeric c = true)
    (hv : ∀ c ∈ v, isNumeric c = true) (hs : EndsNumber s) (ht : EndsNumber t)
    (h : u ++ s = v ++ t) : u = v ∧ s = t := by
  have htake (w r : List Char) (hw : ∀ c ∈ w, isNumeric c = true) (hr : EndsNumber r) :
      (w ++ r).takeWhile isNumeric = w := by
    rw [List.takeWhile_append_of_pos hw]
    cases r with
    | nil => simp
    | cons c r => simp [hr c rfl]
  have huv : u = v := by rw [← htake u s hu hs, h, htake v t hv ht]
  exact ⟨huv, List.append_cancel_left (huv ▸ h)⟩

/-- A natural number is read off the front of a text. -/
theorem toString_nat_append_inj {m n : Nat} {s t : List Char} (hs : EndsNumber s)
    (ht : EndsNumber t) (h : (toString m).toList ++ s = (toString n).toList ++ t) :
    m = n ∧ s = t := by
  obtain ⟨hmn, hst⟩ := eq_of_numeric_append_eq (fun _ => isNumeric_of_mem_toString_nat)
    (fun _ => isNumeric_of_mem_toString_nat) hs ht h
  exact ⟨toString_nat_injective (String.toList_inj.1 hmn), hst⟩

/-- An integer is read off the front of a text. -/
theorem toString_int_append_inj {m n : Int} {s t : List Char} (hs : EndsNumber s)
    (ht : EndsNumber t) (h : (toString m).toList ++ s = (toString n).toList ++ t) :
    m = n ∧ s = t := by
  obtain ⟨hmn, hst⟩ := eq_of_numeric_append_eq (fun _ => isNumeric_of_mem_toString_int)
    (fun _ => isNumeric_of_mem_toString_int) hs ht h
  exact ⟨toString_int_injective (String.toList_inj.1 hmn), hst⟩

/-- The text of an integer begins with a digit or a sign. -/
theorem exists_toString_int (n : Int) :
    ∃ c rest, (toString n).toList = c :: rest ∧ isNumeric c = true := by
  cases h : (toString n).toList with
  | nil =>
      have hempty : toString n = "" := String.toList_inj.1 h
      rw [Int.toString_eq_repr, Int.repr_eq_if] at hempty
      split at hempty
      · exact absurd hempty (by simp)
      · exact absurd hempty (by simp)
  | cons c rest =>
      exact ⟨c, rest, rfl, isNumeric_of_mem_toString_int (h ▸ List.mem_cons_self)⟩

/-! ## Members -/

section Members

variable {α : Type} {f : α → List Char} {a : α}

/-- The text of a value tells what the value is and where the text ends, in front of anything that
cannot belong to a number. -/
def IsReadable (f : α → List Char) (a : α) : Prop :=
  ∀ b s t, EndsNumber s → EndsNumber t → f a ++ s = f b ++ t → a = b ∧ s = t

theorem exists_intercalate_cons (sep part : List Char) (rest : List (List Char)) :
    ∃ behind, sep.intercalate (part :: rest) = part ++ behind := by
  cases rest with
  | nil => exact ⟨[], by simp⟩
  | cons next rest => exact ⟨sep ++ sep.intercalate (next :: rest), by simp⟩

/-- Members with separators between them are read off one after the other. What comes behind the
last of them begins in another way than a separator. -/
theorem intercalate_append_inj {l l' : List α} {c d : Char} {sep s t : List Char}
    (hread : ∀ a ∈ l, IsReadable f a) (hc : isNumeric c = false) (hd : isNumeric d = false)
    (hne : c ≠ d) (hl : l ≠ []) (hl' : l' ≠ [])
    (h : (c :: sep).intercalate (l.map f) ++ d :: s =
      (c :: sep).intercalate (l'.map f) ++ d :: t) : l = l' ∧ s = t := by
  induction l generalizing l' with
  | nil => exact absurd rfl hl
  | cons a rest ih =>
      obtain ⟨b, rest', rfl⟩ := List.exists_cons_of_ne_nil hl'
      have hfirst := hread a List.mem_cons_self b
      have hrest := fun x hx => hread x (List.mem_cons_of_mem a hx)
      -- Behind a member there is a separator if there are more of them, and otherwise the end.
      match rest, rest' with
      | [], [] =>
          obtain ⟨rfl, hend⟩ := hfirst _ _ (endsNumber_cons hd) (endsNumber_cons hd)
            (by simpa using h)
          exact ⟨rfl, List.tail_eq_of_cons_eq hend⟩
      | [], b' :: more =>
          obtain ⟨-, hend⟩ := hfirst _ _ (endsNumber_cons hd) (endsNumber_cons hc)
            (by simpa [List.append_assoc] using h)
          exact absurd (List.head_eq_of_cons_eq hend).symm hne
      | a' :: more, [] =>
          obtain ⟨-, hend⟩ := hfirst _ _ (endsNumber_cons hc) (endsNumber_cons hd)
            (by simpa [List.append_assoc] using h)
          exact absurd (List.head_eq_of_cons_eq hend) hne
      | a' :: more, b' :: more' =>
          obtain ⟨rfl, hbehind⟩ := hfirst _ _ (endsNumber_cons hc) (endsNumber_cons hc)
            (by simpa [List.append_assoc] using h)
          obtain ⟨hmore, hst⟩ := ih hrest (List.cons_ne_nil _ _) (List.cons_ne_nil _ _)
            (List.append_cancel_left (List.tail_eq_of_cons_eq hbehind))
          exact ⟨congrArg _ hmore, hst⟩

end Members

/-! ## Lines -/

theorem newline_notMem_append {s t : String} (hs : '\n' ∉ s.toList) (ht : '\n' ∉ t.toList) :
    '\n' ∉ (s ++ t).toList := by
  rw [String.toList_append, List.mem_append]
  exact not_or.2 ⟨hs, ht⟩

theorem newline_notMem_intercalate {sep : String} {parts : List String}
    (hsep : '\n' ∉ sep.toList) (h : ∀ part ∈ parts, '\n' ∉ part.toList) :
    '\n' ∉ (sep.intercalate parts).toList := by
  induction parts with
  | nil => simp
  | cons part rest ih =>
      obtain ⟨hpart, hrest⟩ := List.forall_mem_cons.1 h
      cases rest with
      | nil => simpa using hpart
      | cons next rest =>
          rw [String.intercalate_cons_cons]
          exact newline_notMem_append (newline_notMem_append hpart hsep) (ih hrest)

/-- Lines with their ends, one after the other. -/
def unlines (lines : List String) : String :=
  String.join (lines.map fun line => line ++ "\n")

/-- Lines are split at their ends. -/
theorem splitOn_unlines {lines : List String} (h : ∀ line ∈ lines, '\n' ∉ line.toList) :
    (unlines lines).toList.splitOn '\n' = lines.map String.toList ++ [[]] := by
  induction lines with
  | nil => rfl
  | cons line rest ih =>
      obtain ⟨hline, hrest⟩ := List.forall_mem_cons.1 h
      have hend : (line ++ "\n").toList = line.toList ++ ['\n'] := String.toList_append ..
      have htext : (unlines (line :: rest)).toList =
          line.toList ++ '\n' :: (unlines rest).toList := by
        rw [unlines, unlines, String.toList_join, String.toList_join, List.map_cons,
          List.flatMap_cons, hend, List.append_assoc, List.singleton_append]
      rw [htext, List.splitOn_append_cons_self_of_not_mem hline, ih hrest, List.map_cons,
        List.cons_append]

/-- Lines are determined by their text. -/
theorem unlines_inj {lines lines' : List String} (h : ∀ line ∈ lines, '\n' ∉ line.toList)
    (h' : ∀ line ∈ lines', '\n' ∉ line.toList) (heq : unlines lines = unlines lines') :
    lines = lines' := by
  have hsplit := congrArg (fun s => s.toList.splitOn '\n') heq
  simp only [splitOn_unlines h, splitOn_unlines h'] at hsplit
  exact List.map_injective_iff.2 (fun _ _ => String.toList_inj.1)
    (List.append_cancel_right hsplit)

end GridFit
