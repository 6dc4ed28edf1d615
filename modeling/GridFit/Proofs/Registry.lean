import GridFit.Registry
import Mathlib.Data.List.Basic

/-!
# Entries of a registry

What the operations of a registry do to its entries. A property of all definitions is
kept if the definition that an operation leaves for its key has it. The keys are those of a map
without any order, sorted, and there are never more of them than the limit allows. What is said of
keys and definitions also says exactly when an operation fails.
-/

namespace GridFit.Registry

variable {r r' : Registry} {key : Value} {ins : Instruction}

/-- A definition that is found is one of the entries. -/
theorem mem_of_find? {d : Definition} (h : r.find? key = some d) : (key, d) ∈ r.entries := by
  obtain ⟨⟨k, e⟩, hfind, rfl⟩ := Option.map_eq_some_iff.1 h
  obtain rfl : k = key := by simpa using List.find?_some hfind
  exact List.mem_of_find?_eq_some hfind

/-- Looking up a key succeeds with its closed definition. -/
theorem get_eq_ok_iff {d : Definition} :
    r.get key = .ok d ↔ r.find? key = some d ∧ d.isClosed = true := by
  constructor
  · intro h
    unfold get at h
    split at h
    · next e hfind =>
        split at h
        · next hclosed =>
            cases h
            exact ⟨hfind, hclosed⟩
        · cases h
    · cases h
  · rintro ⟨hfind, hclosed⟩
    simp only [Registry.get, hfind, hclosed, if_true]

/-- A closed definition that is looked up is one of the entries. -/
theorem mem_of_get {d : Definition} (h : r.get key = .ok d) : (key, d) ∈ r.entries :=
  mem_of_find? (get_eq_ok_iff.1 h).1

/-- An entry that has been inserted is found. -/
theorem find?_replace (r : Registry) (key : Value) (d : Definition) :
    (r.replace key d).find? key = some d := by
  have hfind : (insertEntry key d r.entries).find? (fun entry => entry.1 == key) =
      some (key, d) := by
    induction r.entries with
    | nil => simp [insertEntry]
    | cons first rest ih =>
        simp only [insertEntry]
        split
        · simp
        · split
          · simp
          · next hne => simpa [Ne.symm hne] using ih
  simp [find?, replace, hfind]

/-- Replacing the definition of a key leaves those of other keys alone. -/
theorem find?_replace_of_ne (r : Registry) {key other : Value} (d : Definition)
    (hne : other ≠ key) : (r.replace key d).find? other = r.find? other := by
  have hfind : (insertEntry key d r.entries).find? (fun entry => entry.1 == other) =
      r.entries.find? fun entry => entry.1 == other := by
    induction r.entries with
    | nil => simp [insertEntry, Ne.symm hne]
    | cons first rest ih =>
        simp only [insertEntry]
        split
        · simp [Ne.symm hne]
        · split
          · next heq => simp [← heq, Ne.symm hne]
          · simp only [List.find?_cons, ih]
  simp only [find?, replace, hfind]

/-- Of two replacements of the same key, the second one counts. -/
theorem replace_replace (r : Registry) (key : Value) (d e : Definition) :
    (r.replace key e).replace key d = r.replace key d := by
  have hentries : insertEntry key d (insertEntry key e r.entries) =
      insertEntry key d r.entries := by
    induction r.entries with
    | nil => simp [insertEntry]
    | cons first rest ih =>
        simp only [insertEntry]
        split
        · simp [insertEntry]
        · split
          · simp [insertEntry]
          · next hlt hne => simp only [insertEntry, if_neg hlt, if_neg hne, ih]
  simp only [replace, hentries]

theorem insertEntry_comm {other : Value} (hne : key ≠ other) (d e : Definition)
    (entries : List (Value × Definition)) :
    insertEntry key d (insertEntry other e entries) =
      insertEntry other e (insertEntry key d entries) := by
  induction entries with
  | nil => grind [insertEntry]
  | cons first rest ih => grind [insertEntry]

/-- Replacements of different keys can change places. -/
theorem replace_comm (r : Registry) {other : Value} (hne : key ≠ other) (d e : Definition) :
    (r.replace other e).replace key d = (r.replace key d).replace other e := by
  simp only [replace, insertEntry_comm hne]

/-- Recording appends to the definition that was found. -/
theorem eq_replace_of_record (h : r.record key ins = .ok r') :
    ∃ d, r.find? key = some d ∧ r' = r.replace key { d with body := d.body.push ins } := by
  unfold Registry.record at h
  split at h
  · next d hfind =>
      split at h
      · cases h
      · cases h
        exact ⟨d, hfind, rfl⟩
  · cases h

/-- Closing closes the definition that was found. -/
theorem eq_replace_of_close (h : r.close key = .ok r') :
    ∃ d, r.find? key = some d ∧ r' = r.replace key { d with isClosed := true } := by
  unfold Registry.close at h
  split at h
  · next d hfind =>
      cases h
      exact ⟨d, hfind, rfl⟩
  · cases h

/-- Inserting replaces the definition of the key by an empty one. -/
theorem eq_replace_of_insert (h : r.insert key = .ok r') : r' = r.replace key {} := by
  unfold Registry.insert at h
  split at h
  · cases h
  · cases h
    rfl

/-- Inserting leaves an empty definition. -/
theorem find?_insert (h : r.insert key = .ok r') : r'.find? key = some {} := by
  rw [eq_replace_of_insert h]
  exact find?_replace r key {}

/-- Inserting fails for want of room only. -/
theorem eq_of_insert_error {fault : Fault} (h : r.insert key = .error fault) :
    fault = .tooManyDefinitions := by
  unfold Registry.insert at h
  split at h
  · cases h
    rfl
  · cases h

/-- Recording, closing and looking up fail for want of a definition only. -/
theorem eq_of_record_error {fault : Fault} (h : r.record key ins = .error fault) :
    fault = .undefinedFunction key := by
  unfold Registry.record at h
  split at h
  · split at h <;> cases h
    rfl
  · cases h
    rfl

theorem eq_of_close_error {fault : Fault} (h : r.close key = .error fault) :
    fault = .undefinedFunction key := by
  unfold Registry.close at h
  split at h <;> cases h
  rfl

theorem eq_of_get_error {fault : Fault} (h : r.get key = .error fault) :
    fault = .undefinedFunction key := by
  unfold Registry.get at h
  split at h
  · split at h <;> cases h
    rfl
  · cases h
    rfl

/-- An open definition can be recorded into. -/
theorem record_of_find? {d : Definition} (hfind : r.find? key = some d)
    (hopen : d.isClosed = false) (ins : Instruction) :
    r.record key ins = .ok (r.replace key { d with body := d.body.push ins }) := by
  simp only [Registry.record, hfind, hopen, Bool.false_eq_true, if_false]

/-- A definition can be closed. -/
theorem close_of_find? {d : Definition} (hfind : r.find? key = some d) :
    r.close key = .ok (r.replace key { d with isClosed := true }) := by
  simp only [Registry.close, hfind]

/-- An open definition is not found by looking up its key. -/
theorem get_of_isClosed_eq_false {d : Definition} (hfind : r.find? key = some d)
    (hopen : d.isClosed = false) : r.get key = .error (.undefinedFunction key) := by
  simp only [Registry.get, hfind, hopen, Bool.false_eq_true, if_false]

/-- Whether all definitions of a registry have a property. -/
def Forall (P : Value → Definition → Prop) (r : Registry) : Prop :=
  ∀ entry ∈ r.entries, P entry.1 entry.2

namespace Forall

variable {P : Value → Definition → Prop}

theorem replace (h : r.Forall P) {d : Definition} (hd : P key d) :
    (r.replace key d).Forall P := by
  intro entry hentry
  rcases mem_insertEntry hentry with rfl | hentry
  · exact hd
  · exact h entry hentry

theorem insert (h : r.Forall P) (hinsert : r.insert key = .ok r') (hd : P key {}) :
    r'.Forall P := by
  rw [eq_replace_of_insert hinsert]
  exact h.replace hd

theorem record (h : r.Forall P) (hrecord : r.record key ins = .ok r')
    (hd : ∀ d, r.find? key = some d → P key d → P key { d with body := d.body.push ins }) :
    r'.Forall P := by
  obtain ⟨d, hfind, rfl⟩ := eq_replace_of_record hrecord
  exact h.replace (hd d hfind (h _ (mem_of_find? hfind)))

theorem close (h : r.Forall P) (hclose : r.close key = .ok r')
    (hd : ∀ d, P key d → P key { d with isClosed := true }) : r'.Forall P := by
  obtain ⟨d, hfind, rfl⟩ := eq_replace_of_close hclose
  exact h.replace (hd d (h _ (mem_of_find? hfind)))

end Forall

/-! ## Keys -/

/-- A key has a definition if it is listed. -/
theorem contains_iff : r.contains key = true ↔ key ∈ r.keys := by
  simp [contains, find?, keys, List.find?_isSome]

/-- An insertion adds no more than one entry, and none for a key that is listed already. -/
theorem length_insertEntry {d : Definition} {entries : List (Value × Definition)}
    (h : entries.Pairwise fun a b => a.1 < b.1) :
    (insertEntry key d entries).length =
      if key ∈ entries.map Prod.fst then entries.length else entries.length + 1 := by
  induction entries with
  | nil => rfl
  | cons first rest ih =>
      obtain ⟨hfirst, hrest⟩ := List.pairwise_cons.1 h
      simp only [insertEntry]
      split
      · next hlt =>
          have hnot : key ∉ (first :: rest).map Prod.fst := by
            intro hmem
            obtain ⟨entry, hentry, rfl⟩ := List.mem_map.1 hmem
            rcases List.mem_cons.1 hentry with rfl | hentry
            · exact Int32.lt_irrefl hlt
            · exact Int32.lt_irrefl (Int32.lt_trans hlt (hfirst entry hentry))
          rw [if_neg hnot]
          rfl
      · split
        · next heq => simp [heq]
        · next hlt hne =>
            simp only [List.length_cons, ih hrest, List.map_cons, List.mem_cons, hne, false_or]
            split <;> rfl

/-- No key is listed for which no definition is found. -/
theorem find?_eq_none_iff : r.find? key = none ↔ key ∉ r.keys := by
  rw [← contains_iff, contains, Bool.not_eq_true, Option.isSome_eq_false_iff,
    Option.isNone_iff_eq_none]

/-- A definition takes room if its key is new. -/
theorem size_replace (r : Registry) (key : Value) (d : Definition) :
    (r.replace key d).size = if key ∈ r.keys then r.size else r.size + 1 :=
  length_insertEntry r.ascending

/-- Every entry is found by its key. -/
theorem find?_of_mem {d : Definition} (hmem : (key, d) ∈ r.entries) : r.find? key = some d := by
  obtain ⟨before, behind, hsplit⟩ := List.append_of_mem hmem
  have hascending := r.ascending
  rw [hsplit, List.pairwise_append] at hascending
  have hbefore : before.find? (fun entry => entry.1 == key) = none := by
    refine List.find?_eq_none.2 fun entry hentry => ?_
    have hlt : entry.1 < key := hascending.2.2 entry hentry (key, d) List.mem_cons_self
    exact fun heq => Int32.lt_irrefl (eq_of_beq heq ▸ hlt)
  rw [find?, hsplit, List.find?_append, hbefore, Option.none_or]
  simp only [List.find?_cons_of_pos, beq_self_eq_true, Option.map_some]

/-- Going through the keys and finding the definition of each gives the entries. -/
theorem iter_eq_entries (r : Registry) : r.iter = r.entries := by
  have hself : ∀ entry ∈ r.entries,
      ((fun key => (r.find? key).map fun d => (key, d)) ∘ Prod.fst) entry = some entry := by
    rintro ⟨key, d⟩ hmem
    rw [Function.comp_apply, find?_of_mem hmem, Option.map_some]
  rw [iter, keys, List.filterMap_map]
  exact (List.filterMap_congr hself).trans List.filterMap_some

theorem pairwise_keys (r : Registry) : r.keys.Pairwise (· < ·) :=
  List.pairwise_map.2 r.ascending

/-- A map that is not in any order gives the keys of a registry once they are sorted. It does not
matter in which order the map lists them. -/
theorem mergeSort_eq_keys {listed : List Value} (hnodup : listed.Nodup)
    (hlisted : ∀ key, key ∈ listed ↔ r.contains key = true) :
    listed.mergeSort (fun a b => decide (a ≤ b)) = r.keys := by
  have hkeys : r.keys.Nodup := r.pairwise_keys.imp Int32.ne_of_lt
  have hperm : listed.Perm r.keys := by
    rw [List.perm_ext_iff_of_nodup hnodup hkeys]
    exact fun key => (hlisted key).trans contains_iff
  have hsorted : (listed.mergeSort fun a b => decide (a ≤ b)).Pairwise
      fun a b => decide (a ≤ b) = true := by
    refine List.pairwise_mergeSort (fun a b c hab hbc => ?_) (fun a b => ?_) listed
    · exact decide_eq_true (Int32.le_trans (of_decide_eq_true hab) (of_decide_eq_true hbc))
    · simpa using Int32.le_total a b
  refine List.Perm.eq_of_pairwise (fun a b _ _ hab hba => ?_) hsorted
    (r.pairwise_keys.imp fun hlt => decide_eq_true (Int32.le_of_lt hlt))
    ((List.mergeSort_perm listed _).trans hperm)
  exact Int32.le_antisymm (of_decide_eq_true hab) (of_decide_eq_true hba)

/-! ## Room -/

/-- A registry has no more keys than its limit allows. -/
def IsWithinLimit (r : Registry) : Prop :=
  ∀ max, r.limit = some max → r.size ≤ max

namespace IsWithinLimit

/-- A registry without entries is within any limit. -/
theorem empty (limit : Option Nat) : IsWithinLimit { limit } :=
  fun _ _ => Nat.zero_le _

/-- Replacing a definition that is there needs no room. -/
theorem replace (h : r.IsWithinLimit) {d e : Definition} (hfind : r.find? key = some e) :
    (r.replace key d).IsWithinLimit := by
  intro max hmax
  have hmem : key ∈ r.keys := List.mem_map_of_mem (mem_of_find? hfind)
  rw [size_replace, if_pos hmem]
  exact h max hmax

theorem insert (h : r.IsWithinLimit) (hinsert : r.insert key = .ok r') : r'.IsWithinLimit := by
  unfold Registry.insert at hinsert
  split at hinsert
  · cases hinsert
  · next hroom =>
      cases hinsert
      intro max hmax
      rw [size_replace]
      split
      · exact h max hmax
      · next hnew =>
          have hnot : r.contains key = false := by
            rw [← Bool.not_eq_true, contains_iff]
            exact hnew
          have hnotFull : ¬r.isFull = true := by simpa [hnot] using hroom
          have hlt : ¬max ≤ r.size := by
            intro hle
            have hlimit : r.limit = some max := hmax
            exact hnotFull (by simp [isFull, hlimit, hle])
          exact Nat.lt_of_not_le hlt

theorem record (h : r.IsWithinLimit) (hrecord : r.record key ins = .ok r') :
    r'.IsWithinLimit := by
  obtain ⟨d, hfind, rfl⟩ := eq_replace_of_record hrecord
  exact h.replace hfind

theorem close (h : r.IsWithinLimit) (hclose : r.close key = .ok r') : r'.IsWithinLimit := by
  obtain ⟨d, hfind, rfl⟩ := eq_replace_of_close hclose
  exact h.replace hfind

end IsWithinLimit

/-! ## Refusals -/

/-- Inserting fails exactly if the key is new and there are as many keys as the limit allows. -/
theorem insert_eq_error_iff (h : r.IsWithinLimit) {fault : Fault} : r.insert key = .error fault ↔
    fault = .tooManyDefinitions ∧ key ∉ r.keys ∧ r.limit = some r.size := by
  have hfull : r.isFull = true ↔ r.limit = some r.size := by
    unfold isFull
    split
    · next hlimit => simp [hlimit]
    · next max hlimit =>
        have hle := h max hlimit
        rw [hlimit, decide_eq_true_iff, Option.some.injEq]
        omega
  have hnew : (!r.contains key) = true ↔ key ∉ r.keys := by
    rw [Bool.not_eq_true', ← Bool.not_eq_true, contains_iff]
  unfold Registry.insert
  rw [← hfull, ← hnew, and_comm (a := _ = true), ← Bool.and_eq_true]
  split
  · next hrefused => simp [hrefused, eq_comm]
  · next hgranted => simp [hgranted]

/-- Recording fails exactly if the key is not listed or its definition is closed. -/
theorem record_eq_error_iff {fault : Fault} : r.record key ins = .error fault ↔
    fault = .undefinedFunction key ∧ (key ∉ r.keys ∨ ∃ d, r.get key = .ok d) := by
  simp only [get_eq_ok_iff, ← find?_eq_none_iff]
  unfold Registry.record
  cases hfind : r.find? key with
  | none => simp only [true_or, and_true, Except.error.injEq, eq_comm]
  | some d => cases hclosed : d.isClosed <;> simp [hclosed, @eq_comm _ fault]

/-- Closing fails exactly if the key is not listed. -/
theorem close_eq_error_iff {fault : Fault} : r.close key = .error fault ↔
    fault = .undefinedFunction key ∧ key ∉ r.keys := by
  rw [← find?_eq_none_iff]
  unfold Registry.close
  cases hfind : r.find? key with
  | none => simp only [and_true, Except.error.injEq, eq_comm]
  | some d => simp

end GridFit.Registry
