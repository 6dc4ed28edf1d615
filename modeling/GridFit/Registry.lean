import GridFit.Fault

/-!
# Definitions

A definition collects instructions while it is open and can be called once it is
closed. A registry maps keys to definitions, and lists them by ascending key.

## Implementation notes

The order of the keys is a part of a registry. So a key stands in one place only, and it makes no
difference to a registry in which order its keys were added.
-/

namespace GridFit

/-- The two families of definitions. -/
inductive DefinitionKind where
  /-- Functions, with a function number as key. -/
  | function
  /-- Instructions, with an opcode as key. -/
  | instruction
deriving DecidableEq, Repr

/-- The name of a family of definitions. -/
def DefinitionKind.name : DefinitionKind → String
  | function => "Function"
  | instruction => "Instruction"

/-- A recorded sequence of instructions. -/
structure Definition where
  /-- The instructions in the order of recording. -/
  body : Array Instruction := #[]
  /-- Whether recording has ended. -/
  isClosed : Bool := false
deriving DecidableEq, Repr

namespace Registry

/-- Puts an entry where its key belongs, in place of an entry with the same key. -/
def insertEntry (key : Value) (d : Definition) :
    List (Value × Definition) → List (Value × Definition)
  | [] => [(key, d)]
  | (other, e) :: rest =>
      if key < other then (key, d) :: (other, e) :: rest
      else if key = other then (key, d) :: rest
      else (other, e) :: insertEntry key d rest

/-- What an insertion leaves was there before or is what was inserted. -/
theorem mem_insertEntry {key : Value} {d : Definition} {entry : Value × Definition}
    {entries : List (Value × Definition)} (h : entry ∈ insertEntry key d entries) :
    entry = (key, d) ∨ entry ∈ entries := by
  induction entries with
  | nil => exact .inl (by simpa [insertEntry] using h)
  | cons first rest ih =>
      simp only [insertEntry] at h
      split at h
      · exact List.mem_cons.1 h
      · split at h
        · rcases List.mem_cons.1 h with h | h
          · exact .inl h
          · exact .inr (List.mem_cons_of_mem _ h)
        · rcases List.mem_cons.1 h with h | h
          · exact .inr (h ▸ List.mem_cons_self)
          · exact (ih h).imp_right (List.mem_cons_of_mem _)

theorem pairwise_nil : ([] : List (Value × Definition)).Pairwise fun a b => a.1 < b.1 :=
  .nil

/-- An insertion keeps the ascending order of keys. -/
theorem pairwise_insertEntry {key : Value} {d : Definition}
    {entries : List (Value × Definition)} (h : entries.Pairwise fun a b => a.1 < b.1) :
    (insertEntry key d entries).Pairwise fun a b => a.1 < b.1 := by
  induction entries with
  | nil => exact List.pairwise_singleton _ _
  | cons first rest ih =>
      obtain ⟨hfirst, hrest⟩ := List.pairwise_cons.1 h
      simp only [insertEntry]
      split
      · next hlt =>
          refine List.pairwise_cons.2 ⟨?_, h⟩
          intro entry hentry
          rcases List.mem_cons.1 hentry with rfl | hentry
          · exact hlt
          · exact Int32.lt_trans hlt (hfirst entry hentry)
      · split
        · next heq =>
            refine List.pairwise_cons.2 ⟨?_, hrest⟩
            intro entry hentry
            exact heq ▸ hfirst entry hentry
        · next hlt hne =>
            refine List.pairwise_cons.2 ⟨?_, ih hrest⟩
            intro entry hentry
            rcases mem_insertEntry hentry with rfl | hentry
            · exact Int32.lt_of_le_of_ne (Int32.not_lt.1 hlt) (Ne.symm hne)
            · exact hfirst entry hentry

end Registry

/-- Definitions by key. -/
structure Registry where
  /-- The keys and their definitions. -/
  entries : List (Value × Definition) := []
  /-- The greatest number of keys allowed, if there is one. -/
  limit : Option Nat
  /-- The keys ascend. -/
  ascending : entries.Pairwise fun a b => a.1 < b.1 := by exact Registry.pairwise_nil
deriving DecidableEq, Repr

namespace Registry

/-- The keys in ascending order. -/
def keys (r : Registry) : List Value :=
  r.entries.map Prod.fst

/-- The number of keys. -/
def size (r : Registry) : Nat :=
  r.entries.length

/-- The definition of a key, open or closed. -/
def find? (r : Registry) (key : Value) : Option Definition :=
  (r.entries.find? fun entry => entry.1 == key).map Prod.snd

/-- Whether a key has a definition, open or closed. -/
def contains (r : Registry) (key : Value) : Bool :=
  (r.find? key).isSome

/-- The definitions, open or closed, by ascending key. -/
def iter (r : Registry) : List (Value × Definition) :=
  r.keys.filterMap fun key => (r.find? key).map fun d => (key, d)

/-- Whether one more key would exceed the limit. -/
def isFull (r : Registry) : Bool :=
  match r.limit with
  | none => false
  | some max => max ≤ r.size

/-- Replaces the definition of a key, or adds one for a new key. -/
def replace (r : Registry) (key : Value) (d : Definition) : Registry :=
  { r with
    entries := insertEntry key d r.entries
    ascending := pairwise_insertEntry r.ascending }

/-- Opens an empty definition for a key and forgets the one it had. A new key may
find no room. -/
def insert (r : Registry) (key : Value) : Except Fault Registry :=
  if r.isFull && !r.contains key then .error .tooManyDefinitions
  else .ok (r.replace key {})

/-- Appends an instruction to the open definition of a key. -/
def record (r : Registry) (key : Value) (ins : Instruction) : Except Fault Registry :=
  match r.find? key with
  | some d =>
      if d.isClosed then .error (.undefinedFunction key)
      else .ok (r.replace key { d with body := d.body.push ins })
  | none => .error (.undefinedFunction key)

/-- Closes the definition of a key. -/
def close (r : Registry) (key : Value) : Except Fault Registry :=
  match r.find? key with
  | some d => .ok (r.replace key { d with isClosed := true })
  | none => .error (.undefinedFunction key)

/-- The closed definition of a key. -/
def get (r : Registry) (key : Value) : Except Fault Definition :=
  match r.find? key with
  | some d => if d.isClosed then .ok d else .error (.undefinedFunction key)
  | none => .error (.undefinedFunction key)

end Registry

end GridFit
