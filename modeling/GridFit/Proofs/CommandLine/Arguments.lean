import GridFit.Proofs.CommandLine.Items
import GridFit.Proofs.CommandLine.Numeral
import Mathlib.Data.List.Forall2

/-!
# What a command line asks for

Each switch and each setting fills a field of its own and leaves the others alone. As settings
other than control values stand there once at most, a field holds what the value of its setting
spells, or its default if the setting is not there. Files and control values pile up in the order
in which they stand there.

## Implementation notes

Items are added one after the other. What is said of a field is shown for one item and carried
over to all of them by `holds_of_addAll`.
-/

namespace GridFit.CommandLine

open Numeral

variable {α : Type} {given : List Item} {item : Item} {s : Setting} {text : String}
  {a a' : Arguments}

/-! ## What is asked for -/

/-- A field holds what the value of a setting spells, or its default if the setting is not
there. -/
structure Sets (given : List Item) (s : Setting) (spells : String → α → Prop) (d x : α) :
    Prop where
  /-- The value of the setting spells what is in the field. -/
  spells_of_mem (text : String) : .setting s text ∈ given → spells text x
  /-- Without the setting the field holds its default. -/
  eq_of_notMem : (∀ text, .setting s text ∉ given) → x = d

/-- What a text spells is there. -/
def Optionally (spells : String → α → Prop) (text : String) (x? : Option α) : Prop :=
  ∃ x, x? = some x ∧ spells text x

/-- The path of a file. -/
def Item.path? : Item → Option String
  | .file path => some path
  | _ => none

/-- The texts of control values. -/
def Item.controlTexts : Item → List String
  | .setting .cvt text => (text.toList.splitOn ',').map String.ofList
  | _ => []

/-- The options that the items of a command line ask for. -/
structure Configures (given : List Item) (o : Options) : Prop where
  ppem : Sets given .ppem SpellsUInt16 16 o.ppem
  /-- The point size is that of the pixels per em, a 26.6 number, if nothing else is said. -/
  pointSize : Sets given .pointSize SpellsValue (Int32.ofNat o.ppem.toNat * 64) o.pointSize
  scale : Sets given .scale SpellsValue 0x10000 o.scale
  axisCount : Sets given .axisCount SpellsUInt16 0 o.axisCount
  storageSize : Sets given .maxStorage SpellsSize 64 o.storageSize
  /-- The stack has no limit if nothing else is said. -/
  stackLimit : Sets given .maxStack (Optionally SpellsSize) none o.stackLimit
  budget : Sets given .maxInstructions SpellsSize 1000000 o.budget
  /-- The control values stand there in this order. -/
  cvt : List.Forall₂ SpellsValue (given.flatMap Item.controlTexts) o.cvt
  /-- Nothing can be said of the number of functions. -/
  functionLimit : o.functionLimit = none
  /-- Nothing can be said of the number of instruction definitions. -/
  instructionLimit : o.instructionLimit = none
  /-- Nothing can be said of the number of nested calls. -/
  callLimit : o.callLimit = 32

namespace Arguments

/-- Whether a switch is thrown. -/
def isThrown (a : Arguments) : Switch → Bool
  | .disassemble => a.disassemble
  | .noRun => a.noRun
  | .json => a.json

/-- Arguments are what the items of a command line ask for. -/
structure AreGivenBy (given : List Item) (a : Arguments) : Prop where
  /-- The files stand there in this order. -/
  files : a.files = given.filterMap Item.path?
  /-- There is a program argument just if it is given. -/
  hex : Sets given .hex (Optionally Eq) none a.hex
  /-- Switches are thrown just if they are given. -/
  isThrown (s : Switch) : a.isThrown s = true ↔ .switch s ∈ given
  /-- The machine is to have the options that are asked for. -/
  options : Configures given a.options

end Arguments

/-! ## One item -/

/-- Arguments with the value of a setting in its field. -/
inductive Assigned (a : Arguments) : Setting → String → Arguments → Prop
  | hex {text : String} : Assigned a .hex text { a with hex := some text }
  | ppem {text : String} {n : UInt16} (h : SpellsUInt16 text n) :
      Assigned a .ppem text { a with ppem := n }
  | pointSize {text : String} {v : Value} (h : SpellsValue text v) :
      Assigned a .pointSize text { a with pointSize := some v }
  | scale {text : String} {v : Value} (h : SpellsValue text v) :
      Assigned a .scale text { a with scale := v }
  | axisCount {text : String} {n : UInt16} (h : SpellsUInt16 text n) :
      Assigned a .axisCount text { a with axisCount := n }
  | maxStorage {text : String} {n : Nat} (h : SpellsSize text n) :
      Assigned a .maxStorage text { a with maxStorage := n }
  | maxStack {text : String} {n : Nat} (h : SpellsSize text n) :
      Assigned a .maxStack text { a with maxStack := some n }
  | maxInstructions {text : String} {n : Nat} (h : SpellsSize text n) :
      Assigned a .maxInstructions text { a with maxInstructions := some n }
  | cvt {text : String} {vs : List Value} (h : List.Forall₂ SpellsValue (betweenCommas text) vs) :
      Assigned a .cvt text { a with cvt := a.cvt ++ vs }

theorem forall₂_of_mapM {f : String → Option Value} {texts : List String} {vs : List Value}
    (h : texts.mapM f = some vs) : List.Forall₂ (fun text v => f text = some v) texts vs := by
  induction texts generalizing vs with
  | nil =>
      cases h
      exact .nil
  | cons text rest ih =>
      simp only [List.mapM_cons, bind, Option.bind_eq_some_iff] at h
      obtain ⟨v, hv, more, hmore, hvs⟩ := h
      cases hvs
      exact .cons hv (ih hmore)

theorem assigned_of_assign? (h : a.assign? s text = some a') : Assigned a s text a' := by
  cases s with
  | hex =>
      cases h
      exact .hex
  | cvt =>
      obtain ⟨vs, hvs, rfl⟩ := Option.map_eq_some_iff.1 h
      exact .cvt ((forall₂_of_mapM hvs).imp fun _ _ => value?_eq_some_iff.1)
  | _ =>
      obtain ⟨x, hx, rfl⟩ := Option.map_eq_some_iff.1 h
      first
        | exact .ppem (uint16?_eq_some_iff.1 hx)
        | exact .pointSize (value?_eq_some_iff.1 hx)
        | exact .scale (value?_eq_some_iff.1 hx)
        | exact .axisCount (uint16?_eq_some_iff.1 hx)
        | exact .maxStorage (size?_eq_some_iff.1 hx)
        | exact .maxStack (size?_eq_some_iff.1 hx)
        | exact .maxInstructions (size?_eq_some_iff.1 hx)

/-- Arguments with one more item behind those before it. -/
inductive Added (before : List Item) (a : Arguments) : Item → Arguments → Prop
  | file {path : String} : Added before a (.file path) { a with files := a.files ++ [path] }
  | switch {s : Switch} : Added before a (.switch s) (a.throwSwitch s)
  | setting {s : Setting} {text : String} {a' : Arguments}
      (hnew : s ≠ .cvt → ∀ text, .setting s text ∉ before) (h : Assigned a s text a') :
      Added before a (.setting s text) a'

theorem added_of_add {before : List Item} (h : a.add before.reverse item = .ok a') :
    Added before a item a' := by
  unfold Arguments.add at h
  split at h
  · split at h
    · cases h
    · cases h
      exact .file
  · split at h
    · cases h
    · cases h
      exact .switch
  · next s text =>
      simp only at h
      split at h
      · cases h
      · next hrepeated =>
          split at h
          · next b hb =>
              cases h
              refine .setting (fun hcvt value hmem => hrepeated ?_) (assigned_of_assign? hb)
              rw [Bool.and_eq_true]
              exact ⟨List.any_eq_true.2 ⟨_, List.mem_reverse.2 hmem, beq_self_eq_true s⟩,
                bne_iff_ne.2 hcvt⟩
          · cases h

/-! ## All items -/

/-- What holds of default arguments and is kept by each item that is added holds of what a command
line asks for. -/
theorem holds_of_addAll {P : List Item → Arguments → Prop}
    (hstep : ∀ {before a item a'}, P before a → Added before a item a' →
      P (before ++ [item]) a')
    (hdefault : P [] {}) (hadd : Arguments.addAll [] {} given = .ok a) : P given a := by
  have hrest (before rest : List Item) (b : Arguments) (h : P before b)
      (hadd : b.addAll before.reverse rest = .ok a) : P (before ++ rest) a := by
    induction rest generalizing before b with
    | nil =>
        cases hadd
        rwa [List.append_nil]
    | cons item rest ih =>
        rw [Arguments.addAll] at hadd
        split at hadd
        · next c hc =>
            rw [← List.reverse_concat] at hadd
            rw [List.append_cons]
            exact ih _ c (hstep h (added_of_add hc)) hadd
        · cases hadd
  exact hrest [] given {} hdefault hadd

/-- A field is filled by one setting and left alone by files, switches and other settings. -/
structure IsField (get : Arguments → α) (s : Setting) (spells : String → α → Prop) : Prop where
  /-- The setting fills the field. -/
  assigned {a a' : Arguments} {text : String} : Assigned a s text a' → spells text (get a')
  /-- Other settings leave it alone. -/
  assigned_of_ne {a a' : Arguments} {t : Setting} {text : String} :
    t ≠ s → Assigned a t text a' → get a' = get a
  /-- Files and switches leave it alone. -/
  others (a : Arguments) (files : List String) (disassemble noRun json : Bool) :
    get { a with files, disassemble, noRun, json } = get a

namespace IsField

variable {get : Arguments → α} {spells : String → α → Prop} {before : List Item} {d : α}

/-- One more item fills a field if it is the setting of the field. -/
theorem sets_added (hget : IsField get s spells) (hs : s ≠ .cvt)
    (h : Sets before s spells d (get a)) (hadded : Added before a item a') :
    Sets (before ++ [item]) s spells d (get a') := by
  have hother (hne : ∀ text, item ≠ .setting s text) (hsame : get a' = get a) :
      Sets (before ++ [item]) s spells d (get a') := by
    refine hsame ▸ ⟨fun text hmem => h.spells_of_mem text ?_, fun hnone => h.eq_of_notMem ?_⟩
    · exact (List.mem_append.1 hmem).resolve_right fun hlast =>
        hne text (List.mem_singleton.1 hlast).symm
    · exact fun text hmem => hnone text (List.mem_append_left _ hmem)
  cases hadded with
  | file => exact hother (fun _ heq => nomatch heq) (hget.others a _ _ _ _)
  | @switch t =>
      refine hother (fun _ heq => nomatch heq) ?_
      cases t <;> exact hget.others a _ _ _ _
  | @setting t value _ hnew hassigned =>
      by_cases ht : t = s
      · subst ht
        refine ⟨fun text hmem => ?_, fun hnone => ?_⟩
        · rcases List.mem_append.1 hmem with hmem | hmem
          · exact absurd hmem (hnew hs text)
          · obtain ⟨-, rfl⟩ := Item.setting.inj (List.mem_singleton.1 hmem)
            exact hget.assigned hassigned
        · exact absurd (List.mem_append_right _ (List.mem_singleton_self _)) (hnone value)
      · exact hother (fun _ heq => ht (Item.setting.inj heq).1)
          (hget.assigned_of_ne ht hassigned)

/-- The items of a command line fill a field with what the value of its setting spells. -/
theorem sets (hget : IsField get s spells) (hs : s ≠ .cvt)
    (hadd : Arguments.addAll [] {} given = .ok a) : Sets given s spells (get {}) (get a) :=
  holds_of_addAll (P := fun before a => Sets before s spells (get {}) (get a))
    (hget.sets_added hs) ⟨fun _ hmem => absurd hmem List.not_mem_nil, fun _ => rfl⟩ hadd

end IsField

/-! ## Fields -/

theorem isField_hex : IsField Arguments.hex .hex (Optionally Eq) where
  assigned := fun | .hex => ⟨_, rfl, rfl⟩
  assigned_of_ne hne h := by cases h <;> first | rfl | exact absurd rfl hne
  others _ _ _ _ _ := rfl

theorem isField_ppem : IsField Arguments.ppem .ppem SpellsUInt16 where
  assigned := fun | .ppem h => h
  assigned_of_ne hne h := by cases h <;> first | rfl | exact absurd rfl hne
  others _ _ _ _ _ := rfl

theorem isField_pointSize : IsField Arguments.pointSize .pointSize (Optionally SpellsValue) where
  assigned := fun | .pointSize h => ⟨_, rfl, h⟩
  assigned_of_ne hne h := by cases h <;> first | rfl | exact absurd rfl hne
  others _ _ _ _ _ := rfl

theorem isField_scale : IsField Arguments.scale .scale SpellsValue where
  assigned := fun | .scale h => h
  assigned_of_ne hne h := by cases h <;> first | rfl | exact absurd rfl hne
  others _ _ _ _ _ := rfl

theorem isField_axisCount : IsField Arguments.axisCount .axisCount SpellsUInt16 where
  assigned := fun | .axisCount h => h
  assigned_of_ne hne h := by cases h <;> first | rfl | exact absurd rfl hne
  others _ _ _ _ _ := rfl

theorem isField_maxStorage : IsField Arguments.maxStorage .maxStorage SpellsSize where
  assigned := fun | .maxStorage h => h
  assigned_of_ne hne h := by cases h <;> first | rfl | exact absurd rfl hne
  others _ _ _ _ _ := rfl

theorem isField_maxStack : IsField Arguments.maxStack .maxStack (Optionally SpellsSize) where
  assigned := fun | .maxStack h => ⟨_, rfl, h⟩
  assigned_of_ne hne h := by cases h <;> first | rfl | exact absurd rfl hne
  others _ _ _ _ _ := rfl

theorem isField_maxInstructions :
    IsField Arguments.maxInstructions .maxInstructions (Optionally SpellsSize) where
  assigned := fun | .maxInstructions h => ⟨_, rfl, h⟩
  assigned_of_ne hne h := by cases h <;> first | rfl | exact absurd rfl hne
  others _ _ _ _ _ := rfl

/-- A field that need not be filled gives way to a default. -/
theorem Sets.getD {spells : String → α → Prop} {x? : Option α}
    (h : Sets given s (Optionally spells) none x?) (d : α) :
    Sets given s spells d (x?.getD d) where
  spells_of_mem text hmem := by
    obtain ⟨x, rfl, hx⟩ := h.spells_of_mem text hmem
    exact hx
  eq_of_notMem hnone := by
    rw [h.eq_of_notMem hnone]
    rfl

/-- Files pile up in their order. -/
theorem files_of_addAll (hadd : Arguments.addAll [] {} given = .ok a) :
    a.files = given.filterMap Item.path? := by
  refine holds_of_addAll (P := fun before a => a.files = before.filterMap Item.path?)
    (fun {before a item a'} h hadded => ?_) rfl hadd
  rw [List.filterMap_append, ← h]
  cases hadded with
  | file => rfl
  | @switch t => cases t <;> exact (List.append_nil _).symm
  | setting _ hassigned => cases hassigned <;> exact (List.append_nil _).symm

/-- Control values pile up in their order. -/
theorem cvt_of_addAll (hadd : Arguments.addAll [] {} given = .ok a) :
    List.Forall₂ SpellsValue (given.flatMap Item.controlTexts) a.cvt := by
  refine holds_of_addAll
    (P := fun before a => List.Forall₂ SpellsValue (before.flatMap Item.controlTexts) a.cvt)
    (fun {before a item a'} h hadded => ?_) .nil hadd
  rw [List.flatMap_append, List.flatMap_singleton]
  cases hadded with
  | file => exact (List.append_nil _).symm ▸ h
  | @switch t => cases t <;> exact (List.append_nil _).symm ▸ h
  | setting _ hassigned =>
      cases hassigned with
      | cvt hvalues => exact List.rel_append h hvalues
      | _ => exact (List.append_nil _).symm ▸ h

/-- Switches are thrown just if they are given. -/
theorem isThrown_of_addAll (hadd : Arguments.addAll [] {} given = .ok a) (s : Switch) :
    a.isThrown s = true ↔ .switch s ∈ given := by
  refine holds_of_addAll (P := fun before a => a.isThrown s = true ↔ .switch s ∈ before)
    (fun {before a item a'} h hadded => ?_) (by cases s <;> simp [Arguments.isThrown]) hadd
  rw [List.mem_append, ← h, List.mem_singleton]
  cases hadded with
  | file => cases s <;> simp [Arguments.isThrown]
  | @switch t => cases s <;> cases t <;> simp [Arguments.isThrown, Arguments.throwSwitch]
  | setting _ hassigned => cases s <;> cases hassigned <;> simp [Arguments.isThrown]

/-- A command line that is accepted asks for what is written there. -/
theorem exists_written_of_ofList {args : List String} (h : Arguments.ofList args = .ok a) :
    ∃ given, Written args given ∧ a.AreGivenBy given := by
  unfold Arguments.ofList at h
  split at h
  · cases h
  · next given hgiven =>
      split at h
      · cases h
      · next b hadd =>
          split at h
          · cases h
          · cases h
            refine ⟨given, written_of_items hgiven, files_of_addAll hadd,
              isField_hex.sets (by decide) hadd, isThrown_of_addAll hadd, ?_⟩
            exact {
              ppem := isField_ppem.sets (by decide) hadd
              pointSize := (isField_pointSize.sets (by decide) hadd).getD _
              scale := isField_scale.sets (by decide) hadd
              axisCount := isField_axisCount.sets (by decide) hadd
              storageSize := isField_maxStorage.sets (by decide) hadd
              stackLimit := isField_maxStack.sets (by decide) hadd
              budget := (isField_maxInstructions.sets (by decide) hadd).getD _
              cvt := cvt_of_addAll hadd
              functionLimit := rfl
              instructionLimit := rfl
              callLimit := rfl }

end GridFit.CommandLine
