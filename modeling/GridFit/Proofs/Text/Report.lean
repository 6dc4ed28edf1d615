import GridFit.Proofs.Registry
import GridFit.Proofs.Text.Json
import GridFit.Summary

/-!
# What a report shows

A report shows a snapshot of a machine: the operands bottom first, the size and state of each
definition by ascending key, and the contents of both memories. The text of a snapshot consists of
lines, and can be read back line by line, since the number of definitions in a family stands in
front of them. The JSON form can be read back as any document can.
-/

namespace GridFit

/-! ## Snapshots -/

/-- Summaries of the definitions of a registry: one for each of them, by ascending key. -/
structure DefinitionSummary.Describe (ds : List DefinitionSummary) (r : Registry) : Prop where
  /-- The keys ascend. -/
  ascending : ds.Pairwise fun d e => d.key < e.key
  /-- Each summary is that of the definition of its key, and each definition has one. -/
  mem_iff (d : DefinitionSummary) : d ∈ ds ↔
    ∃ e, r.find? d.key = some e ∧ d.length = e.body.size ∧ d.isClosed = e.isClosed

/-- A snapshot says what is on a machine. -/
structure Summary.Describes (s : Summary) (m : Machine) : Prop where
  /-- The operands are there, bottom first. -/
  stack : s.stack = m.stack.values.reverse
  /-- The functions are there. -/
  functions : DefinitionSummary.Describe s.functions m.functions
  /-- The instruction definitions are there. -/
  instructionDefs : DefinitionSummary.Describe s.instructionDefs m.instructionDefs
  /-- The storage area is there, location by location. -/
  storage (l : Nat) : s.storage[l]? = (m.storage.get l).toOption
  /-- The control values are there, location by location. -/
  cvt (l : Nat) : s.cvt[l]? = (m.cvt.get l).toOption

theorem Registry.describe_summary (r : Registry) : DefinitionSummary.Describe r.summary r where
  ascending := by
    rw [summary, iter_eq_entries, List.pairwise_map]
    exact r.ascending
  mem_iff d := by
    obtain ⟨key, length, isClosed⟩ := d
    simp only [summary, iter_eq_entries, List.mem_map, DefinitionSummary.mk.injEq]
    constructor
    · rintro ⟨⟨key', e⟩, hmem, rfl, rfl, rfl⟩
      exact ⟨e, find?_of_mem hmem, rfl, rfl⟩
    · rintro ⟨e, hfind, rfl, rfl⟩
      exact ⟨(key, e), mem_of_find? hfind, rfl, rfl, rfl⟩

theorem Cells.toOption_get {area : Area} (c : Cells area) (l : Nat) :
    (c.get l).toOption = c.values.toList[l]? := by
  rw [get, Array.getElem?_toList]
  cases c.values[l]? <;> rfl

/-- The snapshot of a machine says what is on it. -/
theorem Machine.describes_summary (m : Machine) : m.summary.Describes m where
  stack := rfl
  functions := m.functions.describe_summary
  instructionDefs := m.instructionDefs.describe_summary
  storage l := (m.storage.toOption_get l).symm
  cvt l := (m.cvt.toOption_get l).symm

/-- There is only one list of summaries of the definitions of a registry. -/
theorem DefinitionSummary.Describe.unique {ds es : List DefinitionSummary} {r : Registry}
    (hd : Describe ds r) (he : Describe es r) : ds = es := by
  have hnodup {ds : List DefinitionSummary} (h : Describe ds r) : ds.Nodup :=
    h.ascending.imp fun {d e} hlt => by
      rintro rfl
      exact Int32.lt_irrefl hlt
  have hperm : ds.Perm es := by
    rw [List.perm_ext_iff_of_nodup (hnodup hd) (hnodup he)]
    exact fun d => (hd.mem_iff d).trans (he.mem_iff d).symm
  exact hperm.eq_of_pairwise
    (fun d e _ _ hlt hgt => absurd (Int32.lt_trans hlt hgt) Int32.lt_irrefl) hd.ascending
    he.ascending

/-- There is only one snapshot that says what is on a machine. -/
theorem Summary.Describes.unique {s s' : Summary} {m : Machine} (h : s.Describes m)
    (h' : s'.Describes m) : s = s' :=
  Summary.ext (h.stack.trans h'.stack.symm) (h.functions.unique h'.functions)
    (h.instructionDefs.unique h'.instructionDefs)
    (List.ext_getElem? fun l => (h.storage l).trans (h'.storage l).symm)
    (List.ext_getElem? fun l => (h.cvt l).trans (h'.cvt l).symm)

/-! ## Text -/

/-- A list of values in brackets is read off the front of a text. -/
theorem isReadable_valuesText (vs : List Value) :
    IsReadable (fun vs => (valuesText vs).toList) vs := by
  intro ws s t _ _ h
  have hempty (r : List Char) : (valuesText []).toList ++ r = '[' :: ']' :: r := rfl
  have hvalues (vs : List Value) (r : List Char) : (valuesText vs).toList ++ r =
      '[' :: ([',', ' '].intercalate (vs.map fun v => (toString v.toInt).toList) ++ ']' :: r) := by
    simp [valuesText, String.toList_intercalate, Function.comp_def]
  have hread (v : Value) : IsReadable (fun v : Value => (toString v.toInt).toList) v := by
    intro w s t hs ht heq
    obtain ⟨hint, hst⟩ := toString_int_append_inj hs ht heq
    exact ⟨Int32.toInt_inj.1 hint, hst⟩
  -- Where there is a value, a digit or a sign stands behind the opening bracket.
  have hnumber (v : Value) (rest : List Value) (r : List Char) :
      ∃ c behind, (valuesText (v :: rest)).toList ++ r = '[' :: c :: behind ∧
        isNumeric c = true := by
    obtain ⟨c, digits, hdigits, hc⟩ := exists_toString_int v.toInt
    obtain ⟨behind, hbehind⟩ := exists_intercalate_cons [',', ' '] (c :: digits)
      (rest.map fun v => (toString v.toInt).toList)
    rw [hvalues, List.map_cons, hdigits, hbehind]
    exact ⟨c, _, rfl, hc⟩
  match vs, ws with
  | [], [] => exact ⟨rfl, List.append_cancel_left h⟩
  | [], w :: ws =>
      obtain ⟨c, behind, hw, hc⟩ := hnumber w ws t
      rw [hempty, hw] at h
      obtain rfl : ']' = c := List.head_eq_of_cons_eq (List.tail_eq_of_cons_eq h)
      cases hc
  | v :: vs, [] =>
      obtain ⟨c, behind, hv, hc⟩ := hnumber v vs s
      rw [hempty, hv] at h
      obtain rfl : c = ']' := List.head_eq_of_cons_eq (List.tail_eq_of_cons_eq h)
      cases hc
  | v :: vs, w :: ws =>
      rw [hvalues, hvalues] at h
      exact intercalate_append_inj (fun v _ => hread v) (by decide) (by decide) (by decide)
        (List.cons_ne_nil _ _) (List.cons_ne_nil _ _) (List.tail_eq_of_cons_eq h)

theorem valuesText_injective : Function.Injective valuesText := by
  intro vs ws h
  have hlist : (valuesText vs).toList ++ [] = (valuesText ws).toList ++ [] := by rw [h]
  exact (isReadable_valuesText vs ws [] [] endsNumber_nil endsNumber_nil hlist).1

theorem newline_notMem_valuesText (vs : List Value) : '\n' ∉ (valuesText vs).toList := by
  refine newline_notMem_append (newline_notMem_append (by decide +kernel) ?_) (by decide +kernel)
  refine newline_notMem_intercalate (by decide +kernel) fun part hpart => ?_
  obtain ⟨v, -, rfl⟩ := List.mem_map.1 hpart
  exact (isWord_toString_int v.toInt).newline_notMem

namespace DefinitionSummary

/-- What stands behind the length of a definition in its line. -/
def state (d : DefinitionSummary) : String :=
  if d.isClosed then "" else " (open)"

/-- The line of a definition without its end. -/
def entry (d : DefinitionSummary) : String :=
  "  " ++ toString d.key.toInt ++ ": " ++ toString d.length ++ " instructions" ++ d.state

/-- The first line of a family of definitions, without its end. -/
def heading (label : String) (ds : List DefinitionSummary) : String :=
  label ++ ": " ++ toString ds.length

theorem newline_notMem_entry (d : DefinitionSummary) : '\n' ∉ d.entry.toList := by
  have hkey := (isWord_toString_int d.key.toInt).newline_notMem
  have hlength := (isWord_toString_nat d.length).newline_notMem
  have hstate : '\n' ∉ d.state.toList := by
    unfold state
    split <;> decide +kernel
  unfold entry
  simp only [String.toList_append, List.mem_append, hkey, hlength, hstate, or_false]
  decide +kernel

/-- A definition is determined by its line. -/
theorem entry_injective : Function.Injective entry := by
  intro d e h
  have hentry (d : DefinitionSummary) : d.entry.toList = ' ' :: ' ' ::
      ((toString d.key.toInt).toList ++ ':' :: ' ' :: ((toString d.length).toList ++
        (' ' :: ("instructions".toList ++ d.state.toList)))) := by
    simp [entry]
  have hlist := congrArg String.toList h
  rw [hentry, hentry] at hlist
  obtain ⟨hkey, hbehind⟩ := toString_int_append_inj (endsNumber_cons (by decide))
    (endsNumber_cons (by decide)) (List.tail_eq_of_cons_eq (List.tail_eq_of_cons_eq hlist))
  obtain ⟨hlength, hstate⟩ := toString_nat_append_inj (endsNumber_cons (by decide))
    (endsNumber_cons (by decide)) (List.tail_eq_of_cons_eq (List.tail_eq_of_cons_eq hbehind))
  replace hstate : d.state = e.state :=
    String.toList_inj.1 (List.append_cancel_left (List.tail_eq_of_cons_eq hstate))
  obtain ⟨key, length, isClosed⟩ := d
  obtain ⟨key', length', isClosed'⟩ := e
  obtain rfl : key = key' := Int32.toInt_inj.1 hkey
  obtain rfl : length = length' := hlength
  obtain rfl : isClosed = isClosed' := by
    cases isClosed <;> cases isClosed' <;> simp_all [state]
  rfl

/-- The lines of a family of definitions. Their number stands in front of them. -/
theorem heading_cons_append_inj {label : String} {ds es : List DefinitionSummary}
    {rest rest' : List String}
    (h : heading label ds :: (ds.map entry ++ rest) =
      heading label es :: (es.map entry ++ rest')) :
    ds = es ∧ rest = rest' := by
  obtain ⟨hheading, hlines⟩ := List.cons.inj h
  have hlength : ds.length = es.length :=
    toString_nat_injective ((String.append_right_inj _).1 hheading)
  obtain ⟨hentries, hrest⟩ := List.append_inj hlines (by simp [hlength])
  exact ⟨List.map_injective_iff.2 entry_injective hentries, hrest⟩

theorem lines_eq_unlines (label : String) (ds : List DefinitionSummary) :
    lines label ds = unlines (heading label ds :: ds.map entry) := by
  have hlines : ds.map line = (ds.map entry).map (· ++ "\n") := by
    rw [List.map_map]
    rfl
  rw [lines, unlines, hlines, List.map_cons, String.join_cons, heading]

end DefinitionSummary

/-! ## Forms -/

/-- The document of a definition determines it. -/
theorem DefinitionSummary.toJson_injective : Function.Injective toJson := by
  intro d e h
  obtain ⟨key, length, isClosed⟩ := d
  obtain ⟨key', length', isClosed'⟩ := e
  simpa [toJson, Int32.toInt_inj, Int.ofNat_inj] using h

namespace Summary

open DefinitionSummary

/-- The lines of the text of a snapshot. -/
def lines (s : Summary) : List String :=
  ("stack: " ++ valuesText s.stack) ::
    heading "functions" s.functions :: (s.functions.map entry ++
      heading "instruction definitions" s.instructionDefs :: (s.instructionDefs.map entry ++
        ["storage: " ++ valuesText s.storage, "cvt: " ++ valuesText s.cvt]))

theorem text_eq_unlines (s : Summary) : s.text = unlines s.lines := by
  -- Unfolded without its equation, which takes long to derive.
  delta text
  simp only [lines_eq_unlines, lines, unlines, List.map_cons, List.map_append, List.map_nil,
    String.join_cons, String.join_append, String.join_nil, String.append_assoc,
    String.append_empty]

theorem newline_notMem_lines (s : Summary) : ∀ line ∈ s.lines, '\n' ∉ line.toList := by
  have hheading (label : String) (ds : List DefinitionSummary) (hlabel : '\n' ∉ label.toList) :
      '\n' ∉ (heading label ds).toList :=
    newline_notMem_append (newline_notMem_append hlabel (by decide +kernel))
      (isWord_toString_nat ds.length).newline_notMem
  have hvalues (label : String) (vs : List Value) (hlabel : '\n' ∉ label.toList) :
      '\n' ∉ (label ++ valuesText vs).toList :=
    newline_notMem_append hlabel (newline_notMem_valuesText vs)
  have hentries (ds : List DefinitionSummary) : ∀ line ∈ ds.map entry, '\n' ∉ line.toList :=
    List.forall_mem_map.2 fun d _ => d.newline_notMem_entry
  simp only [lines, List.forall_mem_cons, List.forall_mem_append]
  exact ⟨hvalues _ _ (by decide +kernel), hheading _ _ (by decide +kernel), hentries _,
    hheading _ _ (by decide +kernel), hentries _, hvalues _ _ (by decide +kernel),
    hvalues _ _ (by decide +kernel), List.forall_mem_nil _⟩

/-- The text of a snapshot determines it. -/
theorem text_injective : Function.Injective text := by
  intro s s' h
  rw [text_eq_unlines, text_eq_unlines] at h
  obtain ⟨hstack, hbehind⟩ :=
    List.cons.inj (unlines_inj s.newline_notMem_lines s'.newline_notMem_lines h)
  obtain ⟨hfunctions, hbehind⟩ := heading_cons_append_inj hbehind
  obtain ⟨hdefs, hbehind⟩ := heading_cons_append_inj hbehind
  obtain ⟨hstorage, hbehind⟩ := List.cons.inj hbehind
  have hcvt := (List.cons.inj hbehind).1
  rw [String.append_right_inj] at hstack hstorage hcvt
  exact Summary.ext (valuesText_injective hstack) hfunctions hdefs
    (valuesText_injective hstorage) (valuesText_injective hcvt)

/-! ## JSON -/

theorem valuesJson_injective : Function.Injective valuesJson := by
  intro vs ws h
  refine List.map_injective_iff.2 (fun v w hint => ?_) (Json.array.inj h)
  exact Int32.toInt_inj.1 (Json.int.inj hint)

theorem toJson_injective : Function.Injective toJson := by
  intro s s' h
  simp only [toJson, Json.object.injEq, List.cons.injEq, Prod.mk.injEq, true_and, and_true,
    Json.array.injEq] at h
  obtain ⟨hstack, hfunctions, hdefs, hstorage, hcvt⟩ := h
  have hinjective := List.map_injective_iff.2 DefinitionSummary.toJson_injective
  exact Summary.ext (valuesJson_injective hstack) (hinjective hfunctions) (hinjective hdefs)
    (valuesJson_injective hstorage) (valuesJson_injective hcvt)

/-! ## Reports -/

/-- The report of a snapshot, as a document or in lines. -/
def shown (json : Bool) (s : Summary) : String :=
  if json then s.toJson.pretty ++ "\n" else s.text

/-- In either form a snapshot is determined by its report. -/
theorem shown_injective (json : Bool) : Function.Injective (shown json) := by
  intro s s' h
  cases json with
  | false => exact text_injective h
  | true => exact toJson_injective (Json.pretty_injective ((String.append_left_inj _).1 h))

end Summary

/-- A text reports on a machine: it shows a snapshot that says what is on the machine, and it shows
no other snapshot. -/
def Machine.IsReportedBy (m : Machine) (json : Bool) (text : String) : Prop :=
  ∃ s : Summary, s.Describes m ∧ text = s.shown json ∧ ∀ s' : Summary, text = s'.shown json → s' = s

theorem Machine.isReportedBy_shown (m : Machine) (json : Bool) :
    m.IsReportedBy json (m.summary.shown json) :=
  ⟨m.summary, m.describes_summary, rfl, fun _ h => (Summary.shown_injective json h).symm⟩

end GridFit
