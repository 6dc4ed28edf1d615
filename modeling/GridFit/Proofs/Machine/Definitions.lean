import GridFit.Proofs.Machine.Dispatch
import GridFit.Proofs.Operation.Faults
import GridFit.Proofs.Registry
import Mathlib.Logic.Function.Basic

/-!
# Definitions and dispatch

What instructions do to the definitions of a machine, by name, and to the choice of the one
that is being recorded. An instruction that is carried out changes the definition of one name
or of none, and one that fails changes none.
-/

namespace GridFit

namespace Machine

variable {m m' : Machine}

/-- The definition of a name, open or closed. -/
def definition? (m : Machine) (name : DefinitionName) : Option Definition :=
  (m.registry name.kind).find? name.key

/-- Whether an instruction opens a definition of the given name: it is of the right kind, and
the topmost operand is the key. -/
def Opens (m : Machine) (ins : Instruction) (name : DefinitionName) : Prop :=
  ins.kind = name.kind.opening ∧ m.stack.values.head? = some name.key

instance (m : Machine) (ins : Instruction) (name : DefinitionName) :
    Decidable (m.Opens ins name) :=
  inferInstanceAs (Decidable (_ ∧ _))

/-- The definitions of a machine are those of its two registries. -/
theorem definition?_congr (hfunctions : m'.functions = m.functions)
    (hdefs : m'.instructionDefs = m.instructionDefs) : m'.definition? = m.definition? := by
  funext ⟨kind, key⟩
  cases kind with
  | function => simp only [definition?, registry, hfunctions]
  | instruction => simp only [definition?, registry, hdefs]

/-- Replacing a definition in its registry changes the definition of its name only. -/
theorem definition?_replace (m : Machine) (name : DefinitionName) (d : Definition) :
    (m.withRegistry name.kind ((m.registry name.kind).replace name.key d)).definition? =
      Function.update m.definition? name (some d) := by
  funext other
  by_cases hsame : other = name
  · subst hsame
    rw [Function.update_self, definition?, registry_withRegistry, if_pos rfl,
      Registry.find?_replace]
  · rw [Function.update_of_ne hsame, definition?, registry_withRegistry]
    split
    · next hkind =>
        have hkey : other.key ≠ name.key := by
          intro hkey
          obtain ⟨kind, key⟩ := other
          obtain rfl : kind = name.kind := hkind
          obtain rfl : key = name.key := hkey
          exact hsame rfl
        rw [Registry.find?_replace_of_ne _ d hkey, definition?, hkind]
    · rfl

/-! ## All changes of definitions -/

/-- The definitions and the name of the one that is being recorded after an instruction that
the machine carried out. -/
inductive Defining (m : Machine) (ins : Instruction) :
    (DefinitionName → Option Definition) → Option DefinitionName → Prop
  | recorded {name d} (hrec : m.recording = some name) (hfind : m.definition? name = some d) :
      Defining m ins
        (Function.update m.definition? name (some { d with body := d.body.push ins }))
        m.recording
  | opened {name} (hopens : m.Opens ins name) :
      Defining m ins (Function.update m.definition? name (some {})) (some name)
  | closed {name d} (hrec : m.recording = some name) (hfind : m.definition? name = some d) :
      Defining m ins
        (Function.update m.definition? name (some { d with isClosed := true })) none
  | kept : Defining m ins m.definition? m.recording

section Rules

variable {sequence : Array Instruction} {index : Nat} {ins : Instruction}

/-- What leaves the registries and the name alone keeps all definitions. -/
theorem Defining.of_registries (hfunctions : m'.functions = m.functions)
    (hdefs : m'.instructionDefs = m.instructionDefs) (hrec : m'.recording = m.recording) :
    Defining m ins m'.definition? m'.recording := by
  rw [definition?_congr hfunctions hdefs, hrec]
  exact .kept

/-- Every instruction that is carried out changes definitions in one of these ways. -/
theorem defining_of_dispatched {effect : Effect}
    (hrule : Dispatched sequence index ins m (.ok effect m')) :
    Defining m ins m'.definition? m'.recording := by
  cases hrule with
  | @recorded name r hplain hexec hrec hrecord =>
      obtain ⟨d, hfind, rfl⟩ := Registry.eq_replace_of_record hrecord
      rw [definition?_replace, recording_withRegistry]
      exact .recorded hrec hfind
  | @opened kind key rest r hkind hvalues hinsert =>
      have hopens : m.Opens ins ⟨kind, key⟩ := ⟨hkind, by rw [hvalues, List.head?_cons]⟩
      have hdefinition : ({ (m.popped 1).withRegistry kind r with
          recording := some ⟨kind, key⟩ } : Machine).definition? =
            Function.update m.definition? ⟨kind, key⟩ (some {}) := by
        rw [Registry.eq_replace_of_insert hinsert, ← definition?_replace]
        cases kind <;> exact definition?_congr rfl rfl
      rw [hdefinition]
      exact .opened hopens
  | @closed name r hkind hrec hclose =>
      obtain ⟨d, hfind, rfl⟩ := Registry.eq_replace_of_close hclose
      have hdefinition : ({ m.withRegistry name.kind
          ((m.registry name.kind).replace name.key { d with isClosed := true }) with
            recording := none } : Machine).definition? =
          Function.update m.definition? name (some { d with isClosed := true }) := by
        rw [← definition?_replace]
        exact definition?_congr rfl rfl
      rw [hdefinition]
      exact .closed hrec hfind
  | _ => exact .of_registries rfl rfl rfl

/-- An instruction that fails leaves all definitions alone, and it opens none. -/
theorem definition?_of_failed {fault : Fault}
    (hrule : Dispatched sequence index ins m (.error fault m')) :
    m'.definition? = m.definition? ∧ (m'.recording = m.recording ∨ m'.recording = none) := by
  cases hrule with
  | closeFailed hkind hrec hclose => exact ⟨definition?_congr rfl rfl, .inr rfl⟩
  | _ => exact ⟨definition?_congr rfl rfl, .inl rfl⟩

/-! ## The open definition -/

/-- A machine that can go on with the definition that is open, if there is one: it is among
its definitions, and nothing has closed it. -/
def Recordable (m : Machine) : Prop :=
  ∀ name, m.recording = some name → ∃ d, m.definition? name = some d ∧ d.isClosed = false

/-- However an instruction changes definitions, the one that is open afterwards can be gone on
with. -/
theorem Recordable.of_defining (h : m.Recordable)
    (hdefining : Defining m ins m'.definition? m'.recording) : m'.Recordable := by
  unfold Recordable
  generalize m'.definition? = definition at hdefining
  generalize m'.recording = recording at hdefining
  cases hdefining with
  | @recorded name d hrec hfind =>
      intro other hother
      obtain rfl := Option.some.inj (hrec.symm.trans hother)
      obtain ⟨e, hopen, hnotClosed⟩ := h _ hrec
      obtain rfl := Option.some.inj (hfind.symm.trans hopen)
      exact ⟨_, Function.update_self .., hnotClosed⟩
  | opened hopens =>
      intro other hother
      obtain rfl := Option.some.inj hother
      exact ⟨{}, Function.update_self .., rfl⟩
  | closed hrec hfind =>
      intro other hother
      cases hother
  | kept => exact h

/-- A plain instruction that is not skipped is recorded without fail while a definition is
open. -/
theorem Recordable.dispatch_recording (h : m.Recordable) (hplain : ins.IsPlain)
    (hexec : m.isExecuting = true) {name : DefinitionName} (hrec : m.recording = some name) :
    ∃ d, m.definition? name = some d ∧
      dispatch sequence index ins m = .ok {} (m.withRegistry name.kind
        ((m.registry name.kind).replace name.key { d with body := d.body.push ins })) := by
  obtain ⟨d, hfind, hopen⟩ := h name hrec
  have hrecord := Registry.record_of_find? hfind hopen ins
  refine ⟨d, hfind, ?_⟩
  unfold dispatch
  rcases hplain with hkind | hkind | hkind <;>
    simp only [hkind, unlessPassive_recording hexec hrec, hrecord]

/-- The end of a definition fails just if none is open. -/
theorem Recordable.endDef_error_iff (h : m.Recordable) (hkind : ins.kind = .endDef)
    {fault : Fault} :
    (∃ m', dispatch sequence index ins m = .error fault m') ↔
      fault = .unmatched .endDef ∧ m.recording = none := by
  simp only [dispatch, hkind, finishDefinition, bind_apply, get_apply]
  cases hrec : m.recording with
  | none =>
      constructor
      · rintro ⟨m', herror⟩
        cases herror
        exact ⟨rfl, rfl⟩
      · rintro ⟨rfl, -⟩
        exact ⟨m, rfl⟩
  | some name =>
      obtain ⟨d, hfind, -⟩ := h name hrec
      have hclose := Registry.close_of_find? hfind
      simp only [bind_apply, modify_apply, updateRegistry, registry_recording, hclose, pure_apply]
      constructor
      · rintro ⟨m', herror⟩
        cases herror
      · rintro ⟨-, hnone⟩
        cases hnone

/-- A definition is only missed by a call. -/
theorem Recordable.isCall_of_undefinedFunction (h : m.Recordable) {key : Value}
    (hrule : Dispatched sequence index ins m (.error (.undefinedFunction key) m')) :
    ins.kind = .call ∨ ins.kind = .loopCall := by
  generalize hfault : Fault.undefinedFunction key = fault at hrule
  cases hrule with
  | recordFailed hplain hexec hrec hrecord =>
      obtain ⟨d, hfind, hopen⟩ := h _ hrec
      rw [Registry.record_of_find? hfind hopen] at hrecord
      cases hrecord
  | executionFailed hkind hexec hrec hrun =>
      subst hfault
      exact absurd (Operation.raises_execute _ _ _ _ _ _ hrun) id
  | callUnderflow hkind hexec hrec hvalues hn => exact hkind
  | callUndefined hops hexec hrec hn hget => exact hops.isCall
  | callTooDeep hops hexec hrec hn hget hdepth => exact hops.isCall
  | openFailed hkind hvalues hinsert =>
      rw [Registry.eq_of_insert_error hinsert] at hfault
      cases hfault
  | closeFailed hkind hrec hclose =>
      obtain ⟨d, hfind, -⟩ := h _ hrec
      rw [Registry.close_of_find? hfind] at hclose
      cases hclose
  | _ => cases hfault

end Rules

end Machine

end GridFit
