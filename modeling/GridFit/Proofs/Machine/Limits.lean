import GridFit.Machine.Effect
import GridFit.Proofs.Operation.Limits

/-!
# Dispatch under other settings

The settings of a machine decide what is refused and what its operations say of the font,
and nothing else. So an instruction does the same under a looser limit, unless it was
refused, and under any budget.

## Implementation notes

`Settings.IsRelaxedTo` covers both a change of the limits and a change of the budget. If the
limits stay as they are, no fault needs to count as a refusal.
-/

namespace GridFit

variable {refused : Fault → Prop}

/-- Settings with the same font and limits that are at least as high. If some are higher,
running into a limit counts as a refusal. -/
structure Settings.IsRelaxedTo (refused : Fault → Prop) (S S' : Settings) : Prop where
  /-- The font instance is the same. -/
  font : S.font = S'.font
  /-- The limits are at least as high. -/
  limits : S.limits.AreLooser S'.limits
  /-- Running into a limit is a refusal, unless the limits are the same. -/
  refused : S.limits = S'.limits ∨ ∀ fault, fault.IsLimit → refused fault

/-- The limit of a family of definitions. -/
def Limits.registry (l : Limits) : DefinitionKind → Option Nat
  | .function => l.functions
  | .instruction => l.instructionDefs

namespace Settings.IsRelaxedTo

variable {S S' : Settings}

/-- Any budget will do. -/
theorem withBudget (S : Settings) (budget : Nat) :
    S.IsRelaxedTo refused { S with budget } where
  font := rfl
  limits := .refl _
  refused := .inl rfl

theorem stack (h : S.IsRelaxedTo refused S') :
    S.limits.stack = S'.limits.stack ∨ refused .stackOverflow :=
  h.refused.imp (congrArg Limits.stack) fun hlimit => hlimit _ trivial

theorem calls (h : S.IsRelaxedTo refused S') :
    S.limits.calls = S'.limits.calls ∨ refused .callStackOverflow :=
  h.refused.imp (congrArg Limits.calls) fun hlimit => hlimit _ trivial

theorem registry (h : S.IsRelaxedTo refused S') (kind : DefinitionKind) :
    IsLooser (S.limits.registry kind) (S'.limits.registry kind) ∧
      (S.limits.registry kind = S'.limits.registry kind ∨ refused .tooManyDefinitions) := by
  refine ⟨?_, h.refused.imp (fun heq => by rw [heq]) fun hlimit => hlimit _ trivial⟩
  cases kind with
  | function => exact h.limits.functions
  | instruction => exact h.limits.instructionDefs

end Settings.IsRelaxedTo

/-! ## Registries -/

namespace Registry

variable {limit limit' : Option Nat} {key : Value}

/-- A change of a registry that consults the limit only to refuse. -/
def IsGuarded (refused : Fault → Prop) (limit limit' : Option Nat)
    (f : Registry → Except Fault Registry) : Prop :=
  ∀ r, r.limit = limit →
    match f r with
    | .ok r' => r'.limit = limit ∧ f (r.withLimit limit') = .ok (r'.withLimit limit')
    | .error fault => refused fault ∨ f (r.withLimit limit') = .error fault

theorem find?_withLimit (r : Registry) (limit : Option Nat) (key : Value) :
    (r.withLimit limit).find? key = r.find? key := rfl

/-- What is full under a limit is full under a tighter one. -/
theorem isFull_of_withLimit {r : Registry} (hlooser : IsLooser r.limit limit')
    (h : (r.withLimit limit').isFull = true) : r.isFull = true := by
  unfold isFull at h ⊢
  cases limit' with
  | none => cases h
  | some max' =>
      cases hlimit : r.limit with
      | none =>
          rw [hlimit] at hlooser
          exact hlooser.elim
      | some max =>
          rw [hlimit] at hlooser
          have hsize : max' ≤ r.size := of_decide_eq_true h
          exact decide_eq_true (Nat.le_trans hlooser hsize)

theorem isGuarded_insert (hlooser : IsLooser limit limit')
    (hrefused : limit = limit' ∨ refused .tooManyDefinitions) (key : Value) :
    IsGuarded refused limit limit' (insert · key) := by
  rintro r rfl
  by_cases hfull : (r.isFull && !r.contains key) = true
  · simp only [insert, hfull, if_true]
    rcases hrefused with rfl | hrefused
    · exact .inr (by simp only [show r.withLimit r.limit = r from rfl, hfull, if_true])
    · exact .inl hrefused
  · have hfull' : ¬((r.withLimit limit').isFull && !(r.withLimit limit').contains key) = true := by
      intro h
      rw [Bool.and_eq_true] at h hfull
      exact hfull ⟨isFull_of_withLimit hlooser h.1, h.2⟩
    simp only [insert, if_neg hfull, if_neg hfull']
    exact ⟨rfl, rfl⟩

theorem isGuarded_record (key : Value) (ins : Instruction) :
    IsGuarded refused limit limit' (record · key ins) := by
  rintro r rfl
  simp only [record, find?_withLimit]
  cases r.find? key with
  | none => exact .inr rfl
  | some d =>
      by_cases hclosed : d.isClosed = true
      · simp only [if_pos hclosed]
        exact .inr trivial
      · simp only [if_neg hclosed]
        exact ⟨rfl, rfl⟩

theorem isGuarded_close (key : Value) : IsGuarded refused limit limit' (close · key) := by
  rintro r rfl
  simp only [close, find?_withLimit]
  cases r.find? key with
  | none => exact .inr rfl
  | some d => exact ⟨rfl, rfl⟩

end Registry

/-! ## The machine -/

namespace Machine

variable {α : Type} {S S' : Settings} {m m' : Machine}

theorem registry_under (m : Machine) (S : Settings) (kind : DefinitionKind) :
    (m.under S).registry kind = (m.registry kind).withLimit (S.limits.registry kind) := by
  cases kind <;> rfl

theorem withRegistry_under (m : Machine) (S : Settings) (kind : DefinitionKind) (r : Registry) :
    (m.under S).withRegistry kind (r.withLimit (S.limits.registry kind)) =
      (m.withRegistry kind r).under S := by
  cases kind <;> rfl

theorem limit_registry (m : Machine) (kind : DefinitionKind) :
    (m.registry kind).limit = m.limits.registry kind := by
  cases kind <;> rfl

theorem settings_withRegistry {kind : DefinitionKind} {r : Registry}
    (h : r.limit = m.limits.registry kind) : (m.withRegistry kind r).settings = m.settings := by
  cases kind with
  | function => exact congrArg (fun l => { m.settings with limits.functions := l }) h
  | instruction => exact congrArg (fun l => { m.settings with limits.instructionDefs := l }) h

theorem respects_onWorkspace {x : WorkM α}
    (hx : Respects refused (Workspace.IsUnder S.limits.stack S'.limits.stack) x) :
    Respects refused (IsUnder S S') (onWorkspace x) := by
  rintro m _ ⟨rfl, rfl⟩
  have h := hx m.toWorkspace _ ⟨rfl, rfl⟩
  have hworkspace : (m.under S').toWorkspace =
      { m.toWorkspace with stack := m.stack.withLimit S'.limits.stack } := rfl
  simp only [onWorkspace, hworkspace]
  generalize x m.toWorkspace = first at h ⊢
  generalize x { m.toWorkspace with stack := m.stack.withLimit S'.limits.stack } = second at h ⊢
  have hsettings {w : Workspace} (hlimit : w.stack.limit = m.stack.limit) :
      ({ m with toWorkspace := w } : Machine).settings = m.settings :=
    congrArg (fun l => { m.settings with limits.stack := l }) hlimit
  cases h with
  | ok a h => exact .ok a ⟨hsettings h.limit, by rw [h.eq_withLimit]; rfl⟩
  | error fault h => exact .error fault ⟨hsettings h.limit, by rw [h.eq_withLimit]; rfl⟩
  | refused h => exact .refused h

theorem respects_pop : Respects refused (IsUnder S S') pop :=
  respects_onWorkspace Workspace.respects_pop

theorem respects_updateRegistry {kind : DefinitionKind} {f : Registry → Except Fault Registry}
    (hf : Registry.IsGuarded refused (S.limits.registry kind) (S'.limits.registry kind) f) :
    Respects refused (IsUnder S S') (updateRegistry kind f) := by
  rintro m _ ⟨rfl, rfl⟩
  have h := hf (m.registry kind) (limit_registry m kind)
  simp only [updateRegistry, registry_under]
  cases hr : f (m.registry kind) with
  | ok r =>
      rw [hr] at h
      obtain ⟨hlimit, hr'⟩ := h
      simp only [hr', withRegistry_under]
      exact .ok () ⟨settings_withRegistry hlimit, rfl⟩
  | error fault =>
      rw [hr] at h
      rcases h with hrefused | hr'
      · exact .refused hrefused
      · simp only [hr']
        exact .error fault ⟨rfl, rfl⟩

/-- A change of the branches or of the open definition has nothing to do with settings. -/
theorem respects_modify {f : Machine → Machine} (hsettings : ∀ m, (f m).settings = m.settings)
    (hsame : ∀ m S, f (m.under S) = (f m).under S) :
    Respects refused (IsUnder S S') (modify f : MachineM Unit) := by
  refine .modify ?_
  rintro m _ ⟨rfl, rfl⟩
  exact ⟨hsettings m, hsame m S'⟩

theorem respects_beginIf : Respects refused (IsUnder S S') beginIf := by
  refine .get_bind ?_ fun m => .ite ?_ ?_
  · rintro m _ ⟨rfl, rfl⟩
    rfl
  · refine respects_pop.bind fun e => .bind (respects_modify ?_ ?_) fun _ => .pure _
    · exact fun _ => rfl
    · exact fun _ _ => rfl
  · refine .bind (respects_modify ?_ ?_) fun _ => .pure _
    · exact fun _ => rfl
    · exact fun _ _ => rfl

theorem respects_turnElse : Respects refused (IsUnder S S') turnElse := by
  rintro m _ ⟨rfl, rfl⟩
  have hbranches : (m.under S').branches = m.branches := rfl
  simp only [turnElse, hbranches]
  cases m.branches with
  | nil => exact .error _ ⟨rfl, rfl⟩
  | cons innermost rest => exact .ok _ ⟨rfl, rfl⟩

theorem respects_finishIf : Respects refused (IsUnder S S') finishIf := by
  rintro m _ ⟨rfl, rfl⟩
  have hskipped : (m.under S').skippedIfs = m.skippedIfs := rfl
  have hbranches : (m.under S').branches = m.branches := rfl
  simp only [finishIf, hskipped, hbranches]
  cases m.skippedIfs with
  | succ depth => exact .ok _ ⟨rfl, rfl⟩
  | zero =>
      cases m.branches with
      | nil => exact .error _ ⟨rfl, rfl⟩
      | cons innermost rest => exact .ok _ ⟨rfl, rfl⟩

theorem respects_finishDefinition : Respects refused (IsUnder S S') finishDefinition := by
  refine .get_bind ?_ fun m => ?_
  · rintro m _ ⟨rfl, rfl⟩
    rfl
  · cases m.recording with
    | none => exact .throw _
    | some name =>
        refine .bind (respects_modify ?_ ?_) fun _ =>
          (respects_updateRegistry (Registry.isGuarded_close name.key)).bind fun _ => .pure _
        · exact fun _ => rfl
        · exact fun _ _ => rfl

theorem respects_unlessPassive (ins : Instruction) {perform : MachineM Effect}
    (hperform : Respects refused (IsUnder S S') perform) :
    Respects refused (IsUnder S S') (unlessPassive ins perform) := by
  refine .get_bind ?_ fun m => .ite ?_ (.pure _)
  · rintro m _ ⟨rfl, rfl⟩
    rfl
  · cases m.recording with
    | none => exact hperform
    | some name =>
        exact (respects_updateRegistry (Registry.isGuarded_record name.key ins)).bind fun _ =>
          .pure _

section

variable (hS : S.IsRelaxedTo refused S')

include hS

theorem respects_beginDefinition (kind : DefinitionKind) :
    Respects refused (IsUnder S S') (beginDefinition kind) := by
  obtain ⟨hlooser, hrefused⟩ := hS.registry kind
  refine respects_pop.bind fun key =>
    (respects_updateRegistry (Registry.isGuarded_insert hlooser hrefused key)).bind fun _ =>
      .get_bind ?_ fun m => .bind (respects_modify ?_ ?_) fun _ => .pure _
  · rintro m _ ⟨rfl, rfl⟩
    rfl
  · exact fun _ => rfl
  · exact fun _ _ => rfl

theorem respects_executeGeneric (sequence : Array Instruction) (index : Nat)
    (ins : Instruction) :
    Respects refused (IsUnder S S') (executeGeneric sequence index ins) := by
  refine .get_bind ?_ fun m =>
    (respects_onWorkspace (Workspace.respects_execute hS.limits.stack hS.stack _ ins _)).bind
      fun _ => .pure _
  rintro m _ ⟨rfl, rfl⟩
  have hfont : (m.under S').font = m.font := hS.font.symm
  simp only [hfont]
  rfl

/-- A call is refused for want of depth only. -/
theorem respects_enter (function count : Value) :
    Respects refused (IsUnder S S') (enter function count) := by
  refine .ite (.pure _) ?_
  rintro m _ ⟨rfl, rfl⟩
  have hget : (m.under S').functions.get function = m.functions.get function := rfl
  have hdepth : (m.under S').callDepth = m.callDepth := rfl
  have hlimit : (m.under S').callLimit = S'.limits.calls := rfl
  simp only [bind_apply, get_apply, hget, hdepth, hlimit]
  cases m.functions.get function with
  | error fault => exact .error fault ⟨rfl, rfl⟩
  | ok d =>
      simp only [attempt_ok]
      by_cases hdeep : m.callLimit ≤ m.callDepth
      · rw [if_pos hdeep]
        rcases hS.calls with hcalls | hrefused
        · have hcalls' : m.callLimit = S'.limits.calls := hcalls
          rw [if_pos (hcalls' ▸ hdeep)]
          exact .error _ ⟨rfl, rfl⟩
        · exact .refused hrefused
      · have hdeep' : ¬S'.limits.calls ≤ m.callDepth :=
          fun h => hdeep (Nat.le_trans hS.limits.calls h)
        rw [if_neg hdeep, if_neg hdeep']
        exact .ok _ ⟨rfl, rfl⟩

/-- Every instruction does the same under looser limits, unless it was refused, and under
any budget. -/
theorem respects_dispatch (sequence : Array Instruction) (index : Nat) (ins : Instruction) :
    Respects refused (IsUnder S S') (dispatch sequence index ins) := by
  unfold dispatch
  cases ins.kind with
  | generic => exact respects_unlessPassive ins (respects_executeGeneric hS sequence index ins)
  | ifTest => exact respects_beginIf
  | elseMark => exact respects_turnElse
  | endIf => exact respects_finishIf
  | functionDef => exact respects_beginDefinition hS .function
  | instructionDef => exact respects_beginDefinition hS .instruction
  | endDef => exact respects_finishDefinition
  | call =>
      exact respects_unlessPassive ins (respects_pop.bind fun f => respects_enter hS f 1)
  | loopCall =>
      exact respects_unlessPassive ins
        (respects_pop.bind fun f => respects_pop.bind fun n => respects_enter hS f n)

end

end Machine

end GridFit
