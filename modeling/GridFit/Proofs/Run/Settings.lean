import GridFit.Proofs.Machine.Limits
import GridFit.Proofs.Run.Lockstep

/-!
# Runs under other settings

What instructions do under relaxed settings carries over to runs. A run under looser limits
and with a budget that is enough ends as one under tighter limits does, unless that one was
refused something. Settings never change.
-/

namespace GridFit

variable {refused : Fault → Prop} {S S' : Settings}

/-- What an outcome shows: the failure, if there is one, and what can be seen of the
machine. -/
def Outcome.shown (o : Outcome) : Option Failure × Visible :=
  (o.failure, o.machine.visible)

/-- Machines that differ by their settings go on alike, if those of the second one are
relaxed. -/
theorem Lockstep.of_isRelaxedTo (hS : S.IsRelaxedTo refused S') :
    Lockstep refused (Machine.IsUnder S S') Eq := by
  apply Lockstep.of_eq
  · rintro m _ ⟨-, rfl⟩
    rfl
  · rintro m _ ⟨-, rfl⟩
    rfl
  · rintro m _ ⟨rfl, rfl⟩
    exact ⟨rfl, rfl⟩
  · rintro m _ depth ⟨rfl, rfl⟩
    exact ⟨rfl, rfl⟩
  · exact Machine.respects_dispatch hS

namespace Machine

variable {m : Machine}

theorem inStep_start (m : Machine) (S' : Settings) (program : Array Instruction) :
    (Run.start m m.budget program).InStep (IsUnder m.settings S') Eq
      (Run.start (m.under S') S'.budget program) where
  machine := ⟨rfl, rfl⟩
  requestedJump := rfl
  abreast := .program rfl

/-- Under relaxed settings, a run ends with the same result and leaves the same machine but
for the settings, unless it was refused something under its own settings. -/
theorem execute_under (hS : m.settings.IsRelaxedTo refused S') {program : Array Instruction}
    (hbudget : m.budget = S'.budget ∨
      ¬(m.execute program).IsExhausted ∧ m.unitsUsed program ≤ S'.budget) :
    (∃ failure, (m.execute program).failure = some failure ∧ refused failure.fault) ∨
      ((m.under S').execute program).failure = (m.execute program).failure ∧
        IsUnder m.settings S' (m.execute program).machine
          ((m.under S').execute program).machine :=
  ((Lockstep.of_isRelaxedTo hS).finish (inStep_start m S' program) hbudget).agree
    fun _ _ hpq hend => hpq ▸ hend

/-- A run with a budget that is less than what it uses under another one is out of budget
before it ends. -/
theorem isExhausted_under (hS : m.settings.IsRelaxedTo refused S') {program : Array Instruction}
    (hbudget : S'.budget < m.unitsUsed program) :
    ((m.under S').execute program).IsExhausted :=
  (Lockstep.of_isRelaxedTo hS).exhausted (inStep_start m S' program) hbudget

/-- No rule of dispatch changes settings. -/
theorem invariant_settings (S : Settings) : Invariant fun m => m.settings = S where
  requestedJump _ h := h
  callDepth _ h := h
  dispatched := by
    intro sequence index ins m result h hrule
    have hregistry (m : Machine) (kind : DefinitionKind) (key : Value) (d : Definition) :
        (m.withRegistry kind ((m.registry kind).replace key d)).settings = m.settings :=
      settings_withRegistry (limit_registry m kind)
    have hlimit (m' : Machine) (hlimit : m'.stack.limit = m.stack.limit)
        (hrest : { m with toWorkspace := m'.toWorkspace } = m') : m'.settings = m.settings := by
      rw [← hrest]
      exact congrArg (fun l => { m.settings with limits.stack := l }) hlimit
    cases hrule with
    | recorded hplain hexec hrec hrecord =>
        obtain ⟨d, -, rfl⟩ := Registry.eq_replace_of_record hrecord
        exact (hregistry ..).trans h
    | opened hkind hvalues hinsert =>
        rw [Registry.eq_replace_of_insert hinsert]
        exact (hregistry ..).trans h
    | closed hkind hrec hclose =>
        obtain ⟨d, -, rfl⟩ := Registry.eq_replace_of_close hclose
        exact (hregistry ..).trans h
    | @executed w hkind hexec hrec hrun =>
        have hw := Workspace.limit_execute { font := m.font, sequence, index } ins
          ins.opcode.operation m.toWorkspace
        rw [← Instruction.execute, hrun] at hw
        exact (hlimit _ hw rfl).trans h
    | @executionFailed fault w hkind hexec hrec hrun =>
        have hw := Workspace.limit_execute { font := m.font, sequence, index } ins
          ins.opcode.operation m.toWorkspace
        rw [← Instruction.execute, hrun] at hw
        exact (hlimit _ hw rfl).trans h
    | _ => exact h

/-- No run changes settings. -/
theorem settings_execute (m : Machine) (program : Array Instruction) :
    (m.execute program).machine.settings = m.settings := by
  have hS : m.settings.IsRelaxedTo (fun _ => False) m.settings := .withBudget m.settings m.budget
  rcases execute_under hS (.inl rfl) with ⟨_, -, hrefused⟩ | ⟨-, hunder⟩
  · exact hrefused.elim
  · exact hunder.settings

/-- The settings of a machine are those of the options that it was made from. -/
theorem Reachable.settings {o : Options} (h : Reachable o m) : m.settings = o.settings := by
  induction h with
  | fresh => exact settings_ofOptions o
  | run _ _ ih => exact (settings_execute _ _).trans ih

end Machine

end GridFit
