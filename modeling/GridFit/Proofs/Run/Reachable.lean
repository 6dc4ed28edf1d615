import GridFit.Proofs.Run.Deed

/-!
# Reachable machines

A machine is reachable if runs of programs lead to it from a fresh machine, whether
they succeed or fail. A property of machines that every rule of dispatch keeps holds
of all reachable machines, and at every step of their runs.
-/

namespace GridFit

namespace Machine

/-- The machines that runs of programs lead to. -/
inductive Reachable (o : Options) : Machine → Prop
  | fresh : Reachable o (ofOptions o)
  | run {m : Machine} {bytes : List UInt8} {program : Array Instruction} (h : Reachable o m)
      (hparse : parse bytes = .ok program) : Reachable o (m.execute program).machine

/-- A property that no rule of dispatch breaks and that leaves open which jump is asked
for and how many calls are under way. -/
structure Invariant (I : Machine → Prop) : Prop where
  /-- Every rule keeps the property. -/
  dispatched {sequence index ins m result} (h : I m)
    (hrule : Dispatched sequence index ins m result) : I (finalState result)
  /-- The driver may change the jump that is asked for. -/
  requestedJump {m} (jump : Value) (h : I m) : I { m with requestedJump := jump }
  /-- The driver may change the number of calls. -/
  callDepth {m} (depth : Nat) (h : I m) : I { m with callDepth := depth }

namespace Invariant

variable {I : Machine → Prop}

/-- A property of machines that every rule of dispatch keeps is an invariant whatever has
been carried out. -/
theorem whatever (hI : Invariant I) : Deed.Invariant fun _ => I where
  done h hrule := hI.dispatched h hrule
  failed h hrule := hI.dispatched h hrule
  requestedJump jump h := hI.requestedJump jump h
  callDepth depth h := hI.callDepth depth h

/-- One step of a run keeps an invariant, whether or not it ends the run. -/
theorem step (hI : Invariant I) {r : Run} (h : I r.machine) :
    match r.step with
    | .running next => I next.machine
    | .ended o => I o.machine :=
  @Deed.Invariant.step _ [] hI.whatever r h

/-- An invariant holds at every step of a run. -/
theorem reaches (hI : Invariant I) {r s : Run} (h : I r.machine) (hrs : r.Reaches s) :
    I s.machine := by
  induction hrs with
  | refl => exact h
  | tail _ hstep ih => simpa only [hstep] using hI.step ih

/-- An invariant holds when a run has ended. -/
theorem finish (hI : Invariant I) {r : Run} (h : I r.machine) : I r.finish.machine := by
  obtain ⟨s, hreaches, hend⟩ := r.exists_reaches_ended
  simpa only [hend] using hI.step (hI.reaches h hreaches)

/-- An invariant of fresh machines holds of all reachable machines. -/
theorem reachable (hI : Invariant I) {o : Options} (hfresh : I (ofOptions o)) {m : Machine}
    (h : Reachable o m) : I m := by
  induction h with
  | fresh => exact hfresh
  | run _ _ ih => exact hI.finish (hI.requestedJump 0 ih)

/-- An invariant of fresh machines holds at every step of the runs of reachable ones. -/
theorem reachable_reaches (hI : Invariant I) {o : Options} (hfresh : I (ofOptions o))
    {m : Machine} (h : Reachable o m) {program : Array Instruction} {r : Run} {budget : Nat}
    (hr : (Run.start m budget program).Reaches r) : I r.machine :=
  hI.reaches (hI.requestedJump 0 (hI.reachable hfresh h)) hr

end Invariant

/-- The budget of a run is the same for all runs of a machine. -/
theorem invariant_budget (n : Nat) : Invariant fun m => m.budget = n where
  requestedJump _ h := h
  callDepth _ h := h
  dispatched := by
    intro sequence index ins m result h hrule
    cases hrule with
    | recorded hplain hexec hrec hrecord => exact (budget_withRegistry ..).trans h
    | opened hkind hvalues hinsert => exact (budget_withRegistry ..).trans h
    | closed hkind hrec hclose => exact (budget_withRegistry ..).trans h
    | _ => exact h

theorem budget_of_dispatch_ok {sequence : Array Instruction} {index : Nat} {ins : Instruction}
    {m m' : Machine} {effect : Effect} (h : dispatch sequence index ins m = .ok effect m') :
    m'.budget = m.budget :=
  (invariant_budget m.budget).dispatched rfl (dispatched_of_eq h)

end Machine

namespace Run

/-- No run gains budget. -/
theorem Reaches.budget_le {r s : Run} (h : r.Reaches s) : s.budget ≤ r.budget := by
  induction h with
  | refl => exact Nat.le_refl _
  | tail _ hstep ih =>
      rcases lt_of_step hstep with hlt | ⟨heq, -⟩ <;> omega

/-- No step leaves a jump behind that the next instruction would see. -/
theorem requestedJump_of_running {r next : Run} (h : r.machine.requestedJump = 0)
    (hstep : r.step = .running next) : next.machine.requestedJump = 0 := by
  have hform := r.stepped
  rw [hstep] at hform
  cases hform with
  | advanced hins hbudget hdispatch hreplay => rfl
  | entered hins hbudget hdispatch hreplay =>
      obtain ⟨f, n, k, d, -, -, -, -, -, -, -, -, rfl⟩ :=
        Machine.called_of_replay hdispatch hreplay
      exact h
  | returned hend hcalls hremaining => rfl
  | replayed hend hcalls hremaining hbudget => exact h

/-- Whenever an instruction has its turn, no jump is asked for. -/
theorem requestedJump_of_reaches {m : Machine} {budget : Nat} {program : Array Instruction}
    {r : Run} (hr : (start m budget program).Reaches r) : r.machine.requestedJump = 0 := by
  induction hr with
  | refl => rfl
  | tail _ hstep ih => exact requestedJump_of_running ih hstep

/-- No run leaves a jump behind that the next one would see. -/
theorem requestedJump_of_ended {r : Run} {o : Outcome} (h : r.machine.requestedJump = 0)
    (hend : r.step = .ended o) : o.machine.requestedJump = 0 := by
  have hform := r.stepped
  rw [hend] at hform
  cases hform with
  | failed hins hbudget hdispatch =>
      exact (Machine.requestedJump_of_dispatch_error hdispatch).trans h
  | _ => exact h

end Run

namespace Machine

/-- After a run, no jump is asked for. -/
theorem requestedJump_execute (m : Machine) (program : Array Instruction) :
    (m.execute program).machine.requestedJump = 0 := by
  obtain ⟨s, hreaches, hend⟩ := (Run.start m m.budget program).exists_reaches_ended
  exact Run.requestedJump_of_ended (Run.requestedJump_of_reaches hreaches) hend

/-- Between runs, no jump is asked for. -/
theorem Reachable.requestedJump {o : Options} {m : Machine} (h : Reachable o m) :
    m.requestedJump = 0 := by
  cases h with
  | fresh => rfl
  | run h hparse => exact requestedJump_execute _ _

end Machine

end GridFit
