import GridFit.Proofs.Machine.Control
import GridFit.Proofs.Run.Step

/-!
# What a step carries out

A step of a run carries out an instruction unless that fails, or unless the step starts a
replay, returns from a call or ends the run. What every rule of dispatch keeps, every step
keeps, also if it is about all that has been carried out so far.

## Implementation notes

An instruction counts as carried out whenever the machine deals with it without a fault. It
may be skipped or recorded then. The machine before it is kept along with it, since the
operands of the instruction are found there.
-/

namespace GridFit

/-- An instruction that was carried out without a fault. -/
structure Deed where
  /-- The instruction. -/
  ins : Instruction
  /-- The machine that the instruction found. -/
  before : Machine
deriving DecidableEq, Repr

namespace Run

variable {r next : Run} {ins : Instruction}

/-- What the next step carries out without a fault, if it is an instruction. -/
def deed? (r : Run) : Option Deed :=
  match r.current?, r.budget with
  | some ins, _ + 1 =>
      match Machine.dispatch r.position.sequence r.position.index ins r.machine with
      | .ok _ _ => some { ins, before := r.machine }
      | .error _ _ => none
  | _, _ => none

/-- What a run carries out without a fault from here to its end. -/
def deeds (r : Run) : List Deed :=
  r.deed?.toList ++ match _h : r.step with
    | .running next => next.deeds
    | .ended _ => []
termination_by (r.budget, r.calls.length)
decreasing_by
  rcases lt_of_step ‹_› with h | ⟨hbudget, hcalls⟩
  · exact Prod.Lex.left _ _ h
  · rw [hbudget]
    exact Prod.Lex.right _ hcalls

/-- What the next `n` steps carry out without a fault. -/
def deedsWithin : Nat → Run → List Deed
  | 0, _ => []
  | n + 1, r =>
      r.deed?.toList ++ match r.step with
        | .running next => next.deedsWithin n
        | .ended _ => []

theorem deed?_of_ok {budget : Nat} {effect : Effect} {m : Machine}
    (hins : r.current? = some ins) (hbudget : r.budget = budget + 1)
    (hdispatch : Machine.dispatch r.position.sequence r.position.index ins r.machine =
      .ok effect m) : r.deed? = some { ins, before := r.machine } := by
  simp only [deed?, hins, hbudget, hdispatch]

theorem deed?_of_error {budget : Nat} {fault : Fault} {m : Machine}
    (hins : r.current? = some ins) (hbudget : r.budget = budget + 1)
    (hdispatch : Machine.dispatch r.position.sequence r.position.index ins r.machine =
      .error fault m) : r.deed? = none := by
  simp only [deed?, hins, hbudget, hdispatch]

theorem deed?_of_budget_eq_zero (hbudget : r.budget = 0) : r.deed? = none := by
  simp only [deed?, hbudget]
  cases r.current? <;> rfl

theorem deed?_of_end (hend : r.current? = none) : r.deed? = none := by
  simp only [deed?, hend]

/-- A step that ends a run carries out nothing. -/
theorem deed?_of_ended {o : Outcome} (hstep : r.step = .ended o) : r.deed? = none := by
  have hform := r.stepped
  rw [hstep] at hform
  cases hform with
  | exhausted hins hbudget => exact deed?_of_budget_eq_zero hbudget
  | failed hins hbudget hdispatch => exact deed?_of_error hins hbudget hdispatch
  | finished hend hcalls => exact deed?_of_end hend
  | replayExhausted hend hcalls hremaining hbudget => exact deed?_of_end hend

/-- A step that is taken first carries out what comes first. -/
theorem deeds_of_running (hstep : r.step = .running next) :
    r.deeds = r.deed?.toList ++ next.deeds := by
  rw [deeds]
  split
  · next hnext =>
      rw [hstep] at hnext
      cases hnext
      rfl
  · next hend =>
      rw [hstep] at hend
      cases hend

theorem deeds_of_ended {o : Outcome} (hstep : r.step = .ended o) : r.deeds = [] := by
  rw [deeds, deed?_of_ended hstep]
  split
  · next hnext =>
      rw [hstep] at hnext
      cases hnext
  · rfl

/-- A run that ends after `n` steps has carried out what these did. -/
theorem deeds_of_after_ended {n : Nat} {o : Outcome} (hend : (r.after n).step = .ended o) :
    r.deeds = r.deedsWithin n := by
  induction n generalizing r with
  | zero => exact deeds_of_ended hend
  | succ n ih =>
      cases hstep : r.step with
      | running next =>
          rw [after_succ hstep] at hend
          simp only [deeds_of_running hstep, deedsWithin, hstep, ih hend]
      | ended o' =>
          simp only [deeds_of_ended hstep, deedsWithin, hstep, deed?_of_ended hstep,
            Option.toList_none, List.append_nil]

/-! ## Failures -/

/-- The current instruction is carried out next, and the run ends as it fails. -/
def FailsBy (r : Run) (fault : Fault) : Prop :=
  ∃ ins o, r.current? = some ins ∧ r.step = .ended o ∧
    o.failure = some (.ofInstruction ins fault)

/-- With budget left, the current instruction fails just as its dispatch does. -/
theorem failsBy_iff {fault : Fault} (hins : r.current? = some ins) (hbudget : 0 < r.budget) :
    r.FailsBy fault ↔
      ∃ m, Machine.dispatch r.position.sequence r.position.index ins r.machine =
        .error fault m := by
  obtain ⟨budget, hbudget⟩ := Nat.exists_eq_add_one.2 hbudget
  constructor
  · rintro ⟨ins', o, hins', hstep, hfailure⟩
    obtain rfl := Option.some.inj (hins.symm.trans hins')
    have hform := r.stepped
    rw [hstep] at hform
    cases hform with
    | exhausted hins hnone => omega
    | @failed _ _ found _ hins'' hbudget' hdispatch =>
        obtain rfl := Option.some.inj (hins.symm.trans hins'')
        obtain rfl : found = fault := congrArg Failure.fault (Option.some.inj hfailure)
        exact ⟨_, hdispatch⟩
    | finished hend hcalls => simp [hins] at hend
    | replayExhausted hend hcalls hremaining hbudget => simp [hins] at hend
  · rintro ⟨m, hdispatch⟩
    exact ⟨ins, _, hins, (Stepped.failed hins hbudget hdispatch).step_eq, rfl⟩

end Run

/-! ## Invariants -/

namespace Deed

/-- A property of a machine and of what it has carried out, that no rule of dispatch breaks
and that leaves open which jump is asked for and how many calls are under way. -/
structure Invariant (I : List Deed → Machine → Prop) : Prop where
  /-- An instruction that is carried out keeps the property. -/
  done {done sequence index ins m effect m'} (h : I done m)
    (hrule : Machine.Dispatched sequence index ins m (.ok effect m')) :
    I (done ++ [{ ins, before := m }]) m'
  /-- An instruction that fails keeps the property. -/
  failed {done sequence index ins m fault m'} (h : I done m)
    (hrule : Machine.Dispatched sequence index ins m (.error fault m')) : I done m'
  /-- The driver may change the jump that is asked for. -/
  requestedJump {done m} (jump : Value) (h : I done m) :
    I done { m with requestedJump := jump }
  /-- The driver may change the number of calls. -/
  callDepth {done m} (depth : Nat) (h : I done m) : I done { m with callDepth := depth }

namespace Invariant

variable {I : List Deed → Machine → Prop} {done : List Deed}

/-- One step of a run keeps an invariant, whether or not it ends the run. -/
theorem step (hI : Invariant I) {r : Run} (h : I done r.machine) :
    match r.step with
    | .running next => I (done ++ r.deed?.toList) next.machine
    | .ended o => I (done ++ r.deed?.toList) o.machine := by
  have hform := r.stepped
  generalize r.step = progress at hform ⊢
  cases hform with
  | exhausted hins hbudget =>
      simp only [Run.deed?_of_budget_eq_zero hbudget, Option.toList_none, List.append_nil]
      exact hI.callDepth _ h
  | failed hins hbudget hdispatch =>
      simp only [Run.deed?_of_error hins hbudget hdispatch, Option.toList_none, List.append_nil]
      exact hI.callDepth _ (hI.failed h (Machine.dispatched_of_eq hdispatch))
  | advanced hins hbudget hdispatch hreplay =>
      simp only [Run.deed?_of_ok hins hbudget hdispatch, Option.toList_some]
      exact hI.requestedJump 0 (hI.done h (Machine.dispatched_of_eq hdispatch))
  | entered hins hbudget hdispatch hreplay =>
      simp only [Run.deed?_of_ok hins hbudget hdispatch, Option.toList_some]
      exact hI.callDepth _ (hI.done h (Machine.dispatched_of_eq hdispatch))
  | finished hend hcalls =>
      simp only [Run.deed?_of_end hend, Option.toList_none, List.append_nil]
      exact h
  | returned hend hcalls hremaining =>
      simp only [Run.deed?_of_end hend, Option.toList_none, List.append_nil]
      exact hI.requestedJump 0 (hI.callDepth _ h)
  | replayExhausted hend hcalls hremaining hbudget =>
      simp only [Run.deed?_of_end hend, Option.toList_none, List.append_nil]
      exact hI.callDepth _ h
  | replayed hend hcalls hremaining hbudget =>
      simp only [Run.deed?_of_end hend, Option.toList_none, List.append_nil]
      exact h

end Invariant

end Deed

end GridFit
