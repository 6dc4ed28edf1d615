import GridFit.Proofs.Run.Mirror

/-!
# Units of the execution budget

A run uses a unit for every instruction that it carries out, inside of calls and outside,
and one for every replay that it starts. Here the units are counted step by step. The count
is what is missing from the budget in the end.

## Implementation notes

A step that needs a unit and finds none left uses none. It ends the run.
-/

namespace GridFit

namespace Run

/-- Whether the next step needs a unit of the budget, to carry out an instruction or to
start a replay. Returning from a call and reaching the end of the program are free. -/
def pays (r : Run) : Bool :=
  r.current?.isSome || r.calls.head?.any fun c => c.remaining != 0

/-- The units that the next step uses. -/
def cost (r : Run) : Nat :=
  if r.pays then min 1 r.budget else 0

/-- The units that a run uses from here to its end. -/
def units (r : Run) : Nat :=
  match _h : r.step with
  | .running next => r.cost + next.units
  | .ended _ => r.cost
termination_by (r.budget, r.calls.length)
decreasing_by
  rcases lt_of_step ‹_› with h | ⟨hbudget, hcalls⟩
  · exact Prod.Lex.left _ _ h
  · rw [hbudget]
    exact Prod.Lex.right _ hcalls

variable {r next : Run} {ins : Instruction} {c : OpenCall} {calls : List OpenCall}

theorem pays_of_current? (hins : r.current? = some ins) : r.pays = true := by
  simp [pays, hins]

theorem pays_of_remaining (hcalls : r.calls = c :: calls) {n : Nat}
    (hremaining : c.remaining = n + 1) : r.pays = true := by
  simp [pays, hcalls, hremaining]

theorem not_pays_of_return (hend : r.current? = none) (hcalls : r.calls = c :: calls)
    (hremaining : c.remaining = 0) : r.pays = false := by
  simp [pays, hend, hcalls, hremaining]

theorem not_pays_of_finished (hend : r.current? = none) (hcalls : r.calls = []) :
    r.pays = false := by
  simp [pays, hend, hcalls]

theorem cost_of_pays (h : r.pays = true) : r.cost = min 1 r.budget := if_pos h

theorem cost_of_not_pays (h : r.pays = false) : r.cost = 0 := by
  simp [cost, h]

/-- A step takes what it uses from the budget, whether or not it ends the run. -/
theorem budget_add_cost (r : Run) :
    match r.step with
    | .running next => next.budget + r.cost = r.budget
    | .ended o => o.budget + r.cost = r.budget := by
  have hstep := r.stepped
  generalize r.step = progress at hstep ⊢
  cases hstep with
  | exhausted hins hbudget =>
      simp [fail, cost_of_pays (pays_of_current? hins), hbudget]
  | failed hins hbudget hdispatch =>
      simp [fail, charged, cost_of_pays (pays_of_current? hins), hbudget]
  | advanced hins hbudget hdispatch hreplay =>
      simp [advance, carriedOut, charged, cost_of_pays (pays_of_current? hins), hbudget]
  | entered hins hbudget hdispatch hreplay =>
      simp [openCall, carriedOut, charged, cost_of_pays (pays_of_current? hins), hbudget]
  | finished hend hcalls => simp [succeed, cost_of_not_pays (not_pays_of_finished hend hcalls)]
  | returned hend hcalls hremaining =>
      simp [advance, cost_of_not_pays (not_pays_of_return hend hcalls hremaining)]
  | replayExhausted hend hcalls hremaining hbudget =>
      simp [fail, cost_of_pays (pays_of_remaining hcalls hremaining), hbudget]
  | replayed hend hcalls hremaining hbudget =>
      simp [cost_of_pays (pays_of_remaining hcalls hremaining), hbudget]

/-- A step that needs a unit and finds none ends the run. -/
theorem exhausted_of_pays (hpays : r.pays = true) (hbudget : r.budget = 0) :
    ∃ o, r.step = .ended o ∧ o.IsExhausted := by
  have hstep := r.stepped
  generalize r.step = progress at hstep ⊢
  cases hstep with
  | exhausted hins hbudget => exact ⟨_, rfl, isExhausted_fail r _⟩
  | finished hend hcalls => simp [not_pays_of_finished hend hcalls] at hpays
  | returned hend hcalls hremaining =>
      simp [not_pays_of_return hend hcalls hremaining] at hpays
  | replayExhausted hend hcalls hremaining hbudget => exact ⟨_, rfl, isExhausted_fail r _⟩
  | _ => omega

theorem isExhausted_finish (hpays : r.pays = true) (hbudget : r.budget = 0) :
    r.finish.IsExhausted := by
  obtain ⟨o, hend, hexhausted⟩ := exhausted_of_pays hpays hbudget
  rwa [finish_of_ended hend]

/-- A run that is not out of budget in the end has a unit for every step that needs one. -/
theorem exists_budget_of_pays (hpays : r.pays = true) (hends : ¬r.finish.IsExhausted) :
    ∃ budget, r.budget = budget + 1 :=
  Nat.exists_eq_succ_of_ne_zero fun hnone => hends (isExhausted_finish hpays hnone)

/-- A run that comes to the end of its program is not out of budget. -/
theorem not_isExhausted_succeed (r : Run) : ¬r.succeed.IsExhausted := by
  rintro ⟨failure, hfailure, -⟩
  cases hfailure

theorem units_of_running (h : r.step = .running next) : r.units = r.cost + next.units := by
  rw [units]
  split
  · next hstep =>
      rw [h] at hstep
      cases hstep
      rfl
  · next hstep =>
      rw [h] at hstep
      cases hstep

theorem units_of_ended {o : Outcome} (h : r.step = .ended o) : r.units = r.cost := by
  rw [units]
  split
  · next hstep =>
      rw [h] at hstep
      cases hstep
  · rfl

theorem cost_le_units (r : Run) : r.cost ≤ r.units := by
  cases hstep : r.step with
  | running next =>
      rw [units_of_running hstep]
      exact Nat.le_add_right _ _
  | ended o => exact Nat.le_of_eq (units_of_ended hstep).symm

/-- Whether there is a unit left for the next step of a run is the same for another budget, if
that has as many units as the run uses and the run is not out of budget in the end. -/
theorem budget_eq_zero_iff {budget : Nat} (hpays : r.pays = true)
    (h : r.budget = budget ∨ ¬r.finish.IsExhausted ∧ r.units ≤ budget) :
    r.budget = 0 ↔ budget = 0 := by
  rcases h with rfl | ⟨hends, hunits⟩
  · exact Iff.rfl
  · have hsome : r.budget ≠ 0 := fun hnone => hends (isExhausted_finish hpays hnone)
    have hcost := cost_of_pays hpays
    have hle := r.cost_le_units
    omega

/-- The units that a run uses are what its budget has lost in the end. -/
theorem budget_finish_add_units (r : Run) : r.finish.budget + r.units = r.budget := by
  fun_induction finish r with
  | case1 r next hstep ih =>
      have hcost := r.budget_add_cost
      rw [hstep] at hcost
      rw [units_of_running hstep]
      omega
  | case2 r o hend =>
      have hcost := r.budget_add_cost
      rw [hend] at hcost
      rwa [units_of_ended hend]

end Run

namespace Machine

/-- The units of the execution budget that a run of a program uses. -/
def unitsUsed (m : Machine) (program : Array Instruction) : Nat :=
  (Run.start m m.budget program).units

/-- The units that a run uses are those that it does not leave of its budget. -/
theorem budget_execute_add_unitsUsed (m : Machine) (program : Array Instruction) :
    (m.execute program).budget + m.unitsUsed program = m.budget :=
  Run.budget_finish_add_units _

theorem unitsUsed_le (m : Machine) (program : Array Instruction) :
    m.unitsUsed program ≤ m.budget := by
  have hsum := m.budget_execute_add_unitsUsed program
  omega

/-- The units that a run uses can be read off its outcome. -/
theorem unitsUsed_of_execute_eq {m : Machine} {program : Array Instruction} {o : Outcome}
    (h : m.execute program = o) : m.unitsUsed program = m.budget - o.budget := by
  have hsum := m.budget_execute_add_unitsUsed program
  rw [h] at hsum
  omega

end Machine

end GridFit
