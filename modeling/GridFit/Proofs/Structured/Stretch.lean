import GridFit.Proofs.Run.Mirror
import GridFit.Proofs.Structured.Basic

/-!
# Stretches of a sequence

A run goes through a sequence stretch by stretch. What it does in one of them is compared
to an evaluation, whose machine differs from that of the run in its branches only.

## Implementation notes

A run can always be out of budget before it gets to the end of a stretch. Every statement
on stretches leaves that open, so that it needs to be dealt with only once.
-/

namespace GridFit

/-- Whether the instructions of a list stand in a sequence one after the other, from an
index on. -/
def StandsAt (sequence : Array Instruction) : Nat → List Instruction → Prop
  | _, [] => True
  | index, ins :: code => sequence[index]? = some ins ∧ StandsAt sequence (index + 1) code

theorem standsAt_append {sequence : Array Instruction} {index : Nat}
    {front back : List Instruction} : StandsAt sequence index (front ++ back) ↔
      StandsAt sequence index front ∧ StandsAt sequence (index + front.length) back := by
  induction front generalizing index with
  | nil => simp [StandsAt]
  | cons ins front ih =>
      have hindex : index + 1 + front.length = index + (ins :: front).length := by
        rw [List.length_cons]
        omega
      rw [List.cons_append, StandsAt, StandsAt, ih, hindex, and_assoc]

theorem standsAt_of_append (front code : List Instruction) :
    StandsAt (front ++ code).toArray front.length code := by
  induction code generalizing front with
  | nil => trivial
  | cons ins code ih =>
      refine ⟨by simp, ?_⟩
      have hrest := ih (front ++ [ins])
      rwa [List.append_assoc, List.length_append, List.singleton_append] at hrest

namespace Run

/-- The run has come to an index of its sequence, outside of calls, with the given
machine. -/
structure IsAt (r : Run) (m : Machine) (sequence : Array Instruction) (index : Nat) : Prop where
  machine : r.machine = m
  position : r.position = { sequence, index }
  calls : r.calls = []
  /-- No more of the budget is left than there is at the beginning of a run. -/
  budget : r.budget ≤ m.budget

/-- The run comes to an index with the given machine, unless it is out of budget before. -/
def Continues (r : Run) (m : Machine) (sequence : Array Instruction) (index : Nat) : Prop :=
  r.finish.IsExhausted ∨ ∃ next, r.Reaches next ∧ next.IsAt m sequence index

/-- The run ends at a failure with the given machine but for the branches, unless it is out
of budget before. -/
def Stops (r : Run) (failure : Failure) (m : Machine) : Prop :=
  r.finish.IsExhausted ∨
    r.finish.failure = some failure ∧ ∃ branches, r.finish.machine = m.withBranches branches

/-- The run does what an evaluation with the given result does, with other branches, and
then comes to an index. -/
def Follows (r : Run) (branches : List Bool) (sequence : Array Instruction) (index : Nat) :
    EStateM.Result Failure Machine Unit → Prop
  | .ok _ m => r.Continues (m.withBranches branches) sequence index
  | .error failure m => r.Stops failure m

variable {r : Run} {m m' : Machine} {sequence : Array Instruction} {i j : Nat}
  {branches : List Bool} {result : EStateM.Result Failure Machine Unit}

/-! ## Single instructions -/

/-- An instruction that makes no call and asks for no jump leads to the next one. -/
theorem IsAt.continues_of_dispatch {ins : Instruction} {effect : Effect}
    (h : r.IsAt m sequence i) (hins : sequence[i]? = some ins)
    (hdispatch : Machine.dispatch sequence i ins m = .ok effect m')
    (hreplay : effect.replay = none) (hjump : m'.requestedJump = 0) :
    r.Continues m' sequence (i + 1) := by
  obtain ⟨rfl, hposition, hcalls, hbudget⟩ := h
  have hcurrent : r.current? = some ins := by rw [current?, hposition, hins]
  have hdispatch' : Machine.dispatch r.position.sequence r.position.index ins r.machine =
      .ok effect m' := by rw [hposition, hdispatch]
  cases hleft : r.budget with
  | zero =>
      refine .inl ?_
      rw [finish_of_ended (Stepped.exhausted hcurrent hleft).step_eq]
      exact isExhausted_fail r ins
  | succ budget =>
      have hstep := (Stepped.advanced hcurrent hleft hdispatch' hreplay).step_eq
      have hkept := Machine.budget_of_dispatch_ok hdispatch
      refine .inr ⟨_, .single hstep, ?_, ?_, hcalls, ?_⟩
      · exact Machine.clear_eq hjump
      · simp [advance, carriedOut, hjump, hposition, nextIndex]
      · show budget ≤ m'.budget
        omega

/-- An instruction that fails stops the run. -/
theorem IsAt.stops_of_dispatch {ins : Instruction} {fault : Fault} (h : r.IsAt m sequence i)
    (hins : sequence[i]? = some ins)
    (hdispatch : Machine.dispatch sequence i ins m = .error fault (m'.withBranches branches)) :
    r.Stops (.ofInstruction ins fault) m' := by
  obtain ⟨rfl, hposition, hcalls, hbudget⟩ := h
  have hcurrent : r.current? = some ins := by rw [current?, hposition, hins]
  have hdispatch' : Machine.dispatch r.position.sequence r.position.index ins r.machine =
      .error fault (m'.withBranches branches) := by rw [hposition, hdispatch]
  cases hleft : r.budget with
  | zero =>
      refine .inl ?_
      rw [finish_of_ended (Stepped.exhausted hcurrent hleft).step_eq]
      exact isExhausted_fail r ins
  | succ budget =>
      refine .inr ?_
      rw [finish_of_ended (Stepped.failed hcurrent hleft hdispatch').step_eq]
      refine ⟨rfl, branches, ?_⟩
      simp only [fail, charged, hcalls]
      rfl

/-! ## Stretches one after the other -/

theorem Follows.of_isExhausted (h : r.finish.IsExhausted) :
    r.Follows branches sequence i result := by
  cases result with
  | ok a m => exact .inl h
  | error failure m => exact .inl h

theorem IsAt.continues (h : r.IsAt m sequence i) : r.Continues m sequence i :=
  .inr ⟨r, .refl, h⟩

theorem Continues.trans (h : r.Continues m sequence i)
    (hnext : ∀ next : Run, next.IsAt m sequence i → next.Continues m' sequence j) :
    r.Continues m' sequence j := by
  rcases h with hexhausted | ⟨next, hreaches, hat⟩
  · exact .inl hexhausted
  · rcases hnext next hat with hexhausted | ⟨last, hreaches', hat'⟩
    · exact .inl (hreaches.finish_eq ▸ hexhausted)
    · exact .inr ⟨last, hreaches.trans hreaches', hat'⟩

/-- A run that continues to where it follows an evaluation follows it. -/
theorem Continues.follows (h : r.Continues m sequence i)
    (hnext : ∀ next : Run, next.IsAt m sequence i → next.Follows branches sequence j result) :
    r.Follows branches sequence j result := by
  cases result with
  | ok a m' => exact h.trans hnext
  | error failure m' =>
      rcases h with hexhausted | ⟨next, hreaches, hat⟩
      · exact .inl hexhausted
      · have hstops : next.Stops failure m' := hnext next hat
        unfold Stops at hstops
        rwa [← hreaches.finish_eq] at hstops

/-- A run that follows an evaluation goes on where that succeeds. -/
theorem Follows.trans {other : List Bool} (h : r.Follows branches sequence i result)
    (hnext : ∀ (m : Machine) (next : Run), result = .ok () m →
      next.IsAt (m.withBranches branches) sequence i →
      next.Continues (m.withBranches other) sequence j) :
    r.Follows other sequence j result := by
  cases result with
  | ok a m =>
      apply Continues.trans h
      intro next hat
      exact hnext m next rfl hat
  | error failure m => exact h

/-- Runs follow evaluations one after the other. -/
theorem Follows.bind {x : EStateM Failure Machine Unit} {f : Unit → EStateM Failure Machine Unit}
    (h : r.Follows branches sequence i (x m))
    (hnext : ∀ (m' : Machine) (next : Run), x m = .ok () m' →
      next.IsAt (m'.withBranches branches) sequence i →
      next.Follows branches sequence j (f () m')) :
    r.Follows branches sequence j ((x >>= f) m) := by
  rw [bind_apply]
  cases hx : x m with
  | ok a m' =>
      rw [hx] at h
      apply Continues.follows h
      intro next hat
      exact hnext m' next hx hat
  | error failure m' =>
      rw [hx] at h
      exact h

end Run

end GridFit
