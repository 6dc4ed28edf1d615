import GridFit.Machine.Run
import Mathlib.Logic.Relation

/-!
# Steps of a run

`Run.Stepped` lists what one step of a run can be, and `Run.Reaches` is any number of
steps. A run that is driven to its end is the same as one that has taken some steps
first.

## Implementation notes

`Run.stepOver` takes an instruction and the call that it may make as one step. It is
defined through `Run.step`, so it adds nothing to the meaning of a run.
-/

namespace GridFit

namespace Run

/-- The instruction that has its turn, unless the sequence has ended. -/
def current? (r : Run) : Option Instruction :=
  r.position.sequence[r.position.index]?

/-- A run whose current instruction has been paid for and reported. -/
def charged (r : Run) (ins : Instruction) (budget : Nat) : Run :=
  { r with budget, events := .dispatched r.position.index ins :: r.events }

/-- A run whose current instruction left the given machine and reports. -/
def carriedOut (r : Run) (m : Machine) (events : List Event) : Run :=
  { r with machine := m, events := events.reverse ++ r.events }

/-- The forms that one step of a run can take. -/
inductive Stepped (r : Run) : Progress → Prop
  | exhausted {ins} (hins : r.current? = some ins) (hbudget : r.budget = 0) :
      Stepped r (.ended (r.fail ins .budgetExceeded))
  | failed {ins budget fault m} (hins : r.current? = some ins) (hbudget : r.budget = budget + 1)
      (hdispatch : Machine.dispatch r.position.sequence r.position.index ins r.machine =
        .error fault m) :
      Stepped r (.ended ({ r.charged ins budget with machine := m }.fail ins fault))
  | advanced {ins budget effect m} (hins : r.current? = some ins)
      (hbudget : r.budget = budget + 1)
      (hdispatch : Machine.dispatch r.position.sequence r.position.index ins r.machine =
        .ok effect m) (hreplay : effect.replay = none) :
      Stepped r
        (.running (((r.charged ins budget).carriedOut m effect.events).advance r.position))
  | entered {ins budget effect m body count} (hins : r.current? = some ins)
      (hbudget : r.budget = budget + 1)
      (hdispatch : Machine.dispatch r.position.sequence r.position.index ins r.machine =
        .ok effect m) (hreplay : effect.replay = some (body, count)) :
      Stepped r
        (.running (((r.charged ins budget).carriedOut m effect.events).openCall ins body count))
  | finished (hend : r.current? = none) (hcalls : r.calls = []) : Stepped r (.ended r.succeed)
  | returned {c calls} (hend : r.current? = none) (hcalls : r.calls = c :: calls)
      (hremaining : c.remaining = 0) :
      Stepped r
        (.running
          (({ r with
              machine := { r.machine with callDepth := r.machine.callDepth - 1 }
              calls := calls } : Run).advance c.caller))
  | replayExhausted {c calls n} (hend : r.current? = none) (hcalls : r.calls = c :: calls)
      (hremaining : c.remaining = n + 1) (hbudget : r.budget = 0) :
      Stepped r (.ended (r.fail c.ins .budgetExceeded))
  | replayed {c calls n budget} (hend : r.current? = none) (hcalls : r.calls = c :: calls)
      (hremaining : c.remaining = n + 1) (hbudget : r.budget = budget + 1) :
      Stepped r
        (.running { r with
          budget := budget
          position := { sequence := c.body }
          calls := { c with remaining := n } :: calls })

/-- Every step has one of the forms. -/
theorem stepped (r : Run) : Stepped r r.step := by
  unfold step
  split
  · next ins hins =>
      unfold perform
      split
      · next hbudget => exact .exhausted hins hbudget
      · next budget hbudget =>
          simp only
          split
          · next fault m hdispatch => exact .failed hins hbudget hdispatch
          · next effect m hdispatch =>
              split
              · next hreplay => exact .advanced hins hbudget hdispatch hreplay
              · next body count hreplay => exact .entered hins hbudget hdispatch hreplay
  · next hend =>
      unfold resume
      split
      · next hcalls => exact .finished hend hcalls
      · next c calls hcalls =>
          split
          · next hremaining => exact .returned hend hcalls hremaining
          · next n hremaining hbudget =>
              exact .replayExhausted hend hcalls hremaining hbudget
          · next n budget hremaining hbudget =>
              exact .replayed hend hcalls hremaining hbudget

/-- The form of a step determines what it leads to. -/
theorem Stepped.step_eq {r : Run} {progress : Progress} (h : r.Stepped progress) :
    r.step = progress := by
  cases h with
  | exhausted hins hbudget =>
      rw [current?] at hins
      simp only [step, hins, perform, hbudget]
  | failed hins hbudget hdispatch =>
      rw [current?] at hins
      simp only [step, hins, perform, hbudget, hdispatch, charged]
  | advanced hins hbudget hdispatch hreplay =>
      rw [current?] at hins
      simp only [step, hins, perform, hbudget, hdispatch, hreplay, charged, carriedOut]
  | entered hins hbudget hdispatch hreplay =>
      rw [current?] at hins
      simp only [step, hins, perform, hbudget, hdispatch, hreplay, charged, carriedOut]
  | finished hend hcalls =>
      rw [current?] at hend
      simp only [step, hend, resume, hcalls]
  | returned hend hcalls hremaining =>
      rw [current?] at hend
      simp only [step, hend, resume, hcalls, hremaining]
  | replayExhausted hend hcalls hremaining hbudget =>
      rw [current?] at hend
      simp only [step, hend, resume, hcalls, hremaining, hbudget]
  | replayed hend hcalls hremaining hbudget =>
      rw [current?] at hend
      simp only [step, hend, resume, hcalls, hremaining, hbudget]

/-- After every instruction, a sequence goes on further ahead. -/
theorem lt_nextIndex (index : Nat) (jump : Value) : index < nextIndex index jump := by
  unfold nextIndex
  split
  · next hpos =>
      have hlt : (0 : Int) < jump.toInt := Int32.lt_iff_toInt_lt.1 hpos
      omega
  · exact Nat.lt_succ_self _

/-! ## Any number of steps -/

/-- A run reaches another one in some number of steps. -/
def Reaches : Run → Run → Prop :=
  Relation.ReflTransGen fun r next => r.step = .running next

/-- The run after `n` steps, or where it ends before. -/
def after : Nat → Run → Run
  | 0, r => r
  | n + 1, r =>
      match r.step with
      | .running next => next.after n
      | .ended _ => r

theorem after_succ {r next : Run} (h : r.step = .running next) (n : Nat) :
    r.after (n + 1) = next.after n := by
  simp only [after, h]

theorem reaches_after (n : Nat) (r : Run) : r.Reaches (r.after n) := by
  induction n generalizing r with
  | zero => exact .refl
  | succ n ih =>
      unfold after
      split
      · next next hstep => exact .head hstep (ih next)
      · exact .refl

theorem finish_of_running {r next : Run} (h : r.step = .running next) :
    r.finish = next.finish := by
  rw [finish]
  split
  · next hstep =>
      rw [h] at hstep
      cases hstep
      rfl
  · next hstep =>
      rw [h] at hstep
      cases hstep

theorem finish_of_ended {r : Run} {o : Outcome} (h : r.step = .ended o) : r.finish = o := by
  rw [finish]
  split
  · next hstep =>
      rw [h] at hstep
      cases hstep
  · next hstep =>
      rw [h] at hstep
      cases hstep
      rfl

/-- Steps that are taken first do not change how a run ends. -/
theorem Reaches.finish_eq {r s : Run} (h : r.Reaches s) : r.finish = s.finish := by
  induction h with
  | refl => rfl
  | tail _ hstep ih => exact ih.trans (finish_of_running hstep)

/-- What a run that has taken some steps ends with, the run itself ends with. -/
theorem finish_of_after_ended {n : Nat} {r : Run} {o : Outcome}
    (h : (r.after n).step = .ended o) : r.finish = o :=
  (reaches_after n r).finish_eq.trans (finish_of_ended h)

/-- Every run reaches a run whose next step ends it. -/
theorem exists_reaches_ended (r : Run) : ∃ s, r.Reaches s ∧ s.step = .ended r.finish := by
  fun_induction finish r with
  | case1 r next hstep ih =>
      obtain ⟨s, hreaches, hend⟩ := ih
      exact ⟨s, .head hstep hreaches, hend⟩
  | case2 r o hend => exact ⟨r, .refl, hend⟩

/-! ## Calls as one step -/

theorem calls_ne_nil {r : Run} {depth : Nat} (h : ¬r.calls.length ≤ depth) : r.calls ≠ [] := by
  rw [← List.length_pos_iff]
  omega

/-- Drives a run until no more than `depth` calls are under way. -/
def returnTo (depth : Nat) (r : Run) : Progress :=
  if r.calls.length ≤ depth then .running r
  else
    match _h : r.step with
    | .running next => next.returnTo depth
    | .ended o => .ended o
termination_by (r.budget, r.calls.length)
decreasing_by
  rcases lt_of_step ‹_› with h | ⟨hbudget, hcalls⟩
  · exact Prod.Lex.left _ _ h
  · rw [hbudget]
    exact Prod.Lex.right _ hcalls

theorem returnTo_of_le {depth : Nat} {r : Run} (h : r.calls.length ≤ depth) :
    r.returnTo depth = .running r := by
  rw [returnTo, if_pos h]

theorem returnTo_of_running {depth : Nat} {r next : Run} (hdepth : ¬r.calls.length ≤ depth)
    (hstep : r.step = .running next) : r.returnTo depth = next.returnTo depth := by
  rw [returnTo, if_neg hdepth]
  split
  · next hnext =>
      rw [hstep] at hnext
      cases hnext
      rfl
  · next hend =>
      rw [hstep] at hend
      cases hend

theorem returnTo_of_ended {depth : Nat} {r : Run} {o : Outcome} (hdepth : ¬r.calls.length ≤ depth)
    (hstep : r.step = .ended o) : r.returnTo depth = .ended o := by
  rw [returnTo, if_neg hdepth]
  split
  · next hnext =>
      rw [hstep] at hnext
      cases hnext
  · next hend =>
      rw [hstep] at hend
      cases hend
      rfl

/-- A run that has returned after some number of steps, and not before, is driven so far. -/
theorem returnTo_of_after {depth n : Nat} {r : Run}
    (hinside : ∀ k < n, ¬(r.after k).calls.length ≤ depth)
    (hout : (r.after n).calls.length ≤ depth) : r.returnTo depth = .running (r.after n) := by
  induction n generalizing r with
  | zero => exact returnTo_of_le hout
  | succ n ih =>
      have hdepth : ¬r.calls.length ≤ depth := hinside 0 (Nat.succ_pos n)
      cases hstep : r.step with
      | ended o =>
          simp only [after, hstep] at hout
          exact absurd hout hdepth
      | running next =>
          rw [after_succ hstep] at hout ⊢
          rw [returnTo_of_running hdepth hstep]
          refine ih (fun k hk => ?_) hout
          rw [← after_succ hstep]
          exact hinside (k + 1) (Nat.succ_lt_succ hk)

/-- One step of a run, together with the whole call that it may make. -/
def stepOver (r : Run) : Progress :=
  match r.step with
  | .running next => next.returnTo r.calls.length
  | .ended o => .ended o

/-- An instruction is stepped over as soon as the call that it makes has returned. -/
theorem stepOver_of_after {n : Nat} {r next : Run} (hstep : r.step = .running next)
    (hinside : ∀ k < n, ¬(next.after k).calls.length ≤ r.calls.length)
    (hout : (next.after n).calls.length ≤ r.calls.length) :
    r.stepOver = .running (next.after n) := by
  unfold stepOver
  rw [hstep]
  exact returnTo_of_after hinside hout

theorem reaches_of_returnTo {depth : Nat} {r next : Run} (h : r.returnTo depth = .running next) :
    r.Reaches next := by
  fun_induction returnTo depth r with
  | case1 r hdepth =>
      cases h
      exact .refl
  | case2 r hdepth s hstep ih => exact .head hstep (ih h)
  | case3 r hdepth o hstep => cases h

theorem finish_of_returnTo_ended {depth : Nat} {r : Run} {o : Outcome}
    (h : r.returnTo depth = .ended o) : r.finish = o := by
  fun_induction returnTo depth r with
  | case1 r hdepth => cases h
  | case2 r hdepth s hstep ih => exact (finish_of_running hstep).trans (ih h)
  | case3 r hdepth o' hstep =>
      cases h
      exact finish_of_ended hstep

theorem reaches_of_stepOver {r next : Run} (h : r.stepOver = .running next) :
    r.Reaches next := by
  unfold stepOver at h
  split at h
  · next s hstep => exact .head hstep (reaches_of_returnTo h)
  · cases h

theorem finish_of_stepOver_ended {r : Run} {o : Outcome} (h : r.stepOver = .ended o) :
    r.finish = o := by
  unfold stepOver at h
  split at h
  · next s hstep => exact (finish_of_running hstep).trans (finish_of_returnTo_ended h)
  · next o' hstep =>
      cases h
      exact finish_of_ended hstep

end Run

end GridFit
