import GridFit.Proofs.Run.Reachable

/-!
# What a machine has carried out

A machine goes through runs, one after the other, however these end. `Moment.Leads` says
which instructions it carries out between two moments of its life, inside of calls and
outside, also across the ends of runs. What holds at every moment, of the machine and of all
that it has carried out so far, is shown for one instruction at a time.
-/

namespace GridFit

/-! ## Moments -/

/-- A moment of the life of a machine. -/
inductive Moment where
  /-- No run is under way. -/
  | between (m : Machine)
  /-- A run is under way. -/
  | during (r : Run)

namespace Moment

/-- The machine at a moment. -/
def machine : Moment → Machine
  | between m => m
  | during r => r.machine

/-- The first moment leads to the second one, and in between the given instructions are
carried out, in this order. -/
inductive Leads (first : Moment) : List Deed → Moment → Prop
  | here : Leads first [] first
  | begun {done m} (h : Leads first done (between m)) (program : Array Instruction) :
      Leads first done (during (Run.start m m.budget program))
  | step {done r next} (h : Leads first done (during r)) (hstep : r.step = .running next) :
      Leads first (done ++ r.deed?.toList) (during next)
  | ended {done r o} (h : Leads first done (during r)) (hstep : r.step = .ended o) :
      Leads first (done ++ r.deed?.toList) (between o.machine)

namespace Leads

variable {first : Moment} {done : List Deed} {m : Machine} {r s : Run}

/-- A run begins with nothing carried out. -/
theorem start (m : Machine) (program : Array Instruction) :
    (between m).Leads [] (during (Run.start m m.budget program)) :=
  here.begun program

/-- Some steps later, what they carry out has been added. -/
theorem after (h : first.Leads done (during r)) (n : Nat) :
    first.Leads (done ++ r.deedsWithin n) (during (r.after n)) := by
  induction n generalizing done r with
  | zero =>
      simp only [Run.deedsWithin, Run.after, List.append_nil]
      exact h
  | succ n ih =>
      cases hstep : r.step with
      | running next =>
          simp only [Run.deedsWithin, Run.after, hstep]
          rw [← List.append_assoc]
          exact ih (h.step hstep)
      | ended o =>
          simp only [Run.deedsWithin, Run.after, hstep, Run.deed?_of_ended hstep,
            Option.toList_none, List.append_nil]
          exact h

/-- What a run reaches, its moments lead to. -/
theorem reaches (h : first.Leads done (during r)) (hrs : r.Reaches s) :
    ∃ later, first.Leads (done ++ later) (during s) := by
  induction hrs with
  | refl =>
      refine ⟨[], ?_⟩
      rw [List.append_nil]
      exact h
  | @tail s next _ hstep ih =>
      obtain ⟨later, hlater⟩ := ih
      refine ⟨later ++ s.deed?.toList, ?_⟩
      rw [← List.append_assoc]
      exact hlater.step hstep

/-- The moment before a run leads to the moment after it. -/
theorem execute (h : first.Leads done (between m)) (program : Array Instruction) :
    ∃ later, first.Leads (done ++ later) (between (m.execute program).machine) := by
  obtain ⟨s, hreaches, hend⟩ := (Run.start m m.budget program).exists_reaches_ended
  obtain ⟨later, hlater⟩ := (h.begun program).reaches hreaches
  refine ⟨later ++ s.deed?.toList, ?_⟩
  rw [← List.append_assoc]
  exact hlater.ended hend

end Leads

end Moment

/-! ## Invariants -/

section Invariants

variable {first now : Moment} {done : List Deed}

/-- An invariant of the first moment, when nothing has been carried out yet, holds at all
moments that it leads to. -/
theorem Deed.Invariant.leads {I : List Deed → Machine → Prop} (hI : Deed.Invariant I)
    (hnow : first.Leads done now) (h : I [] first.machine) : I done now.machine := by
  induction hnow with
  | here => exact h
  | begun _ program ih => exact hI.requestedJump 0 ih
  | step _ hstep ih =>
      have hnext := hI.step ih
      rw [hstep] at hnext
      exact hnext
  | ended _ hstep ih =>
      have hnext := hI.step ih
      rw [hstep] at hnext
      exact hnext

/-- A property of machines that every rule of dispatch keeps holds at all moments that one
where it holds leads to. -/
theorem Machine.Invariant.leads {I : Machine → Prop} (hI : Machine.Invariant I)
    (hnow : first.Leads done now) (h : I first.machine) : I now.machine :=
  hI.whatever.leads hnow h

/-- At all moments that one without a request for a jump leads to, no jump is asked for. -/
theorem requestedJump_of_leads (hnow : first.Leads done now)
    (h : first.machine.requestedJump = 0) : now.machine.requestedJump = 0 := by
  induction hnow with
  | here => exact h
  | begun => rfl
  | step _ hstep ih => exact Run.requestedJump_of_running ih hstep
  | ended _ hstep ih => exact Run.requestedJump_of_ended ih hstep

end Invariants

/-- All reachable machines are found between the runs of a fresh one. -/
theorem Machine.Reachable.exists_leads {o : Options} {m : Machine} (h : Reachable o m) :
    ∃ done, (Moment.between (ofOptions o)).Leads done (.between m) := by
  induction h with
  | fresh => exact ⟨[], .here⟩
  | @run m bytes program _ hparse ih =>
      obtain ⟨done, hdone⟩ := ih
      obtain ⟨later, hlater⟩ := hdone.execute program
      exact ⟨done ++ later, hlater⟩

end GridFit
