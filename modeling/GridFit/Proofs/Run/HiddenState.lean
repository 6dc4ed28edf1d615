import GridFit.Proofs.Run.Call
import GridFit.Proofs.Run.Settings

/-!
# Nothing hidden between runs

A machine counts its calls and stores the jump that is asked for. Neither can be seen from
outside. Both are zero after every run, also after one that failed inside of calls, and no
jump is asked for whenever an instruction has its turn. So what can be seen of a machine
decides what it will do.
-/

namespace GridFit

namespace Machine

variable {sequence : Array Instruction} {index : Nat} {ins : Instruction} {m : Machine}

/-- No rule of dispatch changes the number of calls. -/
theorem callDepth_of_dispatched {result : EStateM.Result Fault Machine Effect}
    (hrule : Dispatched sequence index ins m result) :
    (finalState result).callDepth = m.callDepth := by
  have hregistry (m : Machine) (kind : DefinitionKind) (r : Registry) :
      (m.withRegistry kind r).callDepth = m.callDepth := by
    cases kind <;> rfl
  cases hrule with
  | recorded hplain hexec hrec hrecord => exact hregistry _ _ _
  | opened hkind hvalues hinsert => exact hregistry _ _ _
  | closed hkind hrec hclose => exact hregistry _ _ _
  | _ => rfl

end Machine

namespace Run

variable {r : Run} {base : Nat}

/-- The number of calls that the machine counts, on top of those that were under way before
the run, is the number of calls that are under way in the run. -/
theorem callDepth_step (h : r.machine.callDepth = base + r.calls.length) :
    match r.step with
    | .running next => next.machine.callDepth = base + next.calls.length
    | .ended o => o.machine.callDepth = base := by
  have hstep := r.stepped
  generalize r.step = progress at hstep ⊢
  cases hstep with
  | exhausted hins hbudget => simp [fail, h]
  | failed hins hbudget hdispatch =>
      have hdepth := Machine.callDepth_of_dispatched (Machine.dispatched_of_eq hdispatch)
      simp only [finalState_error] at hdepth
      simp [fail, charged, hdepth, h]
  | advanced hins hbudget hdispatch hreplay =>
      exact (Machine.callDepth_of_dispatched (Machine.dispatched_of_eq hdispatch)).trans h
  | entered hins hbudget hdispatch hreplay =>
      have hdepth := Machine.callDepth_of_dispatched (Machine.dispatched_of_eq hdispatch)
      simp only [finalState_ok] at hdepth
      simp [openCall, carriedOut, charged, hdepth, h, Nat.add_assoc]
  | finished hend hcalls => simp [succeed, h, hcalls]
  | returned hend hcalls hremaining => simp [advance, h, hcalls]
  | replayExhausted hend hcalls hremaining hbudget => simp [fail, h]
  | replayed hend hcalls hremaining hbudget => simpa [hcalls] using h

/-- The calls of a run are counted at every step. -/
theorem callDepth_of_reaches {s : Run} (h : r.machine.callDepth = base + r.calls.length)
    (hrs : r.Reaches s) : s.machine.callDepth = base + s.calls.length := by
  induction hrs with
  | refl => exact h
  | tail _ hstep ih =>
      have hnext := callDepth_step ih
      rwa [hstep] at hnext

/-- After a run, as many calls are under way as before it, however it ended. -/
theorem callDepth_finish (h : r.machine.callDepth = base + r.calls.length) :
    r.finish.machine.callDepth = base := by
  fun_induction finish r with
  | case1 r next hstep ih =>
      have hnext := callDepth_step h
      rw [hstep] at hnext
      exact ih hnext
  | case2 r o hend =>
      have hended := callDepth_step h
      rwa [hend] at hended

/-- A call that is stepped over goes on behind itself, whether it is performed or not. -/
theorem position_of_call {next : Run} {ins : Instruction} (hjump : r.machine.requestedJump = 0)
    (hbodies : r.machine.PlainBodies) (hins : r.current? = some ins)
    (hkind : ins.kind = .call ∨ ins.kind = .loopCall) (hstep : r.stepOver = .running next) :
    next.position = { r.position with index := r.position.index + 1 } := by
  by_cases hperforms : r.machine.Performs
  · have hsettled := settled_stepOver ⟨hperforms, hjump, hbodies⟩ hins (.of_call hkind)
    rw [hstep] at hsettled
    exact hsettled.position
  · have hform := r.stepped
    unfold stepOver at hstep
    generalize r.step = progress at hform hstep
    cases hform with
    | advanced hins' hbudget hdispatch hreplay =>
        obtain rfl := Option.some.inj (hins.symm.trans hins')
        have hgeneric : ins.kind ≠ .generic := by
          rcases hkind with hkind | hkind <;> simp [hkind]
        have hkept := (Machine.requestedJump_of_dispatch_ok hdispatch).resolve_right
          fun hoperation => hgeneric hoperation.1
        simp only at hstep
        rw [returnTo_of_le (by exact Nat.le_refl _)] at hstep
        cases hstep
        simp [advance, carriedOut, hkept, hjump, nextIndex]
    | entered hins' hbudget hdispatch hreplay =>
        obtain ⟨_, _, _, _, -, hexec, hrec, -⟩ := Machine.called_of_replay hdispatch hreplay
        exact absurd ⟨hexec, hrec⟩ hperforms
    | _ => simp_all

end Run

namespace Machine

/-- The machine after programs have been run one after the other, however the runs ended. -/
def afterRuns (m : Machine) : List (Array Instruction) → Machine
  | [] => m
  | program :: programs => (m.execute program).machine.afterRuns programs

/-- What every run keeps, all runs keep. -/
theorem afterRuns_of_execute {P : Machine → Prop}
    (hrun : ∀ m program, P m → P (m.execute program).machine) {m : Machine} (h : P m)
    (history : List (Array Instruction)) : P (m.afterRuns history) := by
  induction history generalizing m with
  | nil => exact h
  | cons program history ih => exact ih (hrun m program h)

section Fresh

variable (o : Options) (history : List (Array Instruction))

/-- Between runs, no call is under way. -/
theorem callDepth_afterRuns : ((ofOptions o).afterRuns history).callDepth = 0 :=
  afterRuns_of_execute (P := fun m => m.callDepth = 0) (fun _ _ h => Run.callDepth_finish h) rfl
    history

/-- Between runs, no jump is asked for. -/
theorem requestedJump_afterRuns : ((ofOptions o).afterRuns history).requestedJump = 0 :=
  afterRuns_of_execute (P := fun m => m.requestedJump = 0)
    (fun m program _ => requestedJump_execute m program) rfl history

theorem settings_afterRuns : ((ofOptions o).afterRuns history).settings = o.settings :=
  afterRuns_of_execute (P := fun m => m.settings = o.settings)
    (fun m program h => (settings_execute m program).trans h) (settings_ofOptions o) history

theorem plainBodies_afterRuns : ((ofOptions o).afterRuns history).PlainBodies :=
  afterRuns_of_execute
    (fun _ _ h => invariant_plainBodies.finish (invariant_plainBodies.requestedJump 0 h))
    (plainBodies_ofOptions o) history

end Fresh

/-- Machines that were made from the same options and look the same are the same, whatever
they have run. -/
theorem afterRuns_eq_of_visible {o : Options} {history history' : List (Array Instruction)}
    (h : ((ofOptions o).afterRuns history).visible = ((ofOptions o).afterRuns history').visible) :
    (ofOptions o).afterRuns history = (ofOptions o).afterRuns history' :=
  eq_of_visible h
    ((settings_afterRuns o history).trans (settings_afterRuns o history').symm)
    ((callDepth_afterRuns o history).trans (callDepth_afterRuns o history').symm)
    ((requestedJump_afterRuns o history).trans (requestedJump_afterRuns o history').symm)

/-- Nothing is hidden between runs. After any runs, no call is under way and no jump is asked
for, and machines that look the same show the same for every program. In every run, no jump
is asked for whenever an instruction has its turn, and what happens inside of a call does
not move its caller. -/
theorem nothing_hidden_between_runs (o : Options) (history : List (Array Instruction)) :
    ((ofOptions o).afterRuns history).callDepth = 0 ∧
      ((ofOptions o).afterRuns history).requestedJump = 0 ∧
      (∀ history',
        ((ofOptions o).afterRuns history).visible = ((ofOptions o).afterRuns history').visible →
        ∀ program, (((ofOptions o).afterRuns history).execute program).shown =
          (((ofOptions o).afterRuns history').execute program).shown) ∧
      ∀ {budget : Nat} {program : Array Instruction} {r : Run},
        (Run.start ((ofOptions o).afterRuns history) budget program).Reaches r →
        r.machine.requestedJump = 0 ∧
          ∀ {ins : Instruction} {next : Run}, r.current? = some ins →
            ins.kind = .call ∨ ins.kind = .loopCall → r.stepOver = .running next →
            next.position = { r.position with index := r.position.index + 1 } := by
  refine ⟨callDepth_afterRuns o history, requestedJump_afterRuns o history, ?_, ?_⟩
  · intro history' hvisible program
    rw [afterRuns_eq_of_visible hvisible]
  · intro budget program r hr
    have hjump := Run.requestedJump_of_reaches hr
    have hbodies := invariant_plainBodies.reaches
      (invariant_plainBodies.requestedJump 0 (plainBodies_afterRuns o history)) hr
    exact ⟨hjump, fun hins hkind hstep => Run.position_of_call hjump hbodies hins hkind hstep⟩

/-- Options that allow of two calls at a time. -/
def shallowOptions : Options :=
  { callLimit := 2 }

/-- A program that defines a function which jumps to its end, and one which calls itself. -/
def definingProgram : Array Instruction :=
  #[⟨.npushb, [0], 0⟩, ⟨.fdef, [], 3⟩, ⟨.npushb, [1], 4⟩, ⟨.jmpr, [], 7⟩, ⟨.endf, [], 8⟩,
    ⟨.npushb, [1], 9⟩, ⟨.fdef, [], 12⟩, ⟨.npushb, [1], 13⟩, ⟨.call, [], 16⟩, ⟨.endf, [], 17⟩]

/-- A program that defines the same functions and calls the second one. -/
def recursingProgram : Array Instruction :=
  definingProgram ++ #[⟨.npushb, [1], 18⟩, ⟨.call, [], 21⟩]

/-- A program that calls the function which jumps. -/
def callingProgram : Array Instruction :=
  #[⟨.npushb, [0], 0⟩, ⟨.call, [], 3⟩, ⟨.npushb, [9], 4⟩]

/-- How `recursingProgram` ends: its third call at a time is one too many. -/
def recursedOutcome : Outcome :=
  let r := (Run.start (ofOptions shallowOptions) 1000000 recursingProgram).after 17
  ({ r.charged ⟨.call, [], 16⟩ 999982 with machine := r.machine.popped 1 } : Run).fail
    ⟨.call, [], 16⟩ .callStackOverflow

/-- A machine that failed inside of calls does the same as one that did not, and a call whose
body jumps goes on behind itself. -/
theorem nothing_hidden_after_recursion :
    (ofOptions shallowOptions).execute recursingProgram = recursedOutcome ∧
      recursedOutcome.machine.callDepth = 0 ∧
      (recursedOutcome.machine.execute callingProgram).shown =
        (((ofOptions shallowOptions).afterRuns [definingProgram]).execute callingProgram).shown ∧
      ∃ r next, (Run.start recursedOutcome.machine 1000000 callingProgram).Reaches r ∧
        r.current? = some ⟨.call, [], 3⟩ ∧ r.stepOver = .running next ∧
        next.position = { r.position with index := r.position.index + 1 } := by
  have hrecursed : (ofOptions shallowOptions).execute recursingProgram = recursedOutcome :=
    Run.finish_of_after_ended (n := 17) (by decide +kernel)
  have hdefined : (ofOptions shallowOptions).execute definingProgram =
      ((Run.start (ofOptions shallowOptions) 1000000 definingProgram).after 10).succeed :=
    Run.finish_of_after_ended (n := 10) (by decide +kernel)
  obtain ⟨hdepth, -, hsame, hrun⟩ := nothing_hidden_between_runs shallowOptions [recursingProgram]
  simp only [afterRuns, hrecursed] at hdepth hsame hrun
  have hvisible : recursedOutcome.machine.visible =
      ((ofOptions shallowOptions).afterRuns [definingProgram]).visible := by
    rw [afterRuns, afterRuns, hdefined]
    decide +kernel
  refine ⟨hrecursed, hdepth, hsame [definingProgram] hvisible _, ?_⟩
  have hreaches := Run.reaches_after 1 (Run.start recursedOutcome.machine 1000000 callingProgram)
  have hins : ((Run.start recursedOutcome.machine 1000000 callingProgram).after 1).current? =
      some ⟨.call, [], 3⟩ := by
    decide +kernel
  have hstepOver : ((Run.start recursedOutcome.machine 1000000 callingProgram).after 1).stepOver =
      .running (((Run.start recursedOutcome.machine 1000000 callingProgram).after 2).after 4) :=
    Run.stepOver_of_after (n := 4) (by decide +kernel) (by decide +kernel) (by decide +kernel)
  exact ⟨_, _, hreaches, hins, hstepOver, (hrun hreaches).2 hins (.inl rfl) hstepOver⟩

end Machine

end GridFit
