import GridFit.Proofs.Machine.Definitions
import GridFit.Proofs.Run.History

/-!
# The open definition

The name of the open definition and the definition itself are kept in different places, and
different instructions change them. They agree all the same at every moment, since whatever
replaces or closes a definition also changes which one is open. So nothing that is to be
recorded is ever refused, and a definition that is open can be closed.
-/

namespace GridFit

/-- Only two opcodes call. -/
theorem Opcode.eq_of_isCall {op : Opcode} (h : op.kind = .call ∨ op.kind = .loopCall) :
    op = .call ∨ op = .loopcall := by
  cases op with
  | call => exact .inl rfl
  | loopcall => exact .inr rfl
  | _ => simp [Opcode.kind] at h

namespace Machine

variable {m : Machine} {done : List Deed}

/-- No rule of dispatch parts the open definition from its name. -/
theorem invariant_recordable : Invariant Recordable where
  requestedJump _ h := h
  callDepth _ h := h
  dispatched := by
    intro sequence index ins m result h hrule
    cases result with
    | ok effect m' => exact h.of_defining (defining_of_dispatched hrule)
    | error fault m' =>
        obtain ⟨hdefinition, hrecording⟩ := definition?_of_failed hrule
        intro name hrec
        rw [finalState_error] at hrec
        rw [finalState_error, hdefinition]
        rcases hrecording with hsame | hnone
        · exact h name (hsame ▸ hrec)
        · rw [hnone] at hrec
          cases hrec

/-- Fresh machines have no open definition. -/
theorem recordable_ofOptions (o : Options) : (ofOptions o).Recordable :=
  fun _ hrec => nomatch hrec

/-- With budget left, a plain instruction that is not skipped is added to the open
definition, and the run goes on. -/
theorem Recordable.step_recording {r : Run} (h : r.machine.Recordable) {ins : Instruction}
    (hins : r.current? = some ins) (hbudget : 0 < r.budget) (hplain : ins.IsPlain)
    (hexec : r.machine.isExecuting = true) {name : DefinitionName}
    (hrec : r.machine.recording = some name) :
    ∃ next d, r.step = .running next ∧ r.machine.definition? name = some d ∧
      next.machine.definition? = Function.update r.machine.definition? name
        (some { d with body := d.body.push ins }) ∧
      next.machine.recording = some name := by
  obtain ⟨budget, hbudget⟩ := Nat.exists_eq_add_one.2 hbudget
  obtain ⟨d, hfind, hdispatch⟩ := h.dispatch_recording hplain hexec hrec
  refine ⟨_, d, (Run.Stepped.advanced hins hbudget hdispatch rfl).step_eq, hfind, ?_, ?_⟩
  · rw [← definition?_replace]
    exact definition?_congr rfl rfl
  · exact (recording_withRegistry ..).trans hrec

/-- Where a run ends for want of a definition, a call has failed. -/
theorem Recordable.isCall_of_ended {r : Run} (h : r.machine.Recordable) {o : Outcome}
    (hstep : r.step = .ended o) {failure : Failure} (hfailure : o.failure = some failure)
    {key : Value} (hfault : failure.fault = .undefinedFunction key) :
    failure.opcode = some .call ∨ failure.opcode = some .loopcall := by
  have hform := r.stepped
  rw [hstep] at hform
  cases hform with
  | exhausted hins hbudget =>
      cases hfailure
      cases hfault
  | @failed ins budget fault m hins hbudget hdispatch =>
      cases hfailure
      obtain rfl : fault = .undefinedFunction key := hfault
      have hcall := h.isCall_of_undefinedFunction (dispatched_of_eq hdispatch)
      exact (Opcode.eq_of_isCall hcall).imp (congrArg some) (congrArg some)
  | finished hend hcalls => cases hfailure
  | replayExhausted hend hcalls hremaining hbudget =>
      cases hfailure
      cases hfault

/-- A run fails for want of a definition at calls only. -/
theorem Recordable.isCall_of_execute (h : m.Recordable) {program : Array Instruction}
    {failure : Failure} (hfailure : (m.execute program).failure = some failure) {key : Value}
    (hfault : failure.fault = .undefinedFunction key) :
    failure.opcode = some .call ∨ failure.opcode = some .loopcall := by
  obtain ⟨s, hreaches, hend⟩ := (Run.start m m.budget program).exists_reaches_ended
  have hs := invariant_recordable.reaches (invariant_recordable.requestedJump 0 h) hreaches
  exact hs.isCall_of_ended hend hfailure hfault

/-- An open definition can always be gone on with and closed. At every moment of the life of
a machine, whatever it ran, the definition that is open is there and not closed. So as long as
the budget lasts, each instruction that is to be recorded is added to it, and the end of a
definition fails just if none is open. And nothing but a call ever fails for want of a
definition. -/
theorem open_definition_recordable {o : Options} {now : Moment}
    (hnow : (Moment.between (ofOptions o)).Leads done now) :
    (∀ name, now.machine.recording = some name →
      ∃ d, now.machine.definition? name = some d ∧ d.isClosed = false) ∧
      (∀ r ins, now = .during r → r.current? = some ins → 0 < r.budget →
        (∀ name, ins.IsPlain → r.machine.isExecuting = true → r.machine.recording = some name →
          ∃ next d, r.step = .running next ∧ r.machine.definition? name = some d ∧
            next.machine.definition? = Function.update r.machine.definition? name
              (some { d with body := d.body.push ins }) ∧
            next.machine.recording = some name) ∧
        (ins.kind = .endDef → ∀ fault, r.FailsBy fault ↔
          fault = .unmatched .endDef ∧ r.machine.recording = none)) ∧
      ∀ m program failure key, now = .between m →
        (m.execute program).failure = some failure →
        failure.fault = .undefinedFunction key →
        failure.opcode = some .call ∨ failure.opcode = some .loopcall := by
  have hrecordable := invariant_recordable.leads hnow (recordable_ofOptions o)
  refine ⟨hrecordable, ?_, ?_⟩
  · rintro r ins rfl hins hbudget
    constructor
    · intro name hplain hexec hrec
      exact hrecordable.step_recording hins hbudget hplain hexec hrec
    · intro hkind fault
      rw [Run.failsBy_iff hins hbudget]
      exact hrecordable.endDef_error_iff hkind
  · rintro m program failure key rfl hfailure hfault
    exact hrecordable.isCall_of_execute hfailure hfault

/-- A program that leaves a definition open. -/
def leavingProgram : Array Instruction :=
  #[⟨.npushb, [3], 0⟩, ⟨.fdef, [], 3⟩]

/-- A program that adds to a definition and ends it once too often. -/
def endingTwiceProgram : Array Instruction :=
  #[⟨.dup, [], 0⟩, ⟨.endf, [], 1⟩, ⟨.endf, [], 2⟩]

/-- A program that calls a function by the number of another one. -/
def missingProgram : Array Instruction :=
  #[⟨.npushb, [4], 0⟩, ⟨.call, [], 3⟩]

/-- A run of `leavingProgram` on a fresh machine, at its end. -/
def leavingRun : Run :=
  (Run.start (ofOptions {}) 1000000 leavingProgram).after 2

/-- The next run, which is one of `endingTwiceProgram`, after some steps. -/
def endingTwiceRun (n : Nat) : Run :=
  (Run.start leavingRun.machine 1000000 endingTwiceProgram).after n

/-- A third run, which is one of `missingProgram`, at the call. -/
def missingRun : Run :=
  (Run.start (endingTwiceRun 2).machine 1000000 missingProgram).after 1

/-- The second of three runs adds to the definition that the first one left open, and only the
second end of it fails. The third run misses another function at a call. -/
theorem open_definition_recordable_across_runs :
    (∃ next d, (endingTwiceRun 0).step = .running next ∧
      (endingTwiceRun 0).machine.definition? ⟨.function, 3⟩ = some d ∧
      next.machine.definition? ⟨.function, 3⟩ =
        some { d with body := d.body.push ⟨.dup, [], 0⟩ }) ∧
      ¬(endingTwiceRun 1).FailsBy (.unmatched .endDef) ∧
      (endingTwiceRun 2).FailsBy (.unmatched .endDef) ∧
      ∃ failure, ((endingTwiceRun 2).machine.execute missingProgram).failure = some failure ∧
        failure.fault = .undefinedFunction 4 ∧
        (failure.opcode = some .call ∨ failure.opcode = some .loopcall) := by
  have hleft := (Moment.Leads.start (ofOptions {}) leavingProgram).after 2
  have hleftEnded : leavingRun.step = .ended leavingRun.succeed := by
    decide +kernel
  have hzero := (hleft.ended hleftEnded).begun endingTwiceProgram
  have hone := hzero.after 1
  have htwo := hzero.after 2
  have hended : (endingTwiceRun 2).step = .ended
      (((endingTwiceRun 2).charged ⟨.endf, [], 2⟩ 999997).fail ⟨.endf, [], 2⟩
        (.unmatched .endDef)) := by
    decide +kernel
  have hmissing : (endingTwiceRun 2).machine.execute missingProgram =
      ({ missingRun.charged ⟨.call, [], 3⟩ 999998 with machine := missingRun.machine.popped 1 } :
        Run).fail ⟨.call, [], 3⟩ (.undefinedFunction 4) :=
    Run.finish_of_after_ended (n := 1) (by decide +kernel)
  refine ⟨?_, ?_, ?_, ?_⟩
  · obtain ⟨next, d, hstep, hfind, hnext, -⟩ :=
      ((open_definition_recordable hzero).2.1 (endingTwiceRun 0) ⟨.dup, [], 0⟩ rfl
        (by decide +kernel) (by decide +kernel)).1 ⟨.function, 3⟩ (.inl rfl) (by decide +kernel)
          (by decide +kernel)
    refine ⟨next, d, hstep, hfind, ?_⟩
    rw [hnext, Function.update_self]
  · intro hfails
    have hnone := (((open_definition_recordable hone).2.1 (endingTwiceRun 1) ⟨.endf, [], 1⟩ rfl
      (by decide +kernel) (by decide +kernel)).2 rfl _).1 hfails
    revert hnone
    decide +kernel
  · apply (((open_definition_recordable htwo).2.1 (endingTwiceRun 2) ⟨.endf, [], 2⟩ rfl
      (by decide +kernel) (by decide +kernel)).2 rfl _).2
    decide +kernel
  · have hfailure := congrArg Outcome.failure hmissing
    exact ⟨_, hfailure, rfl, (open_definition_recordable (htwo.ended hended)).2.2 _ missingProgram
      _ 4 rfl hfailure rfl⟩

end Machine

end GridFit
