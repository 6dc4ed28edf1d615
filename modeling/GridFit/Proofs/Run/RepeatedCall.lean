import GridFit.Proofs.Run.HiddenState
import GridFit.Proofs.Run.History
import GridFit.Proofs.Run.OutermostCall

/-!
# Repeated calls

Calling a function so many times with one instruction is the same as calling it with so many
instructions, one after the other. The one instruction looks the function up once, and the
others look it up again and again. They find the same body every time, as a call that comes to
its end leaves all definitions and the number of calls as they were.

## Implementation notes

The replays that a repeated call has begun are compared with the calls, one by one. After each
of them the machines are the same but for the call that is still under way.
-/

namespace GridFit

/-- Outcomes that show the same fault, or none, and leave the same machine. -/
structure Outcome.Agrees (o o' : Outcome) : Prop where
  /-- The faults are the same. -/
  fault : o.failure.map Failure.fault = o'.failure.map Failure.fault
  /-- The machines are the same. -/
  machine : o.machine = o'.machine

namespace Machine

/-- The machine with one more operand, whatever the limit. -/
def pushed (m : Machine) (v : Value) : Machine :=
  { m with stack := m.stack.cons v }

/-- Carries out an instruction, with the whole call that it may make. -/
def carryOut (m : Machine) (budget : Nat) (ins : Instruction) : Outcome :=
  (Run.start m budget #[ins]).finish

/-- Pushes a function number and carries out an instruction that calls the function, so many
times in a row or until a call fails. -/
def callTimes (f : Value) (ins : Instruction) : Nat → Nat → Machine → Outcome
  | 0, budget, m => { machine := m, failure := none, budget, events := [] }
  | k + 1, budget, m =>
      let o := (m.pushed f).carryOut budget ins
      match o.failure with
      | some _ => o
      | none =>
          let rest := callTimes f ins k o.budget o.machine
          { rest with events := o.events ++ rest.events }

/-- The function that a call enters, or the fault that it fails with. -/
def callee (m : Machine) (f : Value) : Except Fault Definition :=
  match m.functions.get f with
  | .error fault => .error fault
  | .ok d => if m.callLimit ≤ m.callDepth then .error .callStackOverflow else .ok d

section Operands

variable {m : Machine} {f n : Value} {k : Nat} {ins : Instruction}

@[simp] theorem popped_pushed (m : Machine) (v : Value) : (m.pushed v).popped 1 = m := by
  have hstack : (m.stack.cons v).drop 1 = m.stack := OperandStack.ext rfl rfl
  simp only [popped, pushed, hstack]

@[simp] theorem popped_pushed_pushed (m : Machine) (v w : Value) :
    ((m.pushed v).pushed w).popped 2 = m := by
  rw [← popped_popped _ 1 1, popped_pushed, popped_pushed]

/-- What a call leads to depends on its callee. -/
theorem enter_of_pos (m : Machine) (f : Value) (hn : 0 < n) :
    enter f n m =
      match m.callee f with
      | .error fault => .error fault m
      | .ok d =>
          .ok
            { events := [.calling f n m.callDepth], replay := some (d.body, n.toInt.toNat) }
            m := by
  have hpos : ¬n ≤ 0 := Int32.not_le.2 hn
  simp only [enter, hpos, if_false, bind_apply, get_apply, callee]
  cases m.functions.get f with
  | error fault => rfl
  | ok d =>
      simp only [attempt_ok]
      split <;> rfl

/-- An instruction that calls pops its operands and enters its callee. -/
theorem dispatch_of_callOperands (hops : m.CallOperands ins.kind f n k) (hm : m.Performs)
    (hn : 0 < n) (sequence : Array Instruction) (index : Nat) :
    dispatch sequence index ins m =
      match m.callee f with
      | .error fault => .error fault (m.popped k)
      | .ok d =>
          .ok
            { events := [.calling f n m.callDepth], replay := some (d.body, n.toInt.toNat) }
            (m.popped k) := by
  generalize hkind : ins.kind = kind at hops
  cases hops with
  | once hvalues =>
      simp only [dispatch, hkind, unlessPassive_active hm.isExecuting hm.recording, call,
        bind_apply, pop_cons hvalues]
      exact enter_of_pos (m.popped 1) f hn
  | @counted f n rest hvalues =>
      have hpopped : (m.popped 1).stack.values = n :: rest := by
        simp [popped, OperandStack.drop, hvalues]
      simp only [dispatch, hkind, unlessPassive_active hm.isExecuting hm.recording, loopCall,
        bind_apply, pop_cons hvalues, pop_cons hpopped, popped_popped]
      exact enter_of_pos (m.popped 2) f hn

/-- The callee depends on what steers the machine and on its settings only. -/
theorem callee_congr {m' : Machine} (hcontrol : m'.control = m.control)
    (hsettings : m'.settings = m.settings) (f : Value) : m'.callee f = m.callee f := by
  have hfunctions : m'.functions = m.functions := congrArg Control.functions hcontrol
  have hdepth : m'.callDepth = m.callDepth := congrArg Control.callDepth hcontrol
  have hlimit : m'.callLimit = m.callLimit := congrArg (fun S => S.limits.calls) hsettings
  rw [callee, callee, hfunctions, hdepth, hlimit]

end Operands

end Machine

namespace Run

variable {r s : Run} {m : Machine} {f n : Value} {k budget : Nat} {ins : Instruction}
  {body : Array Instruction}

/-! ## The call of a program that is one instruction -/

/-- The call that an instruction has made which is a program of its own. -/
def onlyCall (ins : Instruction) (body : Array Instruction) (remaining : Nat) : OpenCall :=
  { ins, body, remaining, caller := { sequence := #[ins] } }

theorem pays_start (m : Machine) (budget : Nat) (ins : Instruction) :
    (start m budget #[ins]).pays = true :=
  pays_of_current? (show (start m budget #[ins]).current? = some ins from rfl)

theorem machine_start (hjump : m.requestedJump = 0) (budget : Nat) (program : Array Instruction) :
    (start m budget program).machine = m :=
  Machine.clear_eq hjump

/-- An instruction whose callee cannot be entered fails, and only its operands are gone. -/
theorem carryOut_of_callee_error (hops : m.CallOperands ins.kind f n k) (hm : m.Performs)
    (hjump : m.requestedJump = 0) (hn : 0 < n) {fault : Fault}
    (hcallee : m.callee f = .error fault) (hends : ¬(m.carryOut budget ins).IsExhausted) :
    (m.carryOut budget ins).failure = some (.ofInstruction ins fault) ∧
      (m.carryOut budget ins).machine = m.popped k := by
  obtain ⟨left, hbudget⟩ := exists_budget_of_pays (pays_start m budget ins) hends
  have hdispatch := Machine.dispatch_of_callOperands hops hm hn #[ins] 0
  rw [hcallee, ← machine_start hjump budget #[ins]] at hdispatch
  have hstep := (Stepped.failed (r := start m budget #[ins]) rfl hbudget hdispatch).step_eq
  rw [Machine.carryOut, finish_of_ended hstep]
  refine ⟨rfl, ?_⟩
  rw [machine_start hjump]
  rfl

/-- An instruction that enters its callee goes to the end of the body, as if that had just been
replayed. -/
theorem step_of_callee (hops : m.CallOperands ins.kind f n k) (hm : m.Performs)
    (hjump : m.requestedJump = 0) (hn : 0 < n) {d : Definition} (hcallee : m.callee f = .ok d)
    (hends : ¬(m.carryOut budget ins).IsExhausted) :
    ∃ next, (start m budget #[ins]).step = .running next ∧
      next.AtBodyEnd (onlyCall ins d.body n.toInt.toNat) ∧
      next.machine = { m.popped k with callDepth := m.callDepth + 1 } := by
  obtain ⟨left, hbudget⟩ := exists_budget_of_pays (pays_start m budget ins) hends
  have hdispatch := Machine.dispatch_of_callOperands hops hm hn #[ins] 0
  rw [hcallee, ← machine_start hjump budget #[ins]] at hdispatch
  refine ⟨_, (Stepped.entered (r := start m budget #[ins]) rfl hbudget hdispatch rfl).step_eq,
    ⟨?_, rfl⟩, ?_⟩
  · exact Array.getElem?_eq_none (Nat.le_refl _)
  · rw [machine_start hjump]
    rfl

/-- At the end of a body that is to be replayed, the next replay begins. -/
theorem AtBodyEnd.step_of_succ (h : r.AtBodyEnd (onlyCall ins body (k + 1)))
    (hends : ¬r.finish.IsExhausted) :
    ∃ next, r.step = .running next ∧ next.machine = r.machine ∧
      next.position = { sequence := body } ∧ next.calls = [onlyCall ins body k] := by
  obtain ⟨left, hbudget⟩ := exists_budget_of_pays (pays_of_remaining h.calls rfl) hends
  exact ⟨_, (Stepped.replayed h.current h.calls rfl hbudget).step_eq, rfl, rfl, rfl⟩

/-- At the end of the last replay, the run comes to its end. -/
theorem AtBodyEnd.finish_of_zero (h : r.AtBodyEnd (onlyCall ins body 0))
    (hjump : r.machine.requestedJump = 0) :
    r.finish.failure = none ∧
      r.finish.machine = { r.machine with callDepth := r.machine.callDepth - 1 } := by
  obtain ⟨next, hnext, hmachine, hposition, hcalls⟩ : ∃ next, r.step = .running next ∧
      next.machine = { r.machine with callDepth := r.machine.callDepth - 1 } ∧
      next.position = { sequence := #[ins], index := 1 } ∧ next.calls = [] := by
    refine ⟨_, (Stepped.returned h.current h.calls rfl).step_eq, Machine.clear_eq hjump, ?_, rfl⟩
    simp only [advance, hjump, onlyCall, nextIndex]
    rfl
  have hend : next.current? = none := by
    rw [current?, hposition]
    rfl
  rw [finish_of_running hnext, finish_of_ended (Stepped.finished hend hcalls).step_eq]
  exact ⟨rfl, hmachine⟩

/-- A call leaves what steers the machine as it was, whether it returns or fails. -/
theorem control_carryOut (hkind : ins.kind = .call ∨ ins.kind = .loopCall) (hm : m.Performs)
    (hjump : m.requestedJump = 0) (hbodies : m.PlainBodies) :
    (m.carryOut budget ins).machine.control = m.control := by
  have hstart := machine_start hjump budget #[ins]
  have hready : (start m budget #[ins]).Ready :=
    ⟨by rwa [hstart], by rwa [hstart], by rwa [hstart]⟩
  have hsettled := settled_stepOver hready rfl (.of_call hkind)
  unfold Machine.carryOut
  cases hstep : (start m budget #[ins]).stepOver with
  | running next =>
      rw [hstep] at hsettled
      have hend : next.current? = none := by
        rw [current?, hsettled.position]
        rfl
      rw [(reaches_of_stepOver hstep).finish_eq,
        finish_of_ended (Stepped.finished hend hsettled.calls).step_eq]
      exact hsettled.control.trans (congrArg Machine.control hstart)
  | ended o =>
      rw [hstep] at hsettled
      obtain ⟨m', left, events, failing, fault, hcontrol, rfl⟩ := hsettled
      rw [finish_of_stepOver_ended hstep]
      exact hcontrol.trans (congrArg Machine.control hstart)

end Run

namespace Machine

/-! ## Calls in a row -/

/-- A machine that performs a call of `f` by replaying the body of `d`. -/
structure Enters (m : Machine) (f : Value) (d : Definition) : Prop where
  /-- The machine performs plain instructions. -/
  performs : m.Performs
  /-- No jump is asked for. -/
  requestedJump : m.requestedJump = 0
  /-- All recorded bodies are plain. -/
  bodies : m.PlainBodies
  /-- The callee is `d`. -/
  callee : m.callee f = .ok d

variable {m : Machine} {f : Value} {d : Definition} {k budget : Nat} {call loopCall : Instruction}

/-- After a call of a function, the machine enters the same body again. -/
theorem Enters.carryOut (h : m.Enters f d) (hcall : call.kind = .call) (budget : Nat) :
    ((m.pushed f).carryOut budget call).machine.Enters f d := by
  have hperforms : (m.pushed f).Performs := h.performs.congr rfl rfl
  have hbodies : (m.pushed f).PlainBodies := h.bodies
  have hcontrol : ((m.pushed f).carryOut budget call).machine.control = m.control :=
    Run.control_carryOut (.inl hcall) hperforms h.requestedJump hbodies
  have hsettings : ((m.pushed f).carryOut budget call).machine.settings = m.settings :=
    (invariant_settings m.settings).finish (r := Run.start (m.pushed f) budget #[call]) rfl
  refine ⟨h.performs.congr (congrArg Control.branches hcontrol)
    (congrArg Control.recording hcontrol), ?_, ?_, ?_⟩
  · exact (congrArg Control.requestedJump hcontrol).trans h.requestedJump
  · exact invariant_plainBodies.finish (r := Run.start (m.pushed f) budget #[call]) hbodies
  · rw [callee_congr hcontrol hsettings, h.callee]

/-- A call begins to replay the body that it enters. -/
theorem Enters.exists_replay (h : m.Enters f d) (hcall : call.kind = .call)
    (hends : ¬((m.pushed f).carryOut budget call).IsExhausted) :
    ∃ s, (Run.start (m.pushed f) budget #[call]).Reaches s ∧
      s.machine = { m with callDepth := m.callDepth + 1 } ∧
      s.position = { sequence := d.body } ∧ s.calls = [Run.onlyCall call d.body 0] := by
  have hops : (m.pushed f).CallOperands call.kind f 1 1 := hcall ▸ .once rfl
  have hperforms : (m.pushed f).Performs := h.performs.congr rfl rfl
  obtain ⟨s, hs, hbody, hmachine⟩ :=
    Run.step_of_callee hops hperforms h.requestedJump (by decide) h.callee hends
  rw [popped_pushed] at hmachine
  have hfinish : (m.pushed f).carryOut budget call = s.finish := Run.finish_of_running hs
  rw [hfinish] at hends
  obtain ⟨s', hs', hmachine', hposition, hcalls⟩ :=
    Run.AtBodyEnd.step_of_succ (k := 0) hbody hends
  exact ⟨s', .tail (.single hs) hs', hmachine'.trans hmachine, hposition, hcalls⟩

/-- A call whose body has come to its end succeeds. The machine then is the one at the end of
the body, but for the call that is under way there. -/
theorem succeeded_of_bodyEnd {s : Run} {body : Array Instruction}
    (hreaches : (Run.start m budget #[call]).Reaches s)
    (hend : s.AtBodyEnd (Run.onlyCall call body 0)) :
    (m.carryOut budget call).failure = none ∧
      s.machine = { (m.carryOut budget call).machine with
        callDepth := (m.carryOut budget call).machine.callDepth + 1 } := by
  obtain ⟨hfailure, hmachine⟩ := hend.finish_of_zero (Run.requestedJump_of_reaches hreaches)
  have hdepth : s.machine.callDepth = m.callDepth + s.calls.length :=
    Run.callDepth_of_reaches rfl hreaches
  rw [hend.calls, List.length_singleton] at hdepth
  rw [carryOut, hreaches.finish_eq]
  refine ⟨hfailure, ?_⟩
  rw [hmachine, hdepth, Nat.add_sub_cancel, ← hdepth]

theorem callTimes_of_failed {failure : Failure}
    (h : ((m.pushed f).carryOut budget call).failure = some failure) :
    callTimes f call (k + 1) budget m = (m.pushed f).carryOut budget call := by
  simp only [callTimes, h]

theorem callTimes_of_succeeded (h : ((m.pushed f).carryOut budget call).failure = none) :
    callTimes f call (k + 1) budget m =
      let o := (m.pushed f).carryOut budget call
      let rest := callTimes f call k o.budget o.machine
      { rest with events := o.events ++ rest.events } := by
  simp only [callTimes, h]

/-- Calls in a row that are not out of budget in the end are not out of budget in the first
call. -/
theorem not_isExhausted_carryOut (h : ¬(callTimes f call (k + 1) budget m).IsExhausted) :
    ¬((m.pushed f).carryOut budget call).IsExhausted := by
  intro hexhausted
  obtain ⟨failure, hfailure, -⟩ := id hexhausted
  rw [callTimes_of_failed hfailure] at h
  exact h hexhausted

/-- The replays that are left of a repeated call do what so many calls in a row do. The
induction is on their number. -/
theorem Enters.agrees_callTimes {f : Value} {d : Definition} {call loopCall : Instruction}
    (hcall : call.kind = .call) {k : Nat} {m : Machine} {r : Run} {budget : Nat}
    (h : m.Enters f d) (hbody : r.AtBodyEnd (Run.onlyCall loopCall d.body k))
    (hmachine : r.machine = { m with callDepth := m.callDepth + 1 })
    (hends : ¬r.finish.IsExhausted) (hcallsEnd : ¬(callTimes f call k budget m).IsExhausted) :
    r.finish.Agrees (callTimes f call k budget m) := by
  induction k generalizing m r budget with
  | zero =>
      have hjump : r.machine.requestedJump = 0 := by
        rw [hmachine]
        exact h.requestedJump
      obtain ⟨hfailure, hfinal⟩ := hbody.finish_of_zero hjump
      refine ⟨by rw [hfailure]; rfl, ?_⟩
      rw [hfinal, hmachine]
      rfl
  | succ k ih =>
      have hfirstEnds := not_isExhausted_carryOut hcallsEnd
      obtain ⟨r₁, hr₁, hmachine₁, hposition₁, hcalls₁⟩ := hbody.step_of_succ hends
      obtain ⟨s₁, hs₁, hmachine₁', hposition₁', hcalls₁'⟩ := h.exists_replay hcall hfirstEnds
      have hside : r₁.SideBySide (Run.onlyCall loopCall d.body k)
          (Run.onlyCall call d.body 0) s₁ :=
        ⟨by rw [hmachine₁, hmachine, hmachine₁'], hposition₁.trans hposition₁'.symm,
          [], hcalls₁, hcalls₁'⟩
      have hcarryOut : (m.pushed f).carryOut budget call = s₁.finish := hs₁.finish_eq
      rw [Run.finish_of_running hr₁] at hends ⊢
      cases hside.bodiesEndAlike with
      | exhausted hexhausted =>
          rcases hexhausted with hexhausted | hexhausted
          · exact absurd hexhausted hends
          · exact absurd (hcarryOut ▸ hexhausted) hfirstEnds
      | failed hfailure hfailure' hsame =>
          rw [← hcarryOut] at hfailure' hsame
          rw [callTimes_of_failed hfailure']
          exact ⟨by rw [hfailure, hfailure'], hsame⟩
      | @ended r₂ s₂ hr₂ hs₂ hend hend' hsame =>
          obtain ⟨hsucceeded, hdeeper⟩ := succeeded_of_bodyEnd (hs₁.trans hs₂) hend'
          rw [callTimes_of_succeeded hsucceeded] at hcallsEnd ⊢
          rw [hr₂.finish_eq] at hends ⊢
          have hagrees := ih (h.carryOut hcall budget) hend (hsame.trans hdeeper) hends hcallsEnd
          exact ⟨hagrees.fault, hagrees.machine⟩

/-- A repeated call is so many calls in a row, on any machine that performs it. -/
theorem agrees_of_loopCall {m : Machine} {f n : Value} {call loopCall : Instruction}
    {budget budget' : Nat} (hm : m.Performs) (hjump : m.requestedJump = 0)
    (hbodies : m.PlainBodies) (hn : 0 < n) (hcall : call.kind = .call)
    (hloopCall : loopCall.kind = .loopCall)
    (hends : ¬(((m.pushed n).pushed f).carryOut budget loopCall).IsExhausted)
    (hcallsEnd : ¬(m.callTimes f call n.toInt.toNat budget').IsExhausted) :
    (((m.pushed n).pushed f).carryOut budget loopCall).Agrees
      (m.callTimes f call n.toInt.toNat budget') := by
  have hops : ((m.pushed n).pushed f).CallOperands loopCall.kind f n 2 := hloopCall ▸ .counted rfl
  have hperforms : ((m.pushed n).pushed f).Performs := hm.congr rfl rfl
  cases hcallee : m.callee f with
  | error fault =>
      have hpos : (0 : Int) < n.toInt := Int32.lt_iff_toInt_lt.1 hn
      obtain ⟨k, hk⟩ : ∃ k, n.toInt.toNat = k + 1 := Nat.exists_eq_succ_of_ne_zero (by omega)
      rw [hk] at hcallsEnd ⊢
      have hops' : (m.pushed f).CallOperands call.kind f 1 1 := hcall ▸ .once rfl
      obtain ⟨hfailure, hmachine⟩ :=
        Run.carryOut_of_callee_error hops hperforms hjump hn hcallee hends
      obtain ⟨hfailure', hmachine'⟩ := Run.carryOut_of_callee_error hops' (hm.congr rfl rfl) hjump
        (by decide) hcallee (not_isExhausted_carryOut hcallsEnd)
      rw [callTimes_of_failed hfailure']
      refine ⟨by rw [hfailure, hfailure']; rfl, ?_⟩
      rw [hmachine, hmachine', popped_pushed_pushed, popped_pushed]
  | ok d =>
      obtain ⟨r, hr, hbody, hmachine⟩ :=
        Run.step_of_callee hops hperforms hjump hn hcallee hends
      rw [popped_pushed_pushed] at hmachine
      have hfinish : ((m.pushed n).pushed f).carryOut budget loopCall = r.finish :=
        Run.finish_of_running hr
      rw [hfinish] at hends ⊢
      exact Enters.agrees_callTimes hcall ⟨hm, hjump, hbodies, hcallee⟩ hbody hmachine hends
        hcallsEnd

/-- A repeated call is so many calls in a row. At any moment of a machine's life when it executes
and no definition is open, a repeated call leads to what so many calls lead to that are made one
after the other until one fails. Both succeed, or both fail with the same fault, and they leave
the same machine, unless one of them is out of budget. The operands find room whatever the limit
of the stack is. -/
theorem loopCall_repeats_call {o : Options} {done : List Deed} {now : Moment}
    (hnow : (Moment.between (ofOptions o)).Leads done now)
    (hexec : now.machine.isExecuting = true) (hrec : now.machine.recording = none)
    {f n : Value} (hn : 0 < n) {call loopCall : Instruction} (hcall : call.kind = .call)
    (hloopCall : loopCall.kind = .loopCall) {budget budget' : Nat}
    (hends : ¬(((now.machine.pushed n).pushed f).carryOut budget loopCall).IsExhausted)
    (hcallsEnd : ¬(now.machine.callTimes f call n.toInt.toNat budget').IsExhausted) :
    (((now.machine.pushed n).pushed f).carryOut budget loopCall).Agrees
      (now.machine.callTimes f call n.toInt.toNat budget') :=
  agrees_of_loopCall ⟨hexec, hrec⟩ (requestedJump_of_leads hnow rfl)
    (invariant_plainBodies.leads hnow (plainBodies_ofOptions o)) hn hcall hloopCall hends hcallsEnd

/-- A program that pushes an operand and defines a function which pops one. -/
def poppingProgram : Array Instruction :=
  #[⟨.npushb, [5, 1], 0⟩, ⟨.fdef, [], 4⟩, ⟨.pop, [], 5⟩, ⟨.endf, [], 6⟩]

/-- The machine at the end of `poppingProgram`. -/
def poppingMachine : Machine :=
  ((Run.start (ofOptions {}) 1000000 poppingProgram).after 4).machine

/-- A repeated call of the function that pops, to be made twice. -/
def poppingTwice : Run :=
  Run.start ((poppingMachine.pushed 2).pushed 1) 10 #[⟨.loopcall, [], 7⟩]

/-- A call of the function that pops, at its end. -/
def poppedOnce : Run :=
  (Run.start (poppingMachine.pushed 1) 10 #[⟨.call, [], 7⟩]).after 4

/-- Another call of the function that pops. -/
def poppingAgain : Run :=
  Run.start (poppedOnce.machine.pushed 1) poppedOnce.budget #[⟨.call, [], 7⟩]

/-- A repeated call that fails in its second replay does what two calls in a row do, the second
of which fails. -/
theorem loopCall_repeats_call_failing :
    poppingTwice.finish.failure = some ⟨5, some .pop, .stackUnderflow⟩ ∧
      ((poppingMachine.pushed 1).carryOut 10 ⟨.call, [], 7⟩).failure = none ∧
      poppingTwice.finish.Agrees (poppingMachine.callTimes 1 ⟨.call, [], 7⟩ 2 10) := by
  have htwice : poppingTwice.finish =
      ((poppingTwice.after 4).charged ⟨.pop, [], 5⟩ 5).fail ⟨.pop, [], 5⟩ .stackUnderflow :=
    Run.finish_of_after_ended (n := 4) (by decide +kernel)
  have honce : (poppingMachine.pushed 1).carryOut 10 ⟨.call, [], 7⟩ = poppedOnce.succeed :=
    Run.finish_of_after_ended (n := 4) (by decide +kernel)
  have hagain : (poppedOnce.machine.pushed 1).carryOut poppedOnce.budget ⟨.call, [], 7⟩ =
      ((poppingAgain.after 2).charged ⟨.pop, [], 5⟩ 4).fail ⟨.pop, [], 5⟩ .stackUnderflow :=
    Run.finish_of_after_ended (n := 2) (by decide +kernel)
  have hfailure : poppingTwice.finish.failure = some ⟨5, some .pop, .stackUnderflow⟩ :=
    congrArg Outcome.failure htwice
  have hfailure' : (poppingMachine.callTimes 1 ⟨.call, [], 7⟩ 2 10).failure =
      some ⟨5, some .pop, .stackUnderflow⟩ := by
    rw [callTimes_of_succeeded (congrArg Outcome.failure honce), honce]
    have hfails := congrArg Outcome.failure hagain
    exact (congrArg Outcome.failure (callTimes_of_failed hfails)).trans hfails
  have hnow := (Moment.Leads.start (ofOptions {}) poppingProgram).after 4
  refine ⟨hfailure, congrArg Outcome.failure honce, ?_⟩
  refine loopCall_repeats_call hnow rfl rfl (n := 2) (by decide) rfl rfl ?_ ?_
  · rintro ⟨failure, hexhausted, hbudget⟩
    cases hfailure.symm.trans hexhausted
    cases hbudget
  · rintro ⟨failure, hexhausted, hbudget⟩
    cases hfailure'.symm.trans hexhausted
    cases hbudget

end Machine

end GridFit
