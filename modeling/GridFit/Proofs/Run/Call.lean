import GridFit.Proofs.Machine.Branches
import GridFit.Proofs.Program.RoundTrip
import GridFit.Proofs.Run.RecordedBodies

/-!
# What calls leave alone

A call replays plain bodies only, so nothing that happens inside it changes branches or
definitions, and the number of calls that are under way is the one before it when it
returns or fails. The main statement says this of every call in every run of a
reachable machine.

## Implementation notes

`Inside` describes a run between the start of a call and its return. The calls above
the caller are counted, so that the number of calls can be compared at every step.
-/

namespace GridFit

/-- A sequence of plain instructions. -/
def IsPlainSequence (sequence : Array Instruction) : Prop :=
  ∀ ins ∈ sequence, ins.IsPlain

/-- A position inside of `n` calls that were made one in the other, the outermost of them
at `origin` when `base` was under way. -/
inductive Within (base : List OpenCall) (origin : Position) :
    Position → List OpenCall → Nat → Prop
  | outermost {p c} (hsequence : IsPlainSequence p.sequence) (hbody : IsPlainSequence c.body)
      (hcaller : c.caller = origin) : Within base origin p (c :: base) 1
  | nested {p c calls n} (hsequence : IsPlainSequence p.sequence)
      (hbody : IsPlainSequence c.body) (hcaller : Within base origin c.caller calls n) :
      Within base origin p (c :: calls) (n + 1)

namespace Within

variable {base : List OpenCall} {origin p : Position} {calls : List OpenCall} {n : Nat}

theorem isPlainSequence (h : Within base origin p calls n) : IsPlainSequence p.sequence := by
  cases h with
  | outermost hsequence hbody hcaller => exact hsequence
  | nested hsequence hbody hcaller => exact hsequence

theorem length_eq (h : Within base origin p calls n) : calls.length = base.length + n := by
  induction h with
  | outermost hsequence hbody hcaller => rfl
  | nested hsequence hbody hcaller ih => rw [List.length_cons, ih, Nat.add_assoc]

theorem pos (h : Within base origin p calls n) : 0 < n := by
  cases h <;> exact Nat.succ_pos _

/-- Moving on in the innermost body stays inside of the same calls. -/
theorem move (h : Within base origin p calls n) {q : Position}
    (hq : IsPlainSequence q.sequence) : Within base origin q calls n := by
  cases h with
  | outermost hsequence hbody hcaller => exact .outermost hq hbody hcaller
  | nested hsequence hbody hcaller => exact .nested hq hbody hcaller

/-- Starting a replay of the innermost body stays inside of the same calls. -/
theorem replay {c : OpenCall} (h : Within base origin p (c :: calls) n) (k : Nat) :
    Within base origin { sequence := c.body } ({ c with remaining := k } :: calls) n := by
  cases h with
  | outermost hsequence hbody hcaller => exact .outermost hbody hbody hcaller
  | nested hsequence hbody hcaller => exact .nested hbody hbody hcaller

end Within

namespace Machine

/-- Branches and the open definition decide whether a machine performs plain
instructions. -/
theorem Performs.congr {m m' : Machine} (hm : m.Performs) (hbranches : m'.branches = m.branches)
    (hrecording : m'.recording = m.recording) : m'.Performs := by
  have hexec : m'.isExecuting = m.isExecuting := by
    simp only [Machine.isExecuting, hbranches]
  exact ⟨hexec.trans hm.isExecuting, hrecording.trans hm.recording⟩

end Machine

namespace Run

/-- A run that is about to perform an instruction of a machine without markers in its
bodies. -/
structure Ready (r : Run) : Prop where
  /-- The machine performs plain instructions. -/
  performs : r.machine.Performs
  /-- No jump is asked for. -/
  requestedJump : r.machine.requestedJump = 0
  /-- All recorded bodies are plain. -/
  bodies : r.machine.PlainBodies

/-- The run `s` is inside of `n` calls, the outermost of which was made by `r`. -/
structure Inside (r : Run) (n : Nat) (s : Run) : Prop where
  /-- The calls that `r` did not make itself are the innermost ones. -/
  within : Within r.calls r.position s.position s.calls n
  /-- Only the number of calls differs from the control state of the caller. -/
  control : s.machine.control =
    { r.machine.control with callDepth := r.machine.callDepth + n }

/-- The run `next` goes on after an instruction of `r` that left the control state as it
was. -/
structure Returned (r next : Run) : Prop where
  /-- The control state is the one before. -/
  control : next.machine.control = r.machine.control
  /-- The same calls are under way. -/
  calls : next.calls = r.calls
  /-- The next instruction of the sequence has its turn. -/
  position : next.position = { r.position with index := r.position.index + 1 }

/-- A run ended by a failure that is the same as a failure at an instruction of `r`, with a
machine that has the control state of `r`. -/
def Abandoned (r : Run) (o : Outcome) : Prop :=
  ∃ m budget events ins fault, m.control = r.machine.control ∧
    o = ({ r with machine := m, budget, events } : Run).fail ins fault

/-- What is left of an instruction of `r`: the run goes on after it, or fails. -/
def Settled (r : Run) : Progress → Prop
  | .running next => r.Returned next
  | .ended o => r.Abandoned o

namespace Inside

variable {r s : Run} {n : Nat}

theorem performs (hr : r.Ready) (h : r.Inside n s) : s.machine.Performs :=
  hr.performs.congr (congrArg Control.branches h.control) (congrArg Control.recording h.control)

theorem requestedJump (hr : r.Ready) (h : r.Inside n s) : s.machine.requestedJump = 0 :=
  (congrArg Control.requestedJump h.control).trans hr.requestedJump

/-- A failure inside of calls closes them all. -/
theorem abandoned (h : r.Inside n s) {m : Machine} (hm : m.control = s.machine.control)
    {budget : Nat} {events : List Event} (ins : Instruction) (fault : Fault) :
    r.Abandoned (({ s with machine := m, budget, events } : Run).fail ins fault) := by
  refine ⟨{ m with callDepth := m.callDepth - n }, budget, events, ins, fault, ?_, ?_⟩
  · have hcontrol := hm.trans h.control
    have hdepth : m.callDepth = r.machine.callDepth + n := congrArg Control.callDepth hcontrol
    calc
      ({ m with callDepth := m.callDepth - n } : Machine).control =
          { m.control with callDepth := m.callDepth - n } := rfl
      _ = { r.machine.control with callDepth := m.callDepth - n } := by rw [hcontrol]
      _ = r.machine.control := by rw [hdepth, Nat.add_sub_cancel]; rfl
  · have hlength : m.callDepth - s.calls.length = m.callDepth - n - r.calls.length := by
      rw [h.within.length_eq, Nat.add_comm, Nat.sub_sub]
    simp only [fail, hlength]

/-- A step inside of a call stays inside, or returns, or fails. -/
theorem step (hr : r.Ready) (h : r.Inside n s) :
    match s.step with
    | .running next => (∃ k, r.Inside k next) ∨ r.Returned next
    | .ended o => r.Abandoned o := by
  have hperforms := h.performs hr
  have hjump := h.requestedJump hr
  have hplain {ins : Instruction} (hins : s.current? = some ins) : ins.IsPlain :=
    h.within.isPlainSequence ins (Array.mem_of_getElem? hins)
  have hstep := s.stepped
  generalize s.step = progress at hstep ⊢
  cases hstep with
  | exhausted hins hbudget => exact h.abandoned rfl _ _
  | failed hins hbudget hdispatch =>
      exact h.abandoned (Machine.control_of_dispatch_error hperforms (hplain hins) hdispatch) _ _
  | advanced hins hbudget hdispatch hreplay =>
      have hcontrol := Machine.control_of_dispatch_ok hperforms (hplain hins) hdispatch
      exact .inl ⟨n, h.within.move h.within.isPlainSequence,
        (Machine.control_clear hcontrol hjump).trans h.control⟩
  | entered hins hbudget hdispatch hreplay =>
      obtain ⟨f, count, k, d, -, -, -, -, hget, -, rfl, -, rfl⟩ :=
        Machine.called_of_replay hdispatch hreplay
      have hfunctions : s.machine.functions = r.machine.functions :=
        congrArg Control.functions h.control
      have hbody : IsPlainSequence d.body := hr.bodies.isPlain_of_get (hfunctions ▸ hget)
      exact .inl ⟨n + 1, .nested hbody hbody h.within,
        Machine.control_deeper h.control⟩
  | finished hend hcalls =>
      have hlength := h.within.length_eq
      have hpos := h.within.pos
      simp only [hcalls, List.length_nil] at hlength
      omega
  | returned hend hcalls hremaining =>
      have hwithin := h.within
      rw [hcalls] at hwithin
      cases hwithin with
      | outermost hsequence hbody hcaller =>
          exact .inr ⟨Machine.control_shallower h.control hjump, rfl,
            by simp [advance, hjump, hcaller, nextIndex]⟩
      | nested hsequence hbody hcaller =>
          exact .inl ⟨_, hcaller.move hcaller.isPlainSequence,
            Machine.control_shallower h.control hjump⟩
  | replayExhausted hend hcalls hremaining hbudget => exact h.abandoned rfl _ _
  | replayed hend hcalls hremaining hbudget =>
      refine .inl ⟨n, ?_, h.control⟩
      have hwithin := h.within
      rw [hcalls] at hwithin
      exact hwithin.replay _

/-- Driving a run inside of a call until the call is over settles the calling
instruction. -/
theorem settled_returnTo (hr : r.Ready) (h : (∃ k, r.Inside k s) ∨ r.Returned s) :
    r.Settled (s.returnTo r.calls.length) := by
  generalize hdepth : r.calls.length = depth
  fun_induction returnTo depth s with
  | case1 s hle =>
      rcases h with ⟨k, h⟩ | h
      · have hlength := h.within.length_eq
        have hpos := h.within.pos
        omega
      · exact h
  | case2 s hlt next hnext ih =>
      rcases h with ⟨k, h⟩ | h
      · exact ih (by simpa only [hnext] using h.step hr)
      · simp [h.calls, hdepth] at hlt
  | case3 s hlt o hend =>
      rcases h with ⟨k, h⟩ | h
      · have hstep := h.step hr
        rw [hend] at hstep
        exact hstep
      · simp [h.calls, hdepth] at hlt

end Inside

/-- A straight instruction goes into a call, or is done, or fails. -/
theorem step_of_isStraight {r : Run} (hr : r.Ready) {ins : Instruction}
    (hins : r.current? = some ins) (hstraight : ins.IsStraight) :
    match r.step with
    | .running next => (∃ k, r.Inside k next) ∨ r.Returned next
    | .ended o => r.Abandoned o := by
  have hplain := hstraight.isPlain
  have hstep := r.stepped
  generalize r.step = progress at hstep ⊢
  cases hstep with
  | exhausted hins hbudget => exact ⟨_, _, _, _, _, rfl, rfl⟩
  | failed hins' hbudget hdispatch =>
      obtain rfl := Option.some.inj (hins.symm.trans hins')
      exact ⟨_, _, _, _, _,
        Machine.control_of_dispatch_error hr.performs hplain hdispatch, rfl⟩
  | advanced hins' hbudget hdispatch hreplay =>
      obtain rfl := Option.some.inj (hins.symm.trans hins')
      have hcontrol := Machine.control_of_dispatch_ok hr.performs hplain hdispatch
      have hjump := (Machine.requestedJump_of_isStraight hstraight hr.performs hdispatch).trans
        hr.requestedJump
      refine .inr ⟨Machine.control_clear hcontrol hr.requestedJump, rfl, ?_⟩
      simp [advance, carriedOut, hjump, nextIndex]
  | entered hins' hbudget hdispatch hreplay =>
      obtain ⟨f, count, k, d, -, -, -, -, hget, -, rfl, -, rfl⟩ :=
        Machine.called_of_replay hdispatch hreplay
      have hbody : IsPlainSequence d.body := hr.bodies.isPlain_of_get hget
      exact .inl
        ⟨1, .outermost hbody hbody rfl, Machine.control_deeper (c := r.machine.control) rfl⟩
  | _ => simp_all

/-- A straight instruction is settled when it has been stepped over. -/
theorem settled_stepOver {r : Run} (hr : r.Ready) {ins : Instruction}
    (hins : r.current? = some ins) (hstraight : ins.IsStraight) : r.Settled r.stepOver := by
  have hstep := step_of_isStraight hr hins hstraight
  unfold stepOver
  split
  · next next hnext =>
      rw [hnext] at hstep
      exact Inside.settled_returnTo hr hstep
  · next o hend =>
      rw [hend] at hstep
      exact hstep

end Run

namespace Machine

/-- Calls do not disturb the control state. In reachable machines and at every step of
their runs all recorded bodies are plain. So a call that is performed, wherever it stands
and however it ends, finds no jump asked for and leaves the control state as it was. -/
theorem control_kept_by_calls {o : Options} {m : Machine} (hm : Reachable o m) :
    m.PlainBodies ∧
      ∀ {bytes : List UInt8} {program : Array Instruction} {r : Run},
        parse bytes = .ok program → (Run.start m m.budget program).Reaches r →
        r.machine.PlainBodies ∧
          ∀ ins, r.current? = some ins → ins.kind = .call ∨ ins.kind = .loopCall →
            r.machine.isExecuting = true → r.machine.recording = none →
            r.machine.requestedJump = 0 ∧ r.Settled r.stepOver := by
  refine ⟨invariant_plainBodies.reachable (plainBodies_ofOptions o) hm, ?_⟩
  intro bytes program r _ hr
  have hbodies := invariant_plainBodies.reachable_reaches (plainBodies_ofOptions o) hm hr
  have hjump := Run.requestedJump_of_reaches hr
  refine ⟨hbodies, fun ins hins hkind hexec hrec => ⟨hjump, ?_⟩⟩
  exact Run.settled_stepOver ⟨⟨hexec, hrec⟩, hjump, hbodies⟩ hins (.of_call hkind)

/-- A program that defines a function and calls it does so without a trace in the control
state. -/
theorem control_kept_by_one_call :
    ∃ r, (Run.start (ofOptions {}) 1000000
        #[⟨.pushb 0, [0], 0⟩, ⟨.fdef, [], 2⟩, ⟨.pushb 0, [7], 3⟩, ⟨.endf, [], 5⟩,
          ⟨.pushb 0, [0], 6⟩, ⟨.call, [], 8⟩]).Reaches r ∧
      r.current? = some ⟨.call, [], 8⟩ ∧ r.Settled r.stepOver := by
  have hparse : parse [0xB0, 0, 0x2C, 0xB0, 7, 0x2D, 0xB0, 0, 0x2B] =
      .ok #[⟨.pushb 0, [0], 0⟩, ⟨.fdef, [], 2⟩, ⟨.pushb 0, [7], 3⟩, ⟨.endf, [], 5⟩,
        ⟨.pushb 0, [0], 6⟩, ⟨.call, [], 8⟩] :=
    parse_eq_ok_iff.2 ⟨by decide, rfl⟩
  have hreaches := Run.reaches_after 5 (Run.start (ofOptions {}) 1000000
    #[⟨.pushb 0, [0], 0⟩, ⟨.fdef, [], 2⟩, ⟨.pushb 0, [7], 3⟩, ⟨.endf, [], 5⟩,
      ⟨.pushb 0, [0], 6⟩, ⟨.call, [], 8⟩])
  refine ⟨_, hreaches, rfl, ?_⟩
  exact (((control_kept_by_calls .fresh).2 hparse hreaches).2 _ rfl (.inl rfl) rfl rfl).2

end Machine

end GridFit
