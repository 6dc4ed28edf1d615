import GridFit.Proofs.Structured.Stretch

/-!
# Structured programs are executed faithfully

The machine does not know which marker belongs to which test. It keeps a frame for every
test that it has taken the operand of, and only counts the tests in between that it skips.
The main statement says that this is enough: the instructions of a structured program in a
row do what evaluating it arm by arm does, as long as no arm has a test with two arms.

## Implementation notes

The frames that a program opens lie on top of those of the machine, so the simulation is
stated for any frames on top of a machine that performs. Skipping an arm is a statement of
its own, for any number of tests that have been counted before.
-/

namespace GridFit

/-- A machine that performs instructions, with nothing left over from before. -/
structure Machine.IsSteady (m : Machine) : Prop where
  /-- Plain instructions are performed. -/
  performs : m.Performs
  /-- No test is being skipped. -/
  skippedIfs : m.skippedIfs = 0
  /-- No jump is asked for. -/
  requestedJump : m.requestedJump = 0
  /-- All recorded bodies are plain. -/
  bodies : m.PlainBodies

namespace Run

variable {r : Run} {m : Machine} {sequence : Array Instruction} {i : Nat} {ins : Instruction}

theorem isAt_start (h : m.requestedJump = 0) (sequence : Array Instruction) :
    (start m m.budget sequence).IsAt m sequence 0 :=
  ⟨Machine.clear_eq h, rfl, rfl, Nat.le_refl _⟩

theorem IsAt.ready (h : r.IsAt m sequence i) (hperforms : m.Performs)
    (hjump : m.requestedJump = 0) (hbodies : m.PlainBodies) : r.Ready := by
  obtain ⟨rfl, -, -, -⟩ := h
  exact ⟨hperforms, hjump, hbodies⟩

theorem IsAt.current? (h : r.IsAt m sequence i) (hins : sequence[i]? = some ins) :
    r.current? = some ins := by
  rw [Run.current?, h.position, hins]

/-- At the end of its sequence, a run succeeds. -/
theorem IsAt.finish_eq (h : r.IsAt m sequence i) (hend : sequence[i]? = none) :
    r.finish = r.succeed := by
  have hcurrent : r.current? = none := by rw [Run.current?, h.position, hend]
  exact finish_of_ended (Stepped.finished hcurrent h.calls).step_eq

end Run

namespace Structured

variable {ins : Instruction} {e e' : Machine}

/-! ## Single instructions -/

/-- Performing an instruction alone fails as stepping over it does. -/
theorem performAlone_of_ended {o : Outcome} {failure : Failure}
    (h : (Run.start e e.budget #[ins]).stepOver = .ended o) (hfailure : o.failure = some failure) :
    performAlone ins e = .error failure o.machine := by
  have hexecute : e.execute #[ins] = o := Run.finish_of_stepOver_ended h
  obtain ⟨machine, _, budget, events⟩ := o
  subst hfailure
  simp only [performAlone, hexecute]

/-- Performing an instruction alone leaves the machine that stepping over it does. -/
theorem performAlone_of_running {s : Run}
    (h : (Run.start e e.budget #[ins]).stepOver = .running s)
    (hreturned : (Run.start e e.budget #[ins]).Returned s) :
    performAlone ins e = .ok () s.machine := by
  have hcurrent : s.current? = none := by
    rw [Run.current?, hreturned.position]
    rfl
  have hexecute : e.execute #[ins] = s.succeed :=
    (Run.reaches_of_stepOver h).finish_eq.trans
      (Run.finish_of_ended (Run.Stepped.finished hcurrent hreturned.calls).step_eq)
  simp only [performAlone, hexecute, Run.succeed]

/-- Performing an instruction alone leaves a steady machine steady. -/
theorem isSteady_of_performAlone (he : e.IsSteady) (hstraight : ins.IsStraight)
    (h : performAlone ins e = .ok () e') : e'.IsSteady := by
  have hat := Run.isAt_start he.requestedJump #[ins]
  have hready := hat.ready he.performs he.requestedJump he.bodies
  have hsettled := Run.settled_stepOver hready (hat.current? rfl) hstraight
  cases hstep : (Run.start e e.budget #[ins]).stepOver with
  | ended o =>
      rw [hstep] at hsettled
      obtain ⟨m, budget, events, other, fault, -, rfl⟩ := hsettled
      rw [performAlone_of_ended hstep rfl] at h
      cases h
  | running s =>
      rw [hstep] at hsettled
      have hcontrol : s.machine.control = e.control := hsettled.control.trans (by rw [hat.machine])
      rw [performAlone_of_running hstep hsettled] at h
      cases h
      exact ⟨he.performs.congr (congrArg Control.branches hcontrol)
          (congrArg Control.recording hcontrol),
        (congrArg Control.skippedIfs hcontrol).trans he.skippedIfs,
        (congrArg Control.requestedJump hcontrol).trans he.requestedJump,
        Machine.invariant_plainBodies.reaches hready.bodies (Run.reaches_of_stepOver hstep)⟩

/-- A run that has come to a straight instruction does what performing it alone does. -/
theorem follows_performAlone (he : e.IsSteady) (hstraight : ins.IsStraight)
    {branches : List Bool} (hexec : (e.withBranches branches).isExecuting = true)
    {sequence : Array Instruction} {i : Nat} (hins : sequence[i]? = some ins) {r : Run}
    (hr : r.IsAt (e.withBranches branches) sequence i) :
    r.Follows branches sequence (i + 1) (performAlone ins e) := by
  have hperforms : (e.withBranches branches).Performs := ⟨hexec, he.performs.recording⟩
  have hat := Run.isAt_start he.requestedJump #[ins]
  have hmirrors : r.Mirrors branches (Run.start e e.budget #[ins]) := by
    refine ⟨by rw [hr.machine, hat.machine], ?_, ?_, hr.budget⟩
    · rw [hr.machine, hat.machine]
      exact ⟨hperforms, he.performs⟩
    · rw [hr.calls]
      exact .program _ _
  have hready := hr.ready hperforms he.requestedJump he.bodies
  have hready' := hat.ready he.performs he.requestedJump he.bodies
  have hcurrent := hr.current? hins
  have hcurrent' : (Run.start e e.budget #[ins]).current? = some ins := hat.current? rfl
  have hsettled := Run.settled_stepOver hready hcurrent hstraight
  have hsettled' := Run.settled_stepOver hready' hcurrent' hstraight
  have halike := hmirrors.stepOver hready hr.calls hcurrent hcurrent' hstraight
  generalize hstep : r.stepOver = progress at halike hsettled
  generalize hstep' : (Run.start e e.budget #[ins]).stepOver = progress' at halike hsettled'
  cases halike with
  | exhausted hexhausted =>
      rw [← Run.finish_of_stepOver_ended hstep] at hexhausted
      exact .of_isExhausted hexhausted
  | @running next s hnext =>
      rw [performAlone_of_running hstep' hsettled']
      have hreaches := Run.reaches_of_stepOver hstep
      refine .inr ⟨next, hreaches, hnext.machine, ?_, hsettled.calls.trans hr.calls, ?_⟩
      · rw [hsettled.position, hr.position]
      · have hkept : s.machine.budget = e.budget :=
          (Machine.invariant_budget e.budget).reaches rfl (Run.reaches_of_stepOver hstep')
        show next.budget ≤ s.machine.budget
        rw [hkept]
        exact Nat.le_trans hreaches.budget_le hr.budget
  | failed hfailure hfailure' hmachine =>
      rw [performAlone_of_ended hstep' hfailure']
      refine .inr ?_
      rw [Run.finish_of_stepOver_ended hstep]
      exact ⟨hfailure, branches, hmachine⟩

/-! ## Skipped arms -/

/-- A program in which no test has two arms is skipped without a trace, however many tests
have been counted before. -/
theorem continues_of_skipping {p : Structured} (hp : p.IsWellFormed) (helse : p.HasNoElse)
    {m : Machine} (hexec : m.isExecuting = false) (hjump : m.requestedJump = 0)
    {sequence : Array Instruction} {i : Nat} (hcode : StandsAt sequence i p.flatten) {r : Run}
    (hr : r.IsAt m sequence i) : r.Continues m sequence (i + p.flatten.length) := by
  induction p generalizing m i r with
  | done => exact hr.continues
  | perform ins rest ih =>
      obtain ⟨hins, hrest⟩ := hcode
      rw [add_length_perform]
      have hdispatch : Machine.dispatch sequence i ins m = .ok {} m :=
        Machine.dispatch_skipped hp.1.isPlain hexec
      apply (hr.continues_of_dispatch hins hdispatch rfl hjump).trans
      intro next hnext
      exact ih hp.2 helse hexec hjump hrest hnext
  | test ifTest arm endIf rest iharm ihrest =>
      obtain ⟨hif, ⟨harm, -⟩, hendIf, hrest⟩ := hp
      obtain ⟨helseArm, helseRest⟩ := helse
      obtain ⟨hins, hcode⟩ := hcode
      obtain ⟨hcodeArm, hinsEnd, hcodeRest⟩ := standsAt_append.1 hcode
      rw [add_length_test]
      -- The test is counted, and its end takes the count back.
      have hcounted := hr.continues_of_dispatch hins
        (Machine.dispatch_ifTest_counted hif hexec) rfl hjump
      apply hcounted.trans
      intro next hnext
      have hskipped := iharm harm helseArm (m := { m with skippedIfs := m.skippedIfs + 1 })
        hexec hjump hcodeArm hnext
      apply hskipped.trans
      intro next hnext
      have hclosed := hnext.continues_of_dispatch hinsEnd
        (Machine.dispatch_endIf_counted hendIf rfl) rfl hjump
      apply hclosed.trans
      intro next hnext
      exact ihrest hrest helseRest hexec hjump hcodeRest hnext
  | choice ifTest arm elseMark otherwise endIf rest iharm ihotherwise ihrest => exact helse.elim

/-! ## Whole programs -/

theorem isSteady_popped (he : e.IsSteady) (n : Nat) : (e.popped n).IsSteady :=
  ⟨he.performs.congr rfl rfl, he.skippedIfs, he.requestedJump, he.bodies⟩

theorem isSteady_of_popTest {ifTest : Instruction} (he : e.IsSteady) {holds : Bool}
    (h : popTest ifTest e = .ok holds e') : e'.IsSteady := by
  unfold popTest at h
  split at h
  · next v m hpop =>
      cases h
      cases hvalues : e.stack.values with
      | nil => simp [Machine.pop_nil hvalues] at hpop
      | cons v rest =>
          rw [Machine.pop_cons hvalues] at hpop
          cases hpop
          exact isSteady_popped he 1
  · cases h

/-- An evaluation that succeeds leaves a steady machine steady. -/
theorem isSteady_of_eval {p : Structured} (hp : p.IsWellFormed) (he : e.IsSteady)
    (h : p.eval e = .ok () e') : e'.IsSteady := by
  induction p generalizing e e' with
  | done =>
      cases h
      exact he
  | perform ins rest ih =>
      obtain ⟨_, t, hins, hrest⟩ := ok_of_bind h
      exact ih hp.2 (isSteady_of_performAlone he hp.1 hins) hrest
  | test ifTest arm endIf rest iharm ihrest =>
      obtain ⟨-, ⟨harm, -⟩, -, hrest⟩ := hp
      obtain ⟨holds, t, htest, h⟩ := ok_of_bind h
      obtain ⟨_, u, hselected, h⟩ := ok_of_bind h
      have ht := isSteady_of_popTest he htest
      refine ihrest hrest ?_ h
      cases holds with
      | true => exact iharm harm ht hselected
      | false =>
          cases hselected
          exact ht
  | choice ifTest arm elseMark otherwise endIf rest iharm ihotherwise ihrest =>
      obtain ⟨-, ⟨harm, -⟩, -, ⟨hotherwise, -⟩, -, hrest⟩ := hp
      obtain ⟨holds, t, htest, h⟩ := ok_of_bind h
      obtain ⟨_, u, hselected, h⟩ := ok_of_bind h
      have ht := isSteady_of_popTest he htest
      refine ihrest hrest ?_ h
      cases holds with
      | true => exact iharm harm ht hselected
      | false => exact ihotherwise hotherwise ht hselected

section

variable {branches : List Bool} {sequence : Array Instruction} {i j : Nat} {r : Run}

/-- A test pops its operand and opens a frame for it. -/
theorem follows_popTest {ifTest : Instruction} (hkind : ifTest.kind = .ifTest)
    (hexec : (e.withBranches branches).isExecuting = true) (hins : sequence[i]? = some ifTest)
    (hjump : e.requestedJump = 0) (hr : r.IsAt (e.withBranches branches) sequence i)
    {f : Bool → EStateM Failure Machine Unit}
    (hnext : ∀ (holds : Bool) (next : Run), popTest ifTest e = .ok holds (e.popped 1) →
      next.IsAt ((e.popped 1).withBranches (holds :: branches)) sequence (i + 1) →
      next.Follows branches sequence j (f holds (e.popped 1))) :
    r.Follows branches sequence j ((popTest ifTest >>= f) e) := by
  rw [bind_apply]
  cases hvalues : e.stack.values with
  | nil =>
      have htest : popTest ifTest e = .error (.ofInstruction ifTest .stackUnderflow) e := by
        simp only [popTest, Machine.pop_nil hvalues]
      rw [htest]
      exact hr.stops_of_dispatch hins (Machine.dispatch_ifTest_underflow hkind hexec hvalues)
  | cons v rest =>
      have htest : popTest ifTest e = .ok (v != 0) (e.popped 1) := by
        simp only [popTest, Machine.pop_cons hvalues]
      rw [htest]
      have hopened := hr.continues_of_dispatch hins
        (Machine.dispatch_ifTest_opened hkind hexec hvalues) rfl hjump
      apply hopened.follows
      intro next hat
      exact hnext (v != 0) next htest hat

/-- The end of a test closes its frame. -/
theorem continues_of_endIf {endIf : Instruction} (hkind : endIf.kind = .endIf) (he : e.IsSteady)
    {executes : Bool} (hins : sequence[i]? = some endIf)
    (hr : r.IsAt (e.withBranches (executes :: branches)) sequence i) :
    r.Continues (e.withBranches branches) sequence (i + 1) :=
  hr.continues_of_dispatch hins (Machine.dispatch_endIf_closed hkind he.skippedIfs _ _) rfl
    he.requestedJump

/-- Between its arms, the frame of a test is turned around. -/
theorem continues_of_elseMark {elseMark : Instruction} (hkind : elseMark.kind = .elseMark)
    (he : e.IsSteady) {executes : Bool} (hins : sequence[i]? = some elseMark)
    (hr : r.IsAt (e.withBranches (executes :: branches)) sequence i) :
    r.Continues (e.withBranches ((!executes) :: branches)) sequence (i + 1) :=
  hr.continues_of_dispatch hins (Machine.dispatch_elseMark hkind _ _ _) rfl he.requestedJump

/-- Under a frame that does not execute, an arm is skipped. -/
theorem continues_of_skipped_arm {p : Structured} (hp : p.IsWellFormed) (helse : p.HasNoElse)
    (he : e.IsSteady) (hcode : StandsAt sequence i p.flatten)
    (hr : r.IsAt (e.withBranches (false :: branches)) sequence i) :
    r.Continues (e.withBranches (false :: branches)) sequence (i + p.flatten.length) := by
  have hjump : (e.withBranches (false :: branches)).requestedJump = 0 := he.requestedJump
  exact continues_of_skipping hp helse rfl hjump hcode hr

/-- A run of the instructions of a program in a row does what its evaluation does, under any
frames that execute. -/
theorem follows_eval {p : Structured} (hp : p.IsWellFormed) (he : e.IsSteady)
    (hexec : (e.withBranches branches).isExecuting = true)
    (hcode : StandsAt sequence i p.flatten) (hr : r.IsAt (e.withBranches branches) sequence i) :
    r.Follows branches sequence (i + p.flatten.length) (p.eval e) := by
  induction p generalizing e branches i r with
  | done => exact hr.continues
  | perform ins rest ih =>
      obtain ⟨hins, hrest⟩ := hcode
      rw [add_length_perform]
      apply (follows_performAlone he hp.1 hexec hins hr).bind
      intro e' next heval hnext
      exact ih hp.2 (isSteady_of_performAlone he hp.1 heval) hexec hrest hnext
  | test ifTest arm endIf rest iharm ihrest =>
      obtain ⟨hif, ⟨harm, helse⟩, hendIf, hrest⟩ := hp
      obtain ⟨hins, hcode⟩ := hcode
      obtain ⟨hcodeArm, hinsEnd, hcodeRest⟩ := standsAt_append.1 hcode
      rw [add_length_test]
      apply follows_popTest hif hexec hins he.requestedJump hr
      intro holds next htest hat
      have ht := isSteady_of_popTest he htest
      -- The selected arm, up to the end of the test, and then what comes after it.
      have hselected : next.Follows branches sequence (i + 1 + arm.flatten.length + 1)
          ((bif holds then arm.eval else pure ()) (e.popped 1)) := by
        cases holds with
        | true =>
            apply (iharm harm ht rfl hcodeArm hat).trans
            intro e' next heval hat
            exact continues_of_endIf hendIf (isSteady_of_eval harm ht heval) hinsEnd hat
        | false =>
            have hskipped := continues_of_skipped_arm harm helse ht hcodeArm hat
            apply hskipped.trans
            intro next hat
            exact continues_of_endIf hendIf ht hinsEnd hat
      apply hselected.bind
      intro e' next heval hat
      refine ihrest hrest ?_ hexec hcodeRest hat
      cases holds with
      | true => exact isSteady_of_eval harm ht heval
      | false =>
          cases heval
          exact ht
  | choice ifTest arm elseMark otherwise endIf rest iharm ihotherwise ihrest =>
      obtain ⟨hif, ⟨harm, helse⟩, hmark, ⟨hotherwise, helse'⟩, hendIf, hrest⟩ := hp
      obtain ⟨hins, hcode⟩ := hcode
      obtain ⟨hcodeArm, hinsMark, hcode⟩ := standsAt_append.1 hcode
      obtain ⟨hcodeOtherwise, hinsEnd, hcodeRest⟩ := standsAt_append.1 hcode
      rw [add_length_choice]
      apply follows_popTest hif hexec hins he.requestedJump hr
      intro holds next htest hat
      have ht := isSteady_of_popTest he htest
      have hselected : next.Follows branches sequence
          (i + 1 + arm.flatten.length + 1 + otherwise.flatten.length + 1)
          ((bif holds then arm.eval else otherwise.eval) (e.popped 1)) := by
        cases holds with
        | true =>
            -- The second arm is skipped before the test ends.
            apply (iharm harm ht rfl hcodeArm hat).trans
            intro e' next heval hat
            have he' := isSteady_of_eval harm ht heval
            apply (continues_of_elseMark hmark he' hinsMark hat).trans
            intro next hat
            have hskipped :=
              continues_of_skipped_arm hotherwise helse' he' hcodeOtherwise hat
            apply hskipped.trans
            intro next hat
            exact continues_of_endIf hendIf he' hinsEnd hat
        | false =>
            -- The first arm is skipped before the second one is executed.
            have hskipped := continues_of_skipped_arm harm helse ht hcodeArm hat
            have hturned := hskipped.trans fun next hat =>
              continues_of_elseMark hmark ht hinsMark hat
            apply hturned.follows
            intro next hat
            apply (ihotherwise hotherwise ht rfl hcodeOtherwise hat).trans
            intro e' next heval hat
            exact continues_of_endIf hendIf (isSteady_of_eval hotherwise ht heval) hinsEnd hat
      apply hselected.bind
      intro e' next heval hat
      refine ihrest hrest ?_ hexec hcodeRest hat
      cases holds with
      | true => exact isSteady_of_eval harm ht heval
      | false => exact isSteady_of_eval hotherwise ht heval

end

/-- Structured programs are executed faithfully. A reachable machine that performs
instructions and skips no tests, when it executes the instructions of a structured program
in a row, fails just if evaluating the program fails, and then in the same way, and it is
left with the same operands, memories and graphics state. If it does not fail, it is also
left with the branches that it had. All this holds unless the budget is used up. -/
theorem execute_flatten {o : Options} {m : Machine} (hm : Machine.Reachable o m)
    (hexec : m.isExecuting = true) (hskipped : m.skippedIfs = 0) (hrec : m.recording = none)
    {p : Structured} (hp : p.IsWellFormed) :
    (m.execute p.flatten.toArray).IsExhausted ∨
      match p.eval m with
      | .ok _ m' =>
          (m.execute p.flatten.toArray).failure = none ∧
            (m.execute p.flatten.toArray).machine.toWorkspace = m'.toWorkspace ∧
            (m.execute p.flatten.toArray).machine.branches = m.branches ∧
            (m.execute p.flatten.toArray).machine.skippedIfs = m.skippedIfs
      | .error failure m' =>
          (m.execute p.flatten.toArray).failure = some failure ∧
            (m.execute p.flatten.toArray).machine.toWorkspace = m'.toWorkspace := by
  have hbodies := Machine.invariant_plainBodies.reachable (Machine.plainBodies_ofOptions o) hm
  have hsteady : m.IsSteady := ⟨⟨hexec, hrec⟩, hskipped, hm.requestedJump, hbodies⟩
  have hcode : StandsAt p.flatten.toArray 0 p.flatten := by
    simpa using standsAt_of_append [] p.flatten
  have hfollows : (Run.start m m.budget p.flatten.toArray).Follows m.branches p.flatten.toArray
      (0 + p.flatten.length) (p.eval m) :=
    follows_eval hp hsteady hexec hcode (Run.isAt_start hm.requestedJump _)
  cases heval : p.eval m with
  | ok a m' =>
      rw [heval] at hfollows
      rcases hfollows with hexhausted | ⟨next, hreaches, hat⟩
      · exact .inl hexhausted
      · have hfinish : m.execute p.flatten.toArray = next.succeed :=
          hreaches.finish_eq.trans (hat.finish_eq (by simp))
        have hsteady' := isSteady_of_eval hp hsteady heval
        refine .inr ?_
        rw [hfinish, Run.succeed, hat.machine]
        exact ⟨rfl, rfl, rfl, hsteady'.skippedIfs.trans hskipped.symm⟩
  | error failure m' =>
      rw [heval] at hfollows
      rcases hfollows with hexhausted | ⟨hfailure, branches, hmachine⟩
      · exact .inl hexhausted
      · refine .inr ⟨hfailure, ?_⟩
        rw [Machine.execute, hmachine]
        rfl

/-- A program with a choice that has a test in its second arm. -/
def nestedChoice : Structured :=
  .perform ⟨.npushb, [5, 0], 0⟩
    (.choice ⟨.ifTest, [], 4⟩ (.perform ⟨.npushb, [7], 5⟩ .done) ⟨.elseMark, [], 8⟩
      (.test ⟨.ifTest, [], 9⟩ (.perform ⟨.npushb, [9], 10⟩ .done) ⟨.endIf, [], 13⟩ .done)
      ⟨.endIf, [], 14⟩ .done)

/-- The machine and the evaluation take the same way through `nestedChoice`. -/
theorem execute_flatten_nestedChoice :
    ∃ m', nestedChoice.eval (Machine.ofOptions {}) = .ok () m' ∧
      ((Machine.ofOptions {}).execute nestedChoice.flatten.toArray).machine.toWorkspace =
        m'.toWorkspace := by
  have hend :
      ((Run.start (Machine.ofOptions {}) 1000000 nestedChoice.flatten.toArray).after 8).step =
        .ended ((Run.start (Machine.ofOptions {}) 1000000
          nestedChoice.flatten.toArray).after 8).succeed := by decide +kernel
  have hfinish : (Machine.ofOptions {}).execute nestedChoice.flatten.toArray =
      ((Run.start (Machine.ofOptions {}) 1000000 nestedChoice.flatten.toArray).after 8).succeed :=
    (Run.reaches_after 8 _).finish_eq.trans (Run.finish_of_ended hend)
  have hpush (operands : List UInt8) (pc : Nat) :
      Instruction.IsStraight ⟨.npushb, operands, pc⟩ := ⟨.inl rfl, by simp⟩
  have hp : nestedChoice.IsWellFormed :=
    ⟨hpush _ _, rfl, ⟨⟨hpush _ _, trivial⟩, trivial⟩, rfl,
      ⟨⟨rfl, ⟨⟨hpush _ _, trivial⟩, trivial⟩, rfl, trivial⟩, trivial, trivial⟩, rfl, trivial⟩
  have hfaithful := execute_flatten (o := {}) .fresh rfl rfl rfl hp
  rcases hfaithful with ⟨failure, hfailure, -⟩ | hsame
  · rw [hfinish] at hfailure
    cases hfailure
  · split at hsame
    · next m' heval => exact ⟨m', heval, hsame.2.1⟩
    · rw [hfinish] at hsame
      cases hsame.1

end Structured

end GridFit
