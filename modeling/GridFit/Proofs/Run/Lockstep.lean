import GridFit.Proofs.Agreement
import GridFit.Proofs.Run.Reachable
import GridFit.Proofs.Run.Units

/-!
# Runs in lockstep

Two runs go on alike as long as their instructions do the same and their budgets last. This
is said here once for all relations of machines, and for all ways in which the programs of
the two runs can correspond. From what one step does it follows how the runs end, and from
how many units one of them uses whether the budget of the other one is enough.

## Implementation notes

`Lockstep` gathers what a relation of machines and a relation of program positions have to
satisfy. Positions are related where they go on after a call, as the call itself has been
carried out by then. `Run.Mirrors` is not an instance: there the outer positions are
arbitrary, and the runs only go on alike as long as they are inside of calls.
-/

namespace GridFit

/-- The position at which a sequence goes on after an instruction that asked for a jump. -/
def Position.behind (p : Position) (jump : Value) : Position :=
  { p with index := Run.nextIndex p.index jump }

variable {refused : Fault → Prop} {R : Machine → Machine → Prop} {T : Position → Position → Prop}

/-- Positions in the same bodies, called from positions in programs that correspond. -/
inductive Abreast (T : Position → Position → Prop) :
    Position → List OpenCall → Position → List OpenCall → Prop
  | program {p q} (h : T p q) : Abreast T p [] q []
  | body (p) {c caller calls others}
      (hcaller : Abreast T (c.caller.behind 0) calls (caller.behind 0) others) :
      Abreast T p (c :: calls) p ({ c with caller } :: others)

theorem Abreast.length_eq {p q : Position} {calls others : List OpenCall}
    (h : Abreast T p calls q others) : calls.length = others.length := by
  induction h with
  | program h => rfl
  | body p hcaller ih => rw [List.length_cons, List.length_cons, ih]

/-- What it takes for two runs to go on alike, unless the first one is refused something.
Machines are related by `R` and positions in programs by `T`. -/
structure Lockstep (refused : Fault → Prop) (R : Machine → Machine → Prop)
    (T : Position → Position → Prop) : Prop where
  /-- The same jump is asked for. -/
  requestedJump {m m'} (h : R m m') : m.requestedJump = m'.requestedJump
  /-- The same number of calls is under way. -/
  callDepth {m m'} (h : R m m') : m.callDepth = m'.callDepth
  /-- The driver takes the jump. -/
  clear {m m'} (h : R m m') : R { m with requestedJump := 0 } { m' with requestedJump := 0 }
  /-- The driver changes the number of calls. -/
  withDepth {m m'} (depth : Nat) (h : R m m') :
    R { m with callDepth := depth } { m' with callDepth := depth }
  /-- At the same position, instructions do the same. -/
  dispatch (sequence index ins) : Respects refused R (Machine.dispatch sequence index ins)
  /-- At corresponding positions there is the same instruction. -/
  current {p q ins} (hpq : T p q) (hins : p.sequence[p.index]? = some ins) :
    q.sequence[q.index]? = some ins
  /-- At corresponding positions, instructions do the same. -/
  program {p q ins m m'} (hpq : T p q) (hins : p.sequence[p.index]? = some ins) (h : R m m')
    (hjump : m.requestedJump = 0) :
    Agree refused R (Machine.dispatch p.sequence p.index ins m)
      (Machine.dispatch q.sequence q.index ins m')
  /-- The runs go on at corresponding positions. -/
  behind {p q ins m m' effect} (hpq : T p q) (hins : p.sequence[p.index]? = some ins)
    (hjump : m.requestedJump = 0)
    (hdispatch : Machine.dispatch p.sequence p.index ins m = .ok effect m') :
    T (p.behind m'.requestedJump) (q.behind m'.requestedJump)

/-- Runs of the same program only have to do the same at every position. -/
theorem Lockstep.of_eq (requestedJump : ∀ {m m'}, R m m' → m.requestedJump = m'.requestedJump)
    (callDepth : ∀ {m m'}, R m m' → m.callDepth = m'.callDepth)
    (clear : ∀ {m m'}, R m m' → R { m with requestedJump := 0 } { m' with requestedJump := 0 })
    (withDepth : ∀ {m m'} (depth : Nat), R m m' →
      R { m with callDepth := depth } { m' with callDepth := depth })
    (dispatch : ∀ sequence index ins, Respects refused R (Machine.dispatch sequence index ins)) :
    Lockstep refused R Eq where
  requestedJump := requestedJump
  callDepth := callDepth
  clear := clear
  withDepth := withDepth
  dispatch := dispatch
  current hpq hins := hpq ▸ hins
  program hpq _ h _ := by
    subst hpq
    exact dispatch _ _ _ _ _ h
  behind hpq _ _ _ := by rw [hpq]

namespace Run

/-- The run `r` is where `s` is, with a related machine. -/
structure InStep (R : Machine → Machine → Prop) (T : Position → Position → Prop)
    (r s : Run) : Prop where
  /-- The machines are related. -/
  machine : R r.machine s.machine
  /-- No jump is asked for. -/
  requestedJump : r.machine.requestedJump = 0
  /-- The runs are inside of the same calls. -/
  abreast : Abreast T r.position r.calls s.position s.calls

/-- Runs that are in step are at corresponding positions of their programs, or at the same
position of a body that was called from positions which are abreast. -/
theorem InStep.position {r s : Run} (h : r.InStep R T s) :
    (r.calls = [] ∧ s.calls = [] ∧ T r.position s.position) ∨
      s.position = r.position ∧ ∃ c calls caller others, r.calls = c :: calls ∧
        s.calls = { c with caller } :: others ∧
        Abreast T (c.caller.behind 0) calls (caller.behind 0) others := by
  have habreast := h.abreast
  generalize r.position = p at habreast ⊢
  generalize s.position = q at habreast ⊢
  generalize r.calls = calls at habreast ⊢
  generalize s.calls = others at habreast ⊢
  cases habreast with
  | program hpq => exact .inl ⟨rfl, rfl, hpq⟩
  | body p hcaller => exact .inr ⟨rfl, _, _, _, _, rfl, rfl, hcaller⟩

/-- What the next steps of two runs that are in step lead to. -/
inductive GoOnAlike (refused : Fault → Prop) (R : Machine → Machine → Prop)
    (T : Position → Position → Prop) (r s : Run) : Progress → Progress → Prop
  | running {next next'} (h : next.InStep R T next') (hbudget : next'.budget + r.cost = s.budget) :
      GoOnAlike refused R T r s (.running next) (.running next')
  | failed {o o' failure} (hfailure : o.failure = some failure)
      (hfailure' : o'.failure = some failure) (hmachine : R o.machine o'.machine) :
      GoOnAlike refused R T r s (.ended o) (.ended o')
  | refused {o failure progress} (hfailure : o.failure = some failure)
      (h : refused failure.fault) : GoOnAlike refused R T r s (.ended o) progress
  | finished {progress} (hend : r.current? = none) (hcalls : r.calls = [])
      (hcalls' : s.calls = []) (hposition : T r.position s.position) :
      GoOnAlike refused R T r s (.ended r.succeed) progress

end Run

namespace Lockstep

variable {r s : Run} {ins : Instruction}

/-- Failures of runs that are in step are alike. -/
theorem fail (hL : Lockstep refused R T)
    (habreast : Abreast T r.position r.calls s.position s.calls) {m m' : Machine} (h : R m m')
    (budget budget' : Nat) (events events' : List Event) (ins : Instruction) (fault : Fault) :
    Run.GoOnAlike refused R T r s
      (.ended (({ r with machine := m, budget, events } : Run).fail ins fault))
      (.ended
        (({ s with machine := m', budget := budget', events := events' } : Run).fail ins
          fault)) := by
  refine .failed rfl rfl ?_
  simp only [Run.fail, habreast.length_eq, hL.callDepth h]
  exact hL.withDepth _ h

/-- An instruction that succeeds alike in both runs keeps them in step, whether or not it opens
a call. -/
theorem perform_ok (hL : Lockstep refused R T) (h : r.InStep R T s) (hins : r.current? = some ins)
    (hins' : s.current? = some ins) {budget budget' : Nat} (hb : r.budget = budget + 1)
    (hb' : s.budget = budget' + 1) {effect : Effect} {m m' : Machine}
    (hfirst : Machine.dispatch r.position.sequence r.position.index ins r.machine = .ok effect m)
    (hsecond : Machine.dispatch s.position.sequence s.position.index ins s.machine =
      .ok effect m')
    (hmachine : R m m')
    (hbehind : Abreast T (r.position.behind m.requestedJump) r.calls
      (s.position.behind m.requestedJump) s.calls) :
    Run.GoOnAlike refused R T r s r.step s.step := by
  have hcost := r.cost_of_pays (Run.pays_of_current? hins)
  have hbudget : budget' + r.cost = s.budget := by omega
  cases hreplay : effect.replay with
  | none =>
      rw [(Run.Stepped.advanced hins hb hfirst hreplay).step_eq,
        (Run.Stepped.advanced hins' hb' hsecond hreplay).step_eq]
      refine .running ⟨hL.clear hmachine, rfl, ?_⟩ hbudget
      show Abreast T (r.position.behind m.requestedJump) r.calls
        (s.position.behind m'.requestedJump) s.calls
      rw [← hL.requestedJump hmachine]
      exact hbehind
  | some replay =>
      rw [(Run.Stepped.entered hins hb hfirst hreplay).step_eq,
        (Run.Stepped.entered hins' hb' hsecond hreplay).step_eq]
      have hjump : m.requestedJump = 0 := by
        obtain ⟨_, _, _, _, -, -, -, -, -, -, -, -, rfl⟩ :=
          Machine.called_of_replay hfirst hreplay
        exact h.requestedJump
      refine .running ⟨?_, hjump, .body _ ?_⟩ hbudget
      · show R { m with callDepth := m.callDepth + 1 } { m' with callDepth := m'.callDepth + 1 }
        rw [← hL.callDepth hmachine]
        exact hL.withDepth _ hmachine
      · rwa [hjump] at hbehind

/-- An instruction that does the same in both runs keeps them in step, or ends both. -/
theorem perform (hL : Lockstep refused R T) (h : r.InStep R T s) (hins : r.current? = some ins)
    (hins' : s.current? = some ins) (hbudget : r.budget = 0 ↔ s.budget = 0)
    (hagree : Agree refused R
      (Machine.dispatch r.position.sequence r.position.index ins r.machine)
      (Machine.dispatch s.position.sequence s.position.index ins s.machine))
    (hbehind : ∀ effect m,
      Machine.dispatch r.position.sequence r.position.index ins r.machine = .ok effect m →
      Abreast T (r.position.behind m.requestedJump) r.calls
        (s.position.behind m.requestedJump) s.calls) :
    Run.GoOnAlike refused R T r s r.step s.step := by
  cases hb : r.budget with
  | zero =>
      have hb' := hbudget.1 hb
      rw [(Run.Stepped.exhausted hins hb).step_eq, (Run.Stepped.exhausted hins' hb').step_eq]
      exact hL.fail h.abreast h.machine _ _ _ _ ins _
  | succ budget =>
      obtain ⟨budget', hb'⟩ : ∃ budget', s.budget = budget' + 1 :=
        Nat.exists_eq_add_one.2 (by omega)
      generalize hfirst : Machine.dispatch r.position.sequence r.position.index ins r.machine =
        first at hagree
      generalize hsecond : Machine.dispatch s.position.sequence s.position.index ins s.machine =
        second at hagree
      cases hagree with
      | ok effect hmachine =>
          exact hL.perform_ok h hins hins' hb hb' hfirst hsecond hmachine (hbehind _ _ hfirst)
      | error fault hmachine =>
          rw [(Run.Stepped.failed hins hb hfirst).step_eq,
            (Run.Stepped.failed hins' hb' hsecond).step_eq]
          exact hL.fail h.abreast hmachine _ _ _ _ ins fault
      | refused hrefused =>
          rw [(Run.Stepped.failed hins hb hfirst).step_eq]
          exact .refused rfl hrefused

/-- At the end of a body, both runs start the next replay, or both of them return. -/
theorem resume (hL : Lockstep refused R T) {c : OpenCall} {calls others : List OpenCall}
    {caller : Position} (h : r.InStep R T s) (hend : r.current? = none)
    (hend' : s.current? = none) (hcalls : r.calls = c :: calls)
    (hcalls' : s.calls = { c with caller } :: others)
    (hcaller : Abreast T (c.caller.behind 0) calls (caller.behind 0) others)
    (hbudget : r.pays = true → (r.budget = 0 ↔ s.budget = 0)) :
    Run.GoOnAlike refused R T r s r.step s.step := by
  cases hremaining : c.remaining with
  | zero =>
      rw [(Run.Stepped.returned hend hcalls hremaining).step_eq,
        (Run.Stepped.returned hend' hcalls' hremaining).step_eq]
      have hjump' : s.machine.requestedJump = 0 :=
        (hL.requestedJump h.machine).symm.trans h.requestedJump
      have hcost := Run.cost_of_not_pays (Run.not_pays_of_return hend hcalls hremaining)
      refine .running ⟨?_, rfl, ?_⟩ (by rw [hcost]; rfl)
      · refine hL.clear (m := { r.machine with callDepth := r.machine.callDepth - 1 }) ?_
        show R { r.machine with callDepth := r.machine.callDepth - 1 }
          { s.machine with callDepth := s.machine.callDepth - 1 }
        rw [← hL.callDepth h.machine]
        exact hL.withDepth _ h.machine
      · show Abreast T (c.caller.behind r.machine.requestedJump) calls
          (caller.behind s.machine.requestedJump) others
        rw [h.requestedJump, hjump']
        exact hcaller
  | succ n =>
      have hpays := Run.pays_of_remaining hcalls hremaining
      have hcost := r.cost_of_pays hpays
      cases hb : r.budget with
      | zero =>
          have hb' := (hbudget hpays).1 hb
          rw [(Run.Stepped.replayExhausted hend hcalls hremaining hb).step_eq,
            (Run.Stepped.replayExhausted hend' hcalls' hremaining hb').step_eq]
          exact hL.fail h.abreast h.machine _ _ _ _ c.ins _
      | succ budget =>
          have hsome : s.budget ≠ 0 := fun hb' => by simp [(hbudget hpays).2 hb'] at hb
          obtain ⟨budget', hb'⟩ := Nat.exists_eq_succ_of_ne_zero hsome
          rw [(Run.Stepped.replayed hend hcalls hremaining hb).step_eq,
            (Run.Stepped.replayed hend' hcalls' hremaining hb').step_eq]
          exact .running ⟨h.machine, h.requestedJump, .body _ hcaller⟩
            (show budget' + r.cost = s.budget by omega)

/-- Runs that are in step go on alike, if neither of them or both are out of budget. -/
theorem step (hL : Lockstep refused R T) (h : r.InStep R T s)
    (hbudget : r.pays = true → (r.budget = 0 ↔ s.budget = 0)) :
    Run.GoOnAlike refused R T r s r.step s.step := by
  rcases h.position with ⟨hc, hd, hpq⟩ | ⟨hsame, c, calls, caller, others, hc, hd, hcaller⟩
  · cases hins : r.current? with
    | none =>
        rw [(Run.Stepped.finished hins hc).step_eq]
        exact .finished hins hc hd hpq
    | some ins =>
        refine hL.perform h hins (hL.current hpq hins) (hbudget (Run.pays_of_current? hins))
          (hL.program hpq hins h.machine h.requestedJump) ?_
        intro effect m hdispatch
        rw [hc, hd]
        exact .program (hL.behind hpq hins h.requestedJump hdispatch)
  · have hcurrent : s.current? = r.current? := by rw [Run.current?, Run.current?, hsame]
    cases hins : r.current? with
    | none => exact hL.resume h hins (hcurrent.trans hins) hc hd hcaller hbudget
    | some ins =>
        refine hL.perform h hins (hcurrent.trans hins) (hbudget (Run.pays_of_current? hins)) ?_ ?_
        · rw [hsame]
          exact hL.dispatch _ _ _ _ _ h.machine
        · intro effect m hdispatch
          rw [hsame, hc, hd]
          exact .body _ hcaller

end Lockstep

/-! ## How runs in step end -/

namespace Run

/-- How the run `s` ends, if a run that was in step with it has used `n` units and ended with
the outcome `o`. -/
inductive EndsAlike (refused : Fault → Prop) (R : Machine → Machine → Prop)
    (T : Position → Position → Prop) (n : Nat) (o : Outcome) (s : Run) : Prop
  /-- The first run was refused something. -/
  | refused {failure} (hfailure : o.failure = some failure) (h : refused failure.fault)
  /-- Both runs fail, and in the same way. -/
  | failed {failure} (hfailure : o.failure = some failure)
      (hfailure' : s.finish.failure = some failure) (hmachine : R o.machine s.finish.machine)
  /-- The first run has come to the end of its program, and the second one comes to the position
  that corresponds to it. -/
  | finished {p t} (hfailure : o.failure = none) (hreaches : s.Reaches t)
      (hbudget : t.budget + n = s.budget) (hmachine : R o.machine t.machine)
      (hjump : o.machine.requestedJump = 0) (hcalls : t.calls = [])
      (hend : p.sequence[p.index]? = none) (hposition : T p t.position)

/-- A step that is taken first uses up its units. -/
theorem EndsAlike.head {n k : Nat} {o : Outcome} {s next : Run} (hstep : s.step = .running next)
    (hbudget : next.budget + k = s.budget) (h : next.EndsAlike refused R T n o) :
    s.EndsAlike refused R T (k + n) o := by
  cases h with
  | refused hfailure h => exact .refused hfailure h
  | failed hfailure hfailure' hmachine =>
      rw [← finish_of_running hstep] at hfailure' hmachine
      exact .failed hfailure hfailure' hmachine
  | finished hfailure hreaches hbudget' hmachine hjump hcalls hend hposition =>
      exact .finished hfailure (.head hstep hreaches) (by omega) hmachine hjump hcalls hend
        hposition

/-- If the programs end at corresponding positions, both runs have the same failure or none,
and leave related machines, unless there was a refusal. -/
theorem EndsAlike.agree {n : Nat} {o : Outcome} {s : Run} (h : s.EndsAlike refused R T n o)
    (hend : ∀ p q, T p q → p.sequence[p.index]? = none → q.sequence[q.index]? = none) :
    (∃ failure, o.failure = some failure ∧ refused failure.fault) ∨
      s.finish.failure = o.failure ∧ R o.machine s.finish.machine := by
  cases h with
  | refused hfailure h => exact .inl ⟨_, hfailure, h⟩
  | failed hfailure hfailure' hmachine => exact .inr ⟨hfailure'.trans hfailure.symm, hmachine⟩
  | @finished p t hfailure hreaches hbudget hmachine hjump hcalls hp hposition =>
      have hcurrent : t.current? = none := hend _ _ hposition hp
      have hfinish : s.finish = t.succeed :=
        hreaches.finish_eq.trans (finish_of_ended (Stepped.finished hcurrent hcalls).step_eq)
      rw [hfinish]
      exact .inr ⟨hfailure.symm, hmachine⟩

end Run

namespace Lockstep

variable {r s : Run}

/-- Runs that are in step end alike if they have the same budget, or if the first one does
not exhaust its budget and the second one has as many units as that uses. -/
theorem finish (hL : Lockstep refused R T) (h : r.InStep R T s)
    (hbudget : r.budget = s.budget ∨ ¬r.finish.IsExhausted ∧ r.units ≤ s.budget) :
    s.EndsAlike refused R T r.units r.finish := by
  -- Both runs take a step at a time, and what is left of their budgets still satisfies `hbudget`.
  fun_induction Run.finish r generalizing s with
  | case1 r next hstep ih =>
      have hunits := Run.units_of_running hstep
      have hcost := r.budget_add_cost
      rw [hstep] at hcost
      have halike := hL.step h fun hpays =>
        Run.budget_eq_zero_iff hpays (by rwa [Run.finish_of_running hstep])
      rw [hstep] at halike
      generalize hs : s.step = progress at halike
      cases halike with
      | running hnext hbudget' =>
          rw [hunits]
          exact (ih hnext (hbudget.imp (by omega) (.imp id (by omega)))).head hs hbudget'
  | case2 r o hend =>
      have halike := hL.step h fun hpays =>
        Run.budget_eq_zero_iff hpays (by rwa [Run.finish_of_ended hend])
      rw [hend] at halike
      generalize hs : s.step = progress at halike
      cases halike with
      | failed hfailure hfailure' hmachine =>
          rw [← Run.finish_of_ended hs] at hfailure' hmachine
          exact .failed hfailure hfailure' hmachine
      | refused hfailure hrefused => exact .refused hfailure hrefused
      | finished hcurrent hcalls hcalls' hposition =>
          have hfree := Run.cost_of_not_pays (Run.not_pays_of_finished hcurrent hcalls)
          rw [Run.units_of_ended hend, hfree]
          exact .finished rfl .refl rfl h.machine h.requestedJump hcalls' hcurrent hposition

/-- Runs that are in step need units for the same steps. -/
theorem pays (hL : Lockstep refused R T) (h : r.InStep R T s) (hpays : r.pays = true) :
    s.pays = true := by
  rcases h.position with ⟨hc, hd, hpq⟩ | ⟨hsame, c, calls, caller, others, hc, hd, -⟩
  · cases hins : r.current? with
    | none => simp [Run.not_pays_of_finished hins hc] at hpays
    | some ins => exact Run.pays_of_current? (hL.current hpq hins)
  · have hcurrent : s.current? = r.current? := by rw [Run.current?, Run.current?, hsame]
    simpa only [Run.pays, hcurrent, hc, hd, List.head?_cons, Option.any_some] using hpays

/-- A run that has fewer units than another one uses that is in step with it is out of
budget before it ends. -/
theorem exhausted (hL : Lockstep refused R T) (h : r.InStep R T s) (hbudget : s.budget < r.units) :
    s.finish.IsExhausted := by
  fun_induction Run.finish r generalizing s with
  | case1 r next hstep ih =>
      -- Unless `s` is out of budget right here, it takes the step, too, and stays behind.
      by_cases hout : r.pays = true ∧ s.budget = 0
      · exact Run.isExhausted_finish (hL.pays h hout.1) hout.2
      · have hunits := Run.units_of_running hstep
        have hboth : r.pays = true → (r.budget = 0 ↔ s.budget = 0) := by
          intro hpays
          refine iff_of_false (fun hnone => ?_) fun hnone => hout ⟨hpays, hnone⟩
          obtain ⟨o, hend, -⟩ := Run.exhausted_of_pays hpays hnone
          cases hstep.symm.trans hend
        have halike := hL.step h hboth
        rw [hstep] at halike
        generalize hs : s.step = progress at halike
        cases halike with
        | running hnext hbudget' =>
            rw [Run.finish_of_running hs]
            exact ih hnext (by omega)
  | case2 r o hend =>
      rw [Run.units_of_ended hend] at hbudget
      cases hpays : r.pays with
      | false =>
          rw [Run.cost_of_not_pays hpays] at hbudget
          omega
      | true =>
          rw [Run.cost_of_pays hpays] at hbudget
          exact Run.isExhausted_finish (hL.pays h hpays) (by omega)

end Lockstep

end GridFit
