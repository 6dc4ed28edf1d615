import GridFit.Proofs.Run.Call

/-!
# Runs that mirror each other

A straight instruction does the same wherever it stands and whichever branches are open
around it. Two runs that differ in these, and perform such an instruction, go on alike
through all calls that it makes, until one of them is out of budget.

## Implementation notes

`Beside` relates the positions of two runs that are inside of the same calls. Only the
outermost positions, those in the programs themselves, can be different.
-/

namespace GridFit

/-- Positions in the same bodies, called from positions that may differ. -/
inductive Beside : Position → List OpenCall → Position → List OpenCall → Prop
  | program (p q) : Beside p [] q []
  | body (p) {c caller calls others} (hcaller : Beside c.caller calls caller others) :
      Beside p (c :: calls) p ({ c with caller } :: others)

namespace Beside

variable {p q : Position} {calls others : List OpenCall}

theorem length_eq (h : Beside p calls q others) : calls.length = others.length := by
  induction h with
  | program p q => rfl
  | body p hcaller ih => rw [List.length_cons, List.length_cons, ih]

/-- Positions that move on alike are still beside each other. -/
theorem move (h : Beside p calls q others) (f : Position → Position) :
    Beside (f p) calls (f q) others := by
  cases h with
  | program p q => exact .program _ _
  | body p hcaller => exact .body _ hcaller

end Beside

/-- The run has ended because it was out of budget. -/
def Outcome.IsExhausted (o : Outcome) : Prop :=
  ∃ failure, o.failure = some failure ∧ failure.fault = .budgetExceeded

namespace Run

/-- The run `r` is where `s` is, with other branches and no more of its budget left. -/
structure Mirrors (branches : List Bool) (r s : Run) : Prop where
  /-- Only the branches of the machines differ. -/
  machine : r.machine = s.machine.withBranches branches
  /-- Both machines perform plain instructions. -/
  performs : r.machine.Performs ∧ s.machine.Performs
  /-- The runs are inside of the same calls. -/
  beside : Beside r.position r.calls s.position s.calls
  /-- The budget of `s` lasts as long as that of `r`. -/
  budget : r.budget ≤ s.budget

/-- What two runs that mirror each other lead to. -/
inductive AreAlike (branches : List Bool) : Progress → Progress → Prop
  | exhausted {o progress} (h : o.IsExhausted) : AreAlike branches (.ended o) progress
  | running {r s} (h : r.Mirrors branches s) : AreAlike branches (.running r) (.running s)
  | failed {o o' failure} (hfailure : o.failure = some failure)
      (hfailure' : o'.failure = some failure)
      (hmachine : o.machine = o'.machine.withBranches branches) :
      AreAlike branches (.ended o) (.ended o')

theorem isExhausted_fail (r : Run) (ins : Instruction) :
    (r.fail ins .budgetExceeded).IsExhausted :=
  ⟨_, rfl, rfl⟩

namespace Mirrors

variable {branches : List Bool} {r s : Run} {ins : Instruction}

/-- Failures of runs that mirror each other are alike. -/
theorem fail (h : r.Mirrors branches s) (m : Machine) (budget budget' : Nat)
    (events events' : List Event) (ins : Instruction) (fault : Fault) :
    AreAlike branches
      (.ended
        (({ r with machine := m.withBranches branches, budget, events } : Run).fail ins fault))
      (.ended
        (({ s with machine := m, budget := budget', events := events' } : Run).fail ins fault)) := by
  refine .failed rfl rfl ?_
  have hlength := h.beside.length_eq
  simp only [Run.fail, hlength]
  rfl

/-- An instruction that does the same in both runs keeps them alike. -/
theorem perform (h : r.Mirrors branches s) (hr : r.current? = some ins)
    (hs : s.current? = some ins) (hplain : ins.IsPlain)
    (hsame : Machine.dispatch r.position.sequence r.position.index ins r.machine =
      withBranches branches
        (Machine.dispatch s.position.sequence s.position.index ins s.machine)) :
    AreAlike branches r.step s.step := by
  cases hbudget : r.budget with
  | zero =>
      rw [(Stepped.exhausted hr hbudget).step_eq]
      exact .exhausted (isExhausted_fail r ins)
  | succ budget =>
      obtain ⟨budget', hbudget'⟩ : ∃ budget', s.budget = budget' + 1 :=
        Nat.exists_eq_add_one.2 (Nat.lt_of_lt_of_le (by omega) h.budget)
      have hle : budget ≤ budget' := by
        have hle := h.budget
        omega
      cases hdispatch : Machine.dispatch s.position.sequence s.position.index ins s.machine with
      | error fault m =>
          rw [hdispatch] at hsame
          rw [(Stepped.failed hr hbudget hsame).step_eq,
            (Stepped.failed hs hbudget' hdispatch).step_eq]
          exact h.fail _ _ _ _ _ _ _
      | ok effect m =>
          rw [hdispatch] at hsame
          have hcontrol := Machine.control_of_dispatch_ok h.performs.1 hplain hsame
          have hcontrol' := Machine.control_of_dispatch_ok h.performs.2 hplain hdispatch
          have hperforms : (m.withBranches branches).Performs ∧ m.Performs :=
            ⟨h.performs.1.congr (congrArg Control.branches hcontrol)
                (congrArg Control.recording hcontrol),
              h.performs.2.congr (congrArg Control.branches hcontrol')
                (congrArg Control.recording hcontrol')⟩
          cases hreplay : effect.replay with
          | none =>
              rw [(Stepped.advanced hr hbudget hsame hreplay).step_eq,
                (Stepped.advanced hs hbudget' hdispatch hreplay).step_eq]
              refine .running ⟨rfl, ⟨?_, ?_⟩, ?_, hle⟩
              · exact hperforms.1.congr rfl rfl
              · exact hperforms.2.congr rfl rfl
              · exact h.beside.move fun p =>
                  { p with index := nextIndex p.index m.requestedJump }
          | some replay =>
              rw [(Stepped.entered hr hbudget hsame hreplay).step_eq,
                (Stepped.entered hs hbudget' hdispatch hreplay).step_eq]
              refine .running ⟨rfl, ⟨?_, ?_⟩, ?_, hle⟩
              · exact hperforms.1.congr rfl rfl
              · exact hperforms.2.congr rfl rfl
              · exact .body _ h.beside

/-- Runs that mirror each other inside of a call go on alike. -/
theorem step (h : r.Mirrors branches s) (hcalls : r.calls ≠ [])
    (hplain : ∀ ins, r.current? = some ins → ins.IsPlain) : AreAlike branches r.step s.step := by
  have hbeside := h.beside
  generalize hp : r.position = p at hbeside
  generalize hq : s.position = q at hbeside
  generalize hc : r.calls = calls at hbeside
  generalize hd : s.calls = others at hbeside
  cases hbeside with
  | program p q => exact absurd hc hcalls
  | @body p c calls caller others hcaller =>
      have hcurrent : s.current? = r.current? := by rw [current?, current?, hp, hq]
      cases hins : r.current? with
      | some ins =>
          have hperforms : (s.machine.withBranches branches).Performs := h.machine ▸ h.performs.1
          refine h.perform hins (hcurrent.trans hins) (hplain ins hins) ?_
          rw [hp, hq, h.machine]
          exact Machine.dispatch_withBranches (hplain ins hins) h.performs.2 hperforms
      | none =>
          have hend : s.current? = none := hcurrent.trans hins
          have hjump : r.machine.requestedJump = s.machine.requestedJump := by
            rw [h.machine]
            rfl
          cases hremaining : c.remaining with
          | zero =>
              rw [(Stepped.returned hins hc hremaining).step_eq,
                (Stepped.returned hend hd hremaining).step_eq]
              refine .running ⟨?_, ⟨?_, ?_⟩, ?_, h.budget⟩
              · simp only [advance, h.machine]
                rfl
              · exact h.performs.1.congr rfl rfl
              · exact h.performs.2.congr rfl rfl
              · simp only [advance, hjump]
                exact hcaller.move fun p =>
                  { p with index := nextIndex p.index s.machine.requestedJump }
          | succ n =>
              cases hbudget : r.budget with
              | zero =>
                  rw [(Stepped.replayExhausted hins hc hremaining hbudget).step_eq]
                  exact .exhausted (isExhausted_fail r c.ins)
              | succ budget =>
                  have hle := h.budget
                  obtain ⟨budget', hbudget'⟩ : ∃ budget', s.budget = budget' + 1 :=
                    Nat.exists_eq_add_one.2 (by omega)
                  rw [(Stepped.replayed hins hc hremaining hbudget).step_eq,
                    (Stepped.replayed hend hd hremaining hbudget').step_eq]
                  exact .running ⟨h.machine, h.performs, .body _ hcaller,
                    show budget ≤ budget' by omega⟩

/-- A run with calls under way is inside of those of `r₀`, which it does not leave by its
next step unless it returns. -/
theorem inCall {r₀ : Run} (hr₀ : r₀.Ready) (htop : r₀.calls = [])
    (hinside : (∃ k, r₀.Inside k r) ∨ r₀.Returned r) (hcalls : r.calls ≠ []) :
    (∀ ins, r.current? = some ins → ins.IsPlain) ∧
      ∀ next, r.step = .running next → (∃ k, r₀.Inside k next) ∨ r₀.Returned next := by
  rcases hinside with ⟨k, hinside⟩ | hreturned
  · refine ⟨?_, ?_⟩
    · intro ins hins
      exact hinside.within.isPlainSequence ins (Array.mem_of_getElem? hins)
    · intro next hnext
      have hstep := hinside.step hr₀
      rwa [hnext] at hstep
  · exact absurd (hreturned.calls.trans htop) hcalls

/-- Runs that mirror each other return alike from the calls that they are inside of. -/
theorem returnTo {r₀ : Run} (hr₀ : r₀.Ready) (htop : r₀.calls = []) (h : r.Mirrors branches s)
    (hinside : (∃ k, r₀.Inside k r) ∨ r₀.Returned r) :
    AreAlike branches (r.returnTo 0) (s.returnTo 0) := by
  generalize hdepth : 0 = depth
  fun_induction Run.returnTo depth r generalizing s with
  | case1 r hle =>
      have hlength := h.beside.length_eq
      rw [returnTo_of_le (by omega)]
      exact .running h
  | case2 r hlt next hnext ih =>
      have hlength := h.beside.length_eq
      have hcalls := calls_ne_nil hlt
      obtain ⟨hplain, hnextInside⟩ := inCall hr₀ htop hinside hcalls
      have halike := h.step hcalls hplain
      rw [hnext] at halike
      generalize hs : s.step = progress at halike
      cases halike with
      | running hmirrors =>
          rw [returnTo_of_running (by omega) hs]
          exact ih hmirrors (hnextInside next hnext)
  | case3 r hlt o hend =>
      have hlength := h.beside.length_eq
      have hcalls := calls_ne_nil hlt
      obtain ⟨hplain, -⟩ := inCall hr₀ htop hinside hcalls
      have halike := h.step hcalls hplain
      rw [hend] at halike
      generalize hs : s.step = progress at halike
      cases halike with
      | exhausted hexhausted => exact .exhausted hexhausted
      | failed hfailure hfailure' hmachine =>
          rw [returnTo_of_ended (by omega) hs]
          exact .failed hfailure hfailure' hmachine

/-- Stepping over a straight instruction of the programs keeps the runs alike. -/
theorem stepOver (h : r.Mirrors branches s) (hr : r.Ready) (htop : r.calls = [])
    (hins : r.current? = some ins) (hins' : s.current? = some ins)
    (hstraight : ins.IsStraight) : AreAlike branches r.stepOver s.stepOver := by
  have hperforms : (s.machine.withBranches branches).Performs := h.machine ▸ h.performs.1
  have hsame : Machine.dispatch r.position.sequence r.position.index ins r.machine =
      withBranches branches
        (Machine.dispatch s.position.sequence s.position.index ins s.machine) := by
    rw [h.machine, Machine.dispatch_of_isStraight hstraight _ s.position.sequence _
      s.position.index]
    exact Machine.dispatch_withBranches hstraight.isPlain h.performs.2 hperforms
  have hlength := h.beside.length_eq
  have halike := h.perform hins hins' hstraight.isPlain hsame
  have hinside := step_of_isStraight hr hins hstraight
  simp only [Run.stepOver, ← hlength, htop, List.length_nil]
  generalize r.step = progress at halike hinside
  generalize s.step = progress' at halike
  cases halike with
  | exhausted hexhausted => exact .exhausted hexhausted
  | running hmirrors => exact hmirrors.returnTo hr htop hinside
  | failed hfailure hfailure' hmachine => exact .failed hfailure hfailure' hmachine

end Mirrors

end Run

end GridFit
