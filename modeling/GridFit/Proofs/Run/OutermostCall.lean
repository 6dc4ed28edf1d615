import GridFit.Proofs.Run.Mirror

/-!
# Inside of different calls

What happens inside of a call does not depend on where the call was made and on how often
its body is still to be replayed. Two runs that differ in their outermost call only go on
alike until the body of that call ends or one of them is out of budget.
-/

namespace GridFit

namespace Run

variable {c c' : OpenCall} {r s : Run} {ins : Instruction}

/-- The runs are at the same point inside of calls, but the outermost calls may differ. -/
structure SideBySide (c c' : OpenCall) (r s : Run) : Prop where
  /-- The machines are the same. -/
  machine : r.machine = s.machine
  /-- The positions are the same. -/
  position : r.position = s.position
  /-- All calls but the outermost ones are the same. -/
  calls : ∃ inner, r.calls = inner ++ [c] ∧ s.calls = inner ++ [c']

/-- The body of the outermost call has come to its end. -/
structure AtBodyEnd (c : OpenCall) (r : Run) : Prop where
  /-- No instruction is left in the sequence. -/
  current : r.current? = none
  /-- No other call is under way. -/
  calls : r.calls = [c]

/-- What the next steps of two runs lead to that are side by side. -/
inductive GoOnBeside (c c' : OpenCall) (r s : Run) : Progress → Progress → Prop
  | exhausted {progress progress'} (h : r.finish.IsExhausted ∨ s.finish.IsExhausted) :
      GoOnBeside c c' r s progress progress'
  | bodyEnd {progress progress'} (h : r.AtBodyEnd c) (h' : s.AtBodyEnd c') :
      GoOnBeside c c' r s progress progress'
  | running {next next'} (h : next.SideBySide c c' next') :
      GoOnBeside c c' r s (.running next) (.running next')
  | failed {o o' failure} (hfailure : o.failure = some failure)
      (hfailure' : o'.failure = some failure) (hmachine : o.machine = o'.machine) :
      GoOnBeside c c' r s (.ended o) (.ended o')

namespace SideBySide

theorem length_eq (h : r.SideBySide c c' s) : r.calls.length = s.calls.length := by
  obtain ⟨inner, hcalls, hcalls'⟩ := h.calls
  rw [hcalls, hcalls', List.length_append, List.length_append]
  rfl

theorem current_eq (h : r.SideBySide c c' s) : s.current? = r.current? := by
  rw [current?, current?, h.position]

/-- An instruction does the same in both runs. -/
theorem perform (h : r.SideBySide c c' s) (hins : r.current? = some ins) :
    GoOnBeside c c' r s r.step s.step := by
  have hins' : s.current? = some ins := h.current_eq.trans hins
  cases hbudget : r.budget with
  | zero =>
      refine .exhausted (.inl ?_)
      rw [finish_of_ended (Stepped.exhausted hins hbudget).step_eq]
      exact isExhausted_fail r ins
  | succ budget =>
      cases hbudget' : s.budget with
      | zero =>
          refine .exhausted (.inr ?_)
          rw [finish_of_ended (Stepped.exhausted hins' hbudget').step_eq]
          exact isExhausted_fail s ins
      | succ budget' =>
          obtain ⟨inner, hcalls, hcalls'⟩ := h.calls
          have hsame : Machine.dispatch s.position.sequence s.position.index ins s.machine =
              Machine.dispatch r.position.sequence r.position.index ins r.machine := by
            rw [h.machine, h.position]
          cases hdispatch : Machine.dispatch r.position.sequence r.position.index ins r.machine with
          | error fault m =>
              rw [hdispatch] at hsame
              rw [(Stepped.failed hins hbudget hdispatch).step_eq,
                (Stepped.failed hins' hbudget' hsame).step_eq]
              refine .failed rfl rfl ?_
              simp only [fail, charged, h.length_eq]
          | ok effect m =>
              rw [hdispatch] at hsame
              cases hreplay : effect.replay with
              | none =>
                  rw [(Stepped.advanced hins hbudget hdispatch hreplay).step_eq,
                    (Stepped.advanced hins' hbudget' hsame hreplay).step_eq]
                  refine .running ⟨rfl, ?_, inner, hcalls, hcalls'⟩
                  simp only [advance, carriedOut, h.position]
              | some replay =>
                  rw [(Stepped.entered hins hbudget hdispatch hreplay).step_eq,
                    (Stepped.entered hins' hbudget' hsame hreplay).step_eq]
                  refine .running ⟨rfl, rfl, ⟨ins, replay.1, replay.2, r.position⟩ :: inner, ?_, ?_⟩
                  · simp only [openCall, carriedOut, charged, hcalls, List.cons_append]
                  · simp only [openCall, carriedOut, charged, hcalls', h.position,
                      List.cons_append]

/-- At the end of a body inside, both runs start the next replay, or both of them return. -/
theorem resume (h : r.SideBySide c c' s) (hend : r.current? = none) :
    GoOnBeside c c' r s r.step s.step := by
  have hend' : s.current? = none := h.current_eq.trans hend
  obtain ⟨inner, hcalls, hcalls'⟩ := h.calls
  cases inner with
  | nil => exact .bodyEnd ⟨hend, hcalls⟩ ⟨hend', hcalls'⟩
  | cons d inner =>
      cases hremaining : d.remaining with
      | zero =>
          rw [(Stepped.returned hend hcalls hremaining).step_eq,
            (Stepped.returned hend' hcalls' hremaining).step_eq]
          refine .running ⟨?_, ?_, inner, rfl, rfl⟩
          · simp only [advance, h.machine]
          · simp only [advance, h.machine]
      | succ n =>
          cases hbudget : r.budget with
          | zero =>
              refine .exhausted (.inl ?_)
              rw [finish_of_ended (Stepped.replayExhausted hend hcalls hremaining hbudget).step_eq]
              exact isExhausted_fail r d.ins
          | succ budget =>
              cases hbudget' : s.budget with
              | zero =>
                  refine .exhausted (.inr ?_)
                  rw [finish_of_ended
                    (Stepped.replayExhausted hend' hcalls' hremaining hbudget').step_eq]
                  exact isExhausted_fail s d.ins
              | succ budget' =>
                  rw [(Stepped.replayed hend hcalls hremaining hbudget).step_eq,
                    (Stepped.replayed hend' hcalls' hremaining hbudget').step_eq]
                  exact .running ⟨h.machine, rfl, { d with remaining := n } :: inner, rfl, rfl⟩

/-- Runs that are side by side go on alike. -/
theorem step (h : r.SideBySide c c' s) : GoOnBeside c c' r s r.step s.step := by
  cases hins : r.current? with
  | none => exact h.resume hins
  | some ins => exact h.perform hins

end SideBySide

/-- How two runs get through the bodies of different calls. -/
inductive BodiesEndAlike (c c' : OpenCall) (r s : Run) : Prop
  /-- One of the runs is out of budget before it ends. -/
  | exhausted (h : r.finish.IsExhausted ∨ s.finish.IsExhausted)
  /-- Both runs fail, in the same way and with the same machine. -/
  | failed {failure} (hfailure : r.finish.failure = some failure)
      (hfailure' : s.finish.failure = some failure)
      (hmachine : r.finish.machine = s.finish.machine)
  /-- Both bodies come to their ends, with the same machine. -/
  | ended {next next'} (hreaches : r.Reaches next) (hreaches' : s.Reaches next')
      (hend : next.AtBodyEnd c) (hend' : next'.AtBodyEnd c')
      (hmachine : next.machine = next'.machine)

/-- Runs that are side by side get through the body of their outermost call alike. -/
theorem SideBySide.bodiesEndAlike (h : r.SideBySide c c' s) : r.BodiesEndAlike c c' s := by
  fun_induction finish r generalizing s with
  | case1 r next hstep ih =>
      have hnext := h.step
      rw [hstep] at hnext
      generalize hs : s.step = progress at hnext
      cases hnext with
      | exhausted hexhausted => exact .exhausted hexhausted
      | bodyEnd hend hend' => exact .ended .refl .refl hend hend' h.machine
      | running hnext =>
          have hr := finish_of_running hstep
          have hs' := finish_of_running hs
          cases ih hnext with
          | exhausted hexhausted => exact .exhausted (by rwa [hr, hs'])
          | failed hfailure hfailure' hmachine =>
              exact .failed (by rwa [hr]) (by rwa [hs']) (by rwa [hr, hs'])
          | ended hreaches hreaches' hend hend' hmachine =>
              exact .ended (.head hstep hreaches) (.head hs hreaches') hend hend' hmachine
  | case2 r o hend =>
      have hnext := h.step
      rw [hend] at hnext
      generalize hs : s.step = progress at hnext
      cases hnext with
      | exhausted hexhausted => exact .exhausted hexhausted
      | bodyEnd hbody hbody' => exact .ended .refl .refl hbody hbody' h.machine
      | failed hfailure hfailure' hmachine =>
          rw [← finish_of_ended hend] at hfailure hmachine
          rw [← finish_of_ended hs] at hfailure' hmachine
          exact .failed hfailure hfailure' hmachine

end Run

end GridFit
