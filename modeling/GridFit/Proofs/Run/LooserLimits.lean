import GridFit.Proofs.Run.Budget

/-!
# Looser limits

Limits reject, and do nothing else. A machine with looser limits than another one gives the
same results for the same programs, one after the other, as long as the tighter limits
reject nothing.
-/

namespace GridFit

/-- Options that only differ from others by their limits, which are all at least as high. -/
structure Options.IsLoosenedTo (o o' : Options) : Prop where
  /-- The font instance is the same. -/
  font : o.toFontInstance = o'.toFontInstance
  /-- The storage area has the same size. -/
  storageSize : o.storageSize = o'.storageSize
  /-- The control value table begins with the same values. -/
  cvt : o.cvt = o'.cvt
  /-- The execution budget is the same. -/
  budget : o.budget = o'.budget
  /-- The limits are at least as high. -/
  limits : o.limits.AreLooser o'.limits

/-- The run has ended because a limit other than the execution budget was run into. -/
def Outcome.IsRefusal (o : Outcome) : Prop :=
  ∃ failure, o.failure = some failure ∧ failure.fault.IsLimit

namespace Machine

/-- The outcomes of programs that are run one after the other on a machine. -/
def outcomes (m : Machine) : List (Array Instruction) → List Outcome
  | [] => []
  | program :: programs => m.execute program :: (m.execute program).machine.outcomes programs

variable {o o' : Options} {m : Machine} {S' : Settings}

/-- Fresh machines differ by their settings, if their options differ by their limits. -/
theorem ofOptions_eq_under (h : o.IsLoosenedTo o') :
    ofOptions o' = (ofOptions o).under o'.settings := by
  obtain ⟨hfont, hstorage, hcvt, -, -⟩ := h
  cases o
  cases o'
  cases hfont
  cases hstorage
  cases hcvt
  rfl

/-- Under looser limits, programs show the same one after the other, if none of them runs
into the tighter ones. -/
theorem outcomes_under (hS : m.settings.IsRelaxedTo Fault.IsLimit S')
    (hbudget : m.budget = S'.budget) {programs : List (Array Instruction)}
    (h : ∀ o ∈ m.outcomes programs, ¬o.IsRefusal) :
    ((m.under S').outcomes programs).map Outcome.shown =
      (m.outcomes programs).map Outcome.shown := by
  induction programs generalizing m with
  | nil => rfl
  | cons program programs ih =>
      simp only [outcomes, List.mem_cons, forall_eq_or_imp] at h
      obtain ⟨hfirst, hrest⟩ := h
      rcases execute_under hS (.inl hbudget) with hrefused | ⟨hfailure, hunder⟩
      · exact absurd hrefused hfirst
      · have hsettings := settings_execute m program
        have hbudget' := (congrArg Settings.budget hsettings).trans hbudget
        have hshown : ((m.under S').execute program).shown = (m.execute program).shown := by
          rw [Outcome.shown, hfailure, hunder.eq_under, visible_under, Outcome.shown]
        rw [outcomes, outcomes, List.map_cons, List.map_cons, hshown, hunder.eq_under,
          ih (hsettings ▸ hS) hbudget' hrest]

/-- Limits only reject. Fresh machines whose options differ by their limits show the same
failures and the same states after each of a number of programs, unless one of the programs
was refused something under the tighter limits. -/
theorem outcomes_of_isLoosenedTo (ho : o.IsLoosenedTo o') {programs : List (Array Instruction)}
    (h : ∀ out ∈ (ofOptions o).outcomes programs, ¬out.IsRefusal) :
    ((ofOptions o').outcomes programs).map Outcome.shown =
      ((ofOptions o).outcomes programs).map Outcome.shown := by
  have hS : (ofOptions o).settings.IsRelaxedTo Fault.IsLimit o'.settings :=
    ⟨ho.font, ho.limits, .inr fun _ hfault => hfault⟩
  rw [ofOptions_eq_under ho]
  exact outcomes_under hS ho.budget h

/-- Limits that are just high enough for `repeatingProgram`. -/
def tightOptions : Options :=
  { stackLimit := some 2, functionLimit := some 1, callLimit := 1 }

/-- A program that pops more than `repeatingProgram` leaves. -/
def emptyingProgram : Array Instruction :=
  #[⟨.pop, [], 0⟩, ⟨.pop, [], 1⟩, ⟨.pop, [], 2⟩]

/-- Limits that are just high enough show what no limits show, also of a program that fails
for want of operands. -/
theorem outcomes_of_tightOptions :
    ((ofOptions {}).outcomes [repeatingProgram, emptyingProgram]).map Outcome.shown =
      ((ofOptions tightOptions).outcomes [repeatingProgram, emptyingProgram]).map
        Outcome.shown := by
  have hlooser : tightOptions.IsLoosenedTo {} :=
    ⟨rfl, rfl, rfl, rfl, trivial, trivial, trivial, by decide⟩
  have hfirst : (ofOptions tightOptions).execute repeatingProgram =
      ((Run.start (ofOptions tightOptions) 1000000 repeatingProgram).after 11).succeed :=
    Run.finish_of_after_ended (n := 11) (by decide +kernel)
  refine outcomes_of_isLoosenedTo hlooser ?_
  rw [outcomes, hfirst, outcomes, outcomes]
  generalize hm : (((Run.start (ofOptions tightOptions) 1000000
    repeatingProgram).after 11).succeed).machine = m
  have hsecond : m.execute emptyingProgram =
      (((Run.start m 1000000 emptyingProgram).after 2).charged ⟨.pop, [], 2⟩ 999997).fail
        ⟨.pop, [], 2⟩ .stackUnderflow := by
    subst hm
    exact Run.finish_of_after_ended (n := 2) (by decide +kernel)
  rw [hsecond]
  intro out hout
  simp only [List.mem_cons, List.not_mem_nil, or_false] at hout
  rcases hout with rfl | rfl
  · rintro ⟨failure, hfailure, -⟩
    cases hfailure
  · rintro ⟨failure, hfailure, hlimit⟩
    cases hfailure
    exact hlimit

end Machine

end GridFit
