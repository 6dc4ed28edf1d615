import GridFit.Proofs.Run.Settings

/-!
# The execution budget

Every run ends. What it does before does not depend on the budget, as long as there are
units left, so that its result tells how it ends under every other budget.
-/

namespace GridFit

namespace Machine

/-- The machine with another execution budget. -/
def withBudget (m : Machine) (budget : Nat) : Machine :=
  { m with budget }

theorem under_withBudget (m : Machine) (n : Nat) :
    m.under { m.settings with budget := n } = m.withBudget n := rfl

/-- Every run ends after some number of steps and uses no more units than the budget of the
machine has, which is that of its options. A run that ends without being out of budget has
the same result under all budgets that have the units it uses, and leaves the same machine
but for the budget. Under all smaller budgets it is out of budget. -/
theorem execute_withBudget (m : Machine) (program : Array Instruction) :
    (∃ s, (Run.start m m.budget program).Reaches s ∧ s.step = .ended (m.execute program)) ∧
      m.unitsUsed program ≤ m.budget ∧
      (∀ o, Reachable o m → m.budget = o.budget) ∧
      (¬(m.execute program).IsExhausted → ∀ n,
        (m.unitsUsed program ≤ n →
          ((m.withBudget n).execute program).failure = (m.execute program).failure ∧
            ((m.withBudget n).execute program).machine =
              (m.execute program).machine.withBudget n) ∧
        (n < m.unitsUsed program → ((m.withBudget n).execute program).IsExhausted)) := by
  refine ⟨Run.exists_reaches_ended _, m.unitsUsed_le program, ?_, ?_⟩
  · intro o hm
    exact congrArg Settings.budget hm.settings
  · intro hends n
    have hS : m.settings.IsRelaxedTo (fun _ => False) { m.settings with budget := n } :=
      .withBudget m.settings n
    refine ⟨fun hle => ?_, fun hlt => isExhausted_under hS hlt⟩
    rcases execute_under hS (.inr ⟨hends, hle⟩) with ⟨_, -, hrefused⟩ | ⟨hfailure, hunder⟩
    · exact hrefused.elim
    · refine ⟨hfailure, hunder.eq_under.trans ?_⟩
      rw [← settings_execute m program, under_withBudget]

/-- A program that defines a function and calls it twice at once. -/
def repeatingProgram : Array Instruction :=
  #[⟨.npushb, [0], 0⟩, ⟨.fdef, [], 3⟩, ⟨.npushb, [7], 4⟩, ⟨.endf, [], 7⟩,
    ⟨.npushb, [2, 0], 8⟩, ⟨.loopcall, [], 12⟩]

/-- Six instructions, two replays and an instruction in each of them make ten units. -/
theorem execute_repeatingProgram_withBudget :
    (ofOptions {}).unitsUsed repeatingProgram = 10 ∧
      (((ofOptions {}).withBudget 10).execute repeatingProgram).failure = none ∧
      (((ofOptions {}).withBudget 10).execute repeatingProgram).machine.stack.values = [7, 7] ∧
      (((ofOptions {}).withBudget 9).execute repeatingProgram).IsExhausted := by
  have hexecute : (ofOptions {}).execute repeatingProgram =
      ((Run.start (ofOptions {}) 1000000 repeatingProgram).after 11).succeed :=
    Run.finish_of_after_ended (n := 11) (by decide +kernel)
  have hunits : (ofOptions {}).unitsUsed repeatingProgram = 10 := by
    rw [unitsUsed_of_execute_eq hexecute]
    decide +kernel
  have hends : ¬((ofOptions {}).execute repeatingProgram).IsExhausted := by
    rw [hexecute]
    exact Run.not_isExhausted_succeed _
  obtain ⟨-, -, -, hbudget⟩ := execute_withBudget (ofOptions {}) repeatingProgram
  obtain ⟨hfailure, hmachine⟩ := (hbudget hends 10).1 (Nat.le_of_eq hunits)
  refine ⟨hunits, ?_, ?_, (hbudget hends 9).2 (by rw [hunits]; decide)⟩
  · rw [hfailure, hexecute]
    rfl
  · rw [hmachine, hexecute]
    decide +kernel

end Machine

end GridFit
