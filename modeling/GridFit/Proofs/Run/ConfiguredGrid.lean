import GridFit.Proofs.Rounding.ConfiguredGrid
import GridFit.Proofs.Run.Resources

/-!
# Configured grids over the life of a machine

A machine only rounds to a configured grid once an instruction has configured it, and all that
comes later keeps the grid or turns to a fixed one. So at every moment the machine rounds to the
lines of a grid, however it came to it.
-/

namespace GridFit

/-- A round state that has a grid if it rounds to a configured one. -/
def RoundState.IsConsistent (r : RoundState) : Prop :=
  r.mode = .super ∨ r.mode = .super45 → r.IsGrid

/-- An opcode that is there to change the round state turns to a fixed grid or configures one. -/
theorem Opcode.operation_of_isChangedBy_round {op : Opcode} (h : Part.round.IsChangedBy op) :
    (∃ mode, op.operation = .setRoundMode mode ∧ mode ≠ .super ∧ mode ≠ .super45) ∨
      ∃ mode gridPeriod, op.operation = .configureRound mode gridPeriod ∧
        (mode, gridPeriod) ∈ [(RoundMode.super, (0x4000 : Value)), (.super45, 0x2D41)] := by
  simp only [Part.IsChangedBy, List.mem_cons, List.not_mem_nil, or_false] at h
  rcases h with rfl | rfl | rfl | rfl | rfl | rfl | rfl | rfl
  case inr.inr.inr.inr.inr.inr.inl => exact .inr ⟨_, _, rfl, .head _⟩
  case inr.inr.inr.inr.inr.inr.inr => exact .inr ⟨_, _, rfl, .tail _ (.head _)⟩
  all_goals exact .inl ⟨_, rfl, by decide, by decide⟩

namespace Workspace

variable {w : Workspace}

/-- Configuring a grid leaves the old grid or the new one. -/
theorem isConsistent_configureRound {mode : RoundMode} {gridPeriod : Value}
    (hmode : (mode, gridPeriod) ∈ [(RoundMode.super, (0x4000 : Value)), (.super45, 0x2D41)])
    (h : w.graphics.round.IsConsistent) :
    (finalState (configureRound mode gridPeriod w)).graphics.round.IsConsistent := by
  have hpop : (finalState (onStack OperandStack.pop w)).graphics.round = w.graphics.round :=
    @keeps_content_onStack .round _ OperandStack.pop w
  simp only [configureRound, bind_apply]
  cases hr : onStack OperandStack.pop w with
  | error fault w₁ =>
      rw [hr] at hpop
      rw [finalState_error] at hpop ⊢
      rw [hpop]
      exact h
  | ok selector w₁ => exact fun _ => RoundState.isGrid_configure hmode selector

/-- No instruction leaves a configured grid that is none. -/
theorem isConsistent_execute (h : w.graphics.round.IsConsistent) (site : Site)
    (ins : Instruction) :
    (finalState (ins.execute site w)).graphics.round.IsConsistent := by
  unfold Instruction.execute
  by_cases htarget : ins.opcode.operation.target? = some .round
  · rcases Opcode.operation_of_isChangedBy_round (Opcode.isChangedBy_of_target htarget) with
      ⟨mode, hop, hsuper, hsuper45⟩ | ⟨mode, gridPeriod, hop, hmode⟩
    · rw [hop]
      exact fun hconfigured => absurd hconfigured (not_or.2 ⟨hsuper, hsuper45⟩)
    · rw [hop]
      exact isConsistent_configureRound hmode h
  · have hround : (finalState (ins.opcode.operation.execute site ins w)).graphics.round =
        w.graphics.round := Operation.keeps_content site ins htarget w
    rw [hround]
    exact h

end Workspace

namespace Machine

variable {o : Options} {now : Moment} {done : List Deed}

/-- No rule of dispatch leaves a configured grid that is none. -/
theorem invariant_isConsistent : Invariant fun m => m.graphics.round.IsConsistent :=
  invariant_of_workspace (P := fun w => w.graphics.round.IsConsistent) (fun _ _ h => h)
    (fun site ins _ h => Workspace.isConsistent_execute h site ins) fun _ _ h => h

/-- Both configured modes follow one law. Whenever a machine rounds to a configured grid,
whatever it ran, lines are apart and the first one lies in the first period above zero. Every
distance that is not among the greatest ones is rounded to its line without an overflow on the
way, and it stays on its side of zero. -/
theorem configured_rounding_follows_gridLine
    (hnow : (Moment.between (ofOptions o)).Leads done now)
    (hmode : now.machine.graphics.round.mode = .super ∨
      now.machine.graphics.round.mode = .super45) :
    let r := now.machine.graphics.round
    0 < r.period.toInt ∧ 0 ≤ r.phase.toInt ∧ r.phase.toInt < r.period.toInt ∧
      ∀ d : Value, d.toInt.natAbs ≤ 2 ^ 31 - 257 →
        r.round? d = some (r.round d) ∧ (r.round d).toInt = r.gridLine d.toInt ∧
          (0 ≤ d → 0 ≤ r.round d) ∧ (d < 0 → r.round d ≤ 0) := by
  intro r
  have hfresh : (ofOptions o).graphics.round.IsConsistent := fun h => by cases h <;> contradiction
  have hgrid : r.IsGrid := invariant_isConsistent.leads hnow hfresh hmode
  refine ⟨hgrid.period_pos, hgrid.phase_nonneg, hgrid.phase_lt, fun d hroom => ?_⟩
  obtain ⟨v, hv, hline⟩ := RoundState.exists_round? hgrid hmode hroom
  obtain rfl := RoundState.round_of_round? hv
  have hnonneg := RoundState.lineOfMagnitude_nonneg hgrid d.toInt.natAbs
  refine ⟨hv, hline, fun hd => ?_, fun hd => ?_⟩
  · have hle : 0 ≤ d.toInt := Int32.le_iff_toInt_le.1 hd
    rw [RoundState.gridLine, if_neg (Int.not_lt.2 hle)] at hline
    exact Int32.le_iff_toInt_le.2 (hline ▸ hnonneg)
  · have hlt : d.toInt < 0 := Int32.lt_iff_toInt_lt.1 hd
    rw [RoundState.gridLine, if_pos hlt] at hline
    exact Int32.le_iff_toInt_le.2 (hline ▸ Int.neg_nonpos_of_nonneg hnonneg)

/-- A program that configures a diagonal grid and then an upright one, both from a selector that
asks for a late first line and for a threshold below zero. -/
def twoGridsProgram : Array Instruction :=
  #[⟨.npushb, [0x71, 0x71], 0⟩, ⟨.s45round, [], 4⟩, ⟨.sround, [], 5⟩]

/-- A run of `twoGridsProgram` on a fresh machine, after some steps. -/
def twoGridsRun (n : Nat) : Run :=
  (Run.start (ofOptions {}) 1000000 twoGridsProgram).after n

/-- In both grids a distance just below zero is rounded to the first line below zero, although the
threshold takes its magnitude to the other side of zero. -/
theorem configured_rounding_follows_gridLine_twoGrids :
    (twoGridsRun 2).machine.graphics.round.round (-5) = -33 ∧
      (twoGridsRun 2).machine.graphics.round.gridLine (-5) = -33 ∧
        (twoGridsRun 3).machine.graphics.round.round (-5) = -48 ∧
          (twoGridsRun 3).machine.graphics.round.gridLine (-5) = -48 := by
  have hstart := Moment.Leads.start (ofOptions {}) twoGridsProgram
  obtain ⟨-, -, -, hdiagonal⟩ :=
    configured_rounding_follows_gridLine (hstart.after 2) (.inr (by decide +kernel))
  obtain ⟨-, -, -, hupright⟩ :=
    configured_rounding_follows_gridLine (hstart.after 3) (.inl (by decide +kernel))
  have hline : (twoGridsRun 2).machine.graphics.round.gridLine (-5) = -33 := by decide +kernel
  have hline' : (twoGridsRun 3).machine.graphics.round.gridLine (-5) = -48 := by decide +kernel
  obtain ⟨-, hround, -⟩ := hdiagonal (-5) (by decide)
  obtain ⟨-, hround', -⟩ := hupright (-5) (by decide)
  exact ⟨Int32.toInt_inj.1 (hround.trans hline), hline, Int32.toInt_inj.1 (hround'.trans hline'),
    hline'⟩

end Machine

end GridFit
