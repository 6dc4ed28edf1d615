import GridFit.Proofs.Machine.Resources
import GridFit.Proofs.Run.HiddenState
import GridFit.Proofs.Run.History

/-!
# Resources over the life of a machine

The options of a machine bound what it uses: operands, definitions, calls and memories. The
bounds hold at every moment of its life, inside of calls and after failures. So a program
runs out of room for operands only at an instruction that leaves more of them than it takes.

## Implementation notes

All bounds but one are invariants of dispatch. The number of calls is not, since the driver
changes it. It is compared with its limit where a call is opened, and a failure takes back
what the run has counted.
-/

namespace GridFit

/-- Whether an opcode pops its arguments before it pushes the answer to them. -/
def Opcode.answers : Opcode → Bool
  | abs | neg | floor | ceiling | odd | even | round _ | nround _ => true
  | add | sub | mul | div | max | min => true
  | not | and | or | lt | lteq | gt | gteq | eq | neq => true
  | rs | rcvt | getinfo | gc _ | md _ => true
  | cindex | mindex => true
  | _ => false

/-- What answers pushes no more values than it pops. -/
theorem Instruction.pushCount_le_of_answers {ins : Instruction} (font : FontInstance)
    (h : ins.opcode.answers = true) : ins.pushCount font ≤ ins.opcode.stackEffect.pops := by
  obtain ⟨op, operands, pc⟩ := ins
  cases op <;>
    first | exact Nat.le_refl _ | exact Nat.zero_le _ | exact Nat.le_succ _ | cases h

namespace Machine

/-- A machine that uses no more than its options allow. -/
structure WithinLimits (o : Options) (m : Machine) : Prop where
  /-- The operand stack is no deeper than allowed. -/
  stack : ∀ max, o.stackLimit = some max → m.stack.values.length ≤ max
  /-- There are no more functions than allowed. -/
  functions : ∀ max, o.functionLimit = some max → m.functions.keys.length ≤ max
  /-- There are no more instruction definitions than allowed. -/
  instructionDefs : ∀ max, o.instructionLimit = some max → m.instructionDefs.keys.length ≤ max
  /-- No more calls are under way than allowed. -/
  callDepth : m.callDepth ≤ o.callLimit
  /-- The storage area has as many cells as it was given. -/
  storage : m.storage.values.size = o.storageSize
  /-- There are as many control values as there were at first. -/
  cvt : m.cvt.values.size = o.cvt.length
  /-- The loop counter fits in 16 bits. -/
  loopCounter : m.graphics.loopCounter ≤ 65535

end Machine

namespace Moment.Leads

variable {first now : Moment} {done : List Deed}

/-- If no more calls are under way at first than the limit allows, there never are. -/
theorem callDepth_le (hnow : first.Leads done now)
    (h : first.machine.callDepth ≤ first.machine.callLimit) :
    now.machine.callDepth ≤ first.machine.callLimit := by
  induction hnow with
  | here => exact h
  | begun _ program ih => exact ih
  | @step done r next hr hstep ih =>
      have hform := r.stepped
      rw [hstep] at hform
      cases hform with
      | advanced hins hbudget hdispatch hreplay =>
          have hdepth := Machine.callDepth_of_dispatched (Machine.dispatched_of_eq hdispatch)
          exact Nat.le_trans (Nat.le_of_eq hdepth) ih
      | entered hins hbudget hdispatch hreplay =>
          obtain ⟨f, n, k, d, -, -, -, -, -, hlt, -, -, rfl⟩ :=
            Machine.called_of_replay hdispatch hreplay
          have hlimit : r.machine.callLimit = first.machine.callLimit :=
            congrArg (fun S => S.limits.calls) ((Machine.invariant_settings _).leads hr rfl)
          exact hlimit ▸ hlt
      | returned hend hcalls hremaining => exact Nat.le_trans (Nat.sub_le _ _) ih
      | replayed hend hcalls hremaining hbudget => exact ih
  | @ended done r o hr hstep ih =>
      have hform := r.stepped
      rw [hstep] at hform
      cases hform with
      | exhausted hins hbudget => exact Nat.le_trans (Nat.sub_le _ _) ih
      | failed hins hbudget hdispatch =>
          have hdepth := Machine.callDepth_of_dispatched (Machine.dispatched_of_eq hdispatch)
          exact Nat.le_trans (Nat.sub_le _ _) (Nat.le_trans (Nat.le_of_eq hdepth) ih)
      | finished hend hcalls => exact ih
      | replayExhausted hend hcalls hremaining hbudget =>
          exact Nat.le_trans (Nat.sub_le _ _) ih

end Moment.Leads

namespace Machine

variable {o : Options} {now : Moment} {done : List Deed}

/-- A machine never uses more than its options allow. -/
theorem WithinLimits.of_leads (hnow : (Moment.between (ofOptions o)).Leads done now) :
    now.machine.WithinLimits o := by
  have hsettings := (invariant_settings o.settings).leads hnow (settings_ofOptions o)
  have hbounds := (invariant_inBounds _ _).leads hnow (inBounds_ofOptions o)
  have hregistries := invariant_isWithinLimit.leads hnow (isWithinLimit_ofOptions o)
  have hlimits : now.machine.limits = o.limits := congrArg Settings.limits hsettings
  constructor
  case stack =>
    intro max hmax
    have hlimit : now.machine.stack.limit = some max := (congrArg Limits.stack hlimits).trans hmax
    exact OperandStack.hasRoom_iff.1 hbounds.stack max hlimit
  case functions =>
    intro max hmax
    have hlimit : now.machine.functions.limit = some max :=
      (congrArg Limits.functions hlimits).trans hmax
    rw [Registry.keys, List.length_map]
    exact hregistries .function max hlimit
  case instructionDefs =>
    intro max hmax
    have hlimit : now.machine.instructionDefs.limit = some max :=
      (congrArg Limits.instructionDefs hlimits).trans hmax
    rw [Registry.keys, List.length_map]
    exact hregistries .instruction max hlimit
  case callDepth => exact hnow.callDepth_le (Nat.zero_le _)
  case storage => exact hbounds.storage
  case cvt => exact hbounds.cvt
  case loopCounter => exact hbounds.loopCounter

/-- Resources stay within their limits. At every moment of the life of a machine, whatever it
ran, it uses no more than its options allow. And an instruction that finds no room on the
operand stack pushes more values than it pops, so that none that only answers to its arguments
ever fails in this way. -/
theorem resources_within_limits (hnow : (Moment.between (ofOptions o)).Leads done now) :
    now.machine.WithinLimits o ∧
      ∀ r ins, now = .during r → r.current? = some ins → r.FailsBy .stackOverflow →
        ins.opcode.stackEffect.pops < ins.pushCount o.toFontInstance ∧
          ins.opcode.answers = false := by
  refine ⟨.of_leads hnow, ?_⟩
  rintro r ins rfl hins hfails
  have hsettings := (invariant_settings o.settings).leads hnow (settings_ofOptions o)
  have hbounds := (invariant_inBounds _ _).leads hnow (inBounds_ofOptions o)
  have hfont : r.machine.font = o.toFontInstance := congrArg Settings.font hsettings
  obtain ⟨ins', outcome, hins', hstep, hfailure⟩ := hfails
  obtain rfl := Option.some.inj (hins.symm.trans hins')
  have hmore : ins.opcode.stackEffect.pops < ins.pushCount o.toFontInstance := by
    have hform := r.stepped
    rw [hstep] at hform
    cases hform with
    | exhausted hins hbudget => cases congrArg Failure.fault (Option.some.inj hfailure)
    | @failed ins' budget fault m hins' hbudget hdispatch =>
        obtain rfl := Option.some.inj (hins.symm.trans hins')
        obtain rfl : fault = .stackOverflow := congrArg Failure.fault (Option.some.inj hfailure)
        exact hfont ▸ pops_lt_of_stackOverflow hbounds.stack (dispatched_of_eq hdispatch)
    | finished hend hcalls => cases hfailure
    | replayExhausted hend hcalls hremaining hbudget =>
        cases congrArg Failure.fault (Option.some.inj hfailure)
  refine ⟨hmore, ?_⟩
  cases hanswers : ins.opcode.answers with
  | false => rfl
  | true => exact absurd hmore (Nat.not_lt.2 (ins.pushCount_le_of_answers _ hanswers))

/-- Options that leave room for two operands. -/
def twoOperandsOptions : Options :=
  { stackLimit := some 2 }

/-- A program that fills the stack, exchanges the operands and then duplicates one of them. -/
def crowdedProgram : Array Instruction :=
  #[⟨.npushb, [1, 2], 0⟩, ⟨.swap, [], 4⟩, ⟨.dup, [], 5⟩]

/-- A run of `crowdedProgram` with room for two operands, after some steps. -/
def crowdedRun (n : Nat) : Run :=
  (Run.start (ofOptions twoOperandsOptions) 1000000 crowdedProgram).after n

/-- Where the stack is full, a duplication fails, and it pushes more than it pops. -/
theorem resources_within_limits_crowded :
    (crowdedRun 2).machine.WithinLimits twoOperandsOptions ∧
      (crowdedRun 2).FailsBy .stackOverflow ∧
        Opcode.dup.stackEffect.pops <
          (⟨.dup, [], 5⟩ : Instruction).pushCount twoOperandsOptions.toFontInstance := by
  have hstart := Moment.Leads.start (ofOptions twoOperandsOptions) crowdedProgram
  have hfails : (crowdedRun 2).FailsBy .stackOverflow := by
    refine (Run.failsBy_iff rfl (by decide +kernel)).2 ⟨(crowdedRun 2).machine, ?_⟩
    rfl
  obtain ⟨hwithin, hmore⟩ := resources_within_limits (hstart.after 2)
  exact ⟨hwithin, hfails, (hmore _ ⟨.dup, [], 5⟩ rfl rfl hfails).1⟩

end Machine

end GridFit
