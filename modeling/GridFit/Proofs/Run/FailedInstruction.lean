import GridFit.Proofs.Operation.Damage
import GridFit.Proofs.Run.OpenDefinition

/-!
# What a failing instruction leaves behind

An instruction that fails ends the run, and the next run goes on with the machine that it leaves.
Operands are gone then, and the loop counter may be used up. All else is as it was before the
instruction: memories, rounding, branches, definitions and the jump that is asked for.

## Implementation notes

A call also fails where its first replay cannot be paid. That takes two steps, and the first of
them has counted the call. Where a run ends, all calls under way are abandoned at once.
-/

namespace GridFit

namespace OperandStack

/-- Operands are popped from the end of the values, bottom first. -/
theorem toList_drop_isPrefix (s : OperandStack) (n : Nat) : (s.drop n).toList <+: s.toList :=
  List.reverse_prefix.2 (List.drop_suffix n s.values)

/-- Values are pushed to the end of the values, bottom first. -/
theorem toList_isPrefix_append (s : OperandStack) (vs : List Value) :
    s.toList <+: (s.append vs).toList := by
  have hvalues : (s.append vs).values = vs.reverse ++ s.values := List.reverseAux_eq
  rw [toList, toList, List.reverse_prefix, hvalues]
  exact List.suffix_append _ _

end OperandStack

/-- What a failing instruction may do to a machine. -/
structure Instruction.OnlyDamages (ins : Instruction) (fault : Fault) (before after : Machine) :
    Prop where
  /-- Nothing has changed apart from the stack and the loop counter. -/
  rest : after = { before with
    stack := after.stack, graphics.loopCounter := after.graphics.loopCounter }
  /-- The stack has the same limit. -/
  limit : after.stack.limit = before.stack.limit
  /-- The loop counter is the same, or it was used up by an opcode that takes points. -/
  loopCounter : after.graphics.loopCounter = before.graphics.loopCounter ∨
    after.graphics.loopCounter = 1 ∧ ins.opcode.takesPoints = true
  /-- Values are missing from the top of the stack. Only an opcode that pushes several values one
  after the other leaves more of them where it finds no room. -/
  stack : if fault = .stackOverflow ∧ ins.opcode.pushesSeverally = true then
      before.stack.toList <+: after.stack.toList
    else after.stack.toList <+: before.stack.toList

namespace Instruction.OnlyDamages

variable {ins : Instruction} {fault : Fault}

/-- Operands that are gone are no other damage. -/
theorem of_popped (m : Machine) (n : Nat)
    (hop : fault = .stackOverflow → ins.opcode.pushesSeverally = false) :
    ins.OnlyDamages fault m (m.popped n) where
  rest := rfl
  limit := rfl
  loopCounter := .inl rfl
  stack := by
    rw [if_neg]
    · exact m.stack.toList_drop_isPrefix n
    · rintro ⟨hfault, hseveral⟩
      rw [hop hfault] at hseveral
      cases hseveral

/-- What damages nothing but the workspace like an operation does no other damage. -/
theorem of_damages {m : Machine} {w : Workspace} (h : ins.Damages m.toWorkspace fault w) :
    ins.OnlyDamages fault m { m with toWorkspace := w } := by
  cases h with
  | taken _ n hop => exact of_popped m n fun _ => hop
  | counted n hpoints =>
      refine ⟨rfl, rfl, .inr ⟨rfl, hpoints⟩, ?_⟩
      rw [if_neg nofun]
      exact m.stack.toList_drop_isPrefix n
  | pushed vs hop =>
      refine ⟨rfl, rfl, .inl rfl, ?_⟩
      rw [if_pos ⟨rfl, hop⟩]
      exact m.stack.toList_isPrefix_append vs

end Instruction.OnlyDamages

/-- The instruction that has its turn fails before another one has. It fails at once, or it is a
call whose first replay cannot be paid. -/
inductive Run.FailsAlone (r : Run) : Outcome → Prop
  | atOnce {outcome} (hstep : r.step = .ended outcome) : FailsAlone r outcome
  | unpaid {next outcome} (hstep : r.step = .running next)
      (hcall : r.calls.length < next.calls.length) (hend : next.step = .ended outcome) :
      FailsAlone r outcome

namespace Machine

variable {sequence : Array Instruction} {index : Nat} {ins : Instruction} {m m' : Machine}
  {fault : Fault}

/-- An instruction that fails damages nothing but operands and the loop counter. -/
theorem Recordable.onlyDamages_of_dispatch_error (hm : m.Recordable)
    (h : dispatch sequence index ins m = .error fault m') : ins.OnlyDamages fault m m' := by
  have hrule := dispatched_of_eq h
  have hsame {fault : Fault} (hfault : fault ≠ .stackOverflow) : ins.OnlyDamages fault m m := by
    simpa using Instruction.OnlyDamages.of_popped m 0 fun heq => absurd heq hfault
  cases hrule with
  | recordFailed hplain hexec hrec hrecord =>
      rw [Registry.eq_of_record_error hrecord]
      exact hsame nofun
  | executionFailed hkind hexec hrec hrun =>
      exact .of_damages (Instruction.damages_of_execute_error hrun)
  | callUnderflow hkind hexec hrec hvalues hn => exact .of_popped m _ nofun
  | callUndefined hops hexec hrec hn hget =>
      rw [Registry.eq_of_get_error hget]
      exact .of_popped m _ nofun
  | callTooDeep hops hexec hrec hn hget hdepth => exact .of_popped m _ nofun
  | ifUnderflow hkind hexec hvalues => exact hsame nofun
  | elseUnmatched hkind hbranches => exact hsame nofun
  | endIfUnmatched hkind hskipped hbranches => exact hsame nofun
  | openUnderflow hkind hvalues => exact hsame nofun
  | openFailed hkind hvalues hinsert =>
      rw [Registry.eq_of_insert_error hinsert]
      exact .of_popped m _ nofun
  | closeFailed hkind hrec hclose =>
      -- The open definition would be forgotten, but there is always one to close.
      obtain ⟨d, hfind, -⟩ := hm _ hrec
      cases hclose.symm.trans (Registry.close_of_find? hfind)
  | closeUnmatched hkind hrec => exact hsame nofun

/-- Before a call has begun to replay anything, it has only taken its operands. -/
theorem onlyDamages_of_unpaid {r next : Run} {outcome : Outcome}
    (hins : r.current? = some ins) (hstep : r.step = .running next)
    (hcall : r.calls.length < next.calls.length) (hend : next.step = .ended outcome) :
    ∃ fault m, ins.OnlyDamages fault r.machine m ∧
      outcome.failure = some (.ofInstruction ins fault) ∧
      outcome.machine = { m with callDepth := m.callDepth - r.calls.length } := by
  have hform := r.stepped
  rw [hstep] at hform
  cases hform with
  | advanced hins' hbudget hdispatch hreplay => exact absurd hcall (Nat.lt_irrefl _)
  | returned hnone hcalls hremaining => cases hins.symm.trans hnone
  | replayed hnone hcalls hremaining hbudget => cases hins.symm.trans hnone
  | @entered ins' budget effect m body count hins' hbudget hdispatch hreplay =>
      obtain rfl := Option.some.inj (hins.symm.trans hins')
      obtain ⟨f, n, k, d, -, -, -, -, -, -, -, -, rfl⟩ := called_of_replay hdispatch hreplay
      generalize hnext : ((r.charged ins budget).carriedOut (r.machine.popped k)
        effect.events).openCall ins body count = next at hend
      have hnone : next.current? = none := by
        rw [← hnext]
        exact Array.getElem?_size
      have hform := next.stepped
      rw [hend] at hform
      cases hform with
      | exhausted hins' hbudget => cases hins'.symm.trans hnone
      | failed hins' hbudget hdispatch => cases hins'.symm.trans hnone
      | finished hnone hcalls =>
          rw [← hnext] at hcalls
          cases hcalls
      | replayExhausted hnone hcalls hremaining hbudget =>
          subst hnext
          cases hcalls
          refine ⟨.budgetExceeded, _, .of_popped r.machine k nofun, rfl, ?_⟩
          simp only [Run.fail, Run.openCall, List.length_cons, Nat.add_sub_add_right]
          rfl

/-- A failing instruction damages nothing but its operands. At every moment of the life of a
machine, whatever it ran, an instruction that fails leaves the machine as it found it, without
some of its operands and perhaps with a loop counter that is used up. A call that fails before it
replays anything is no different. The run then ends, and the calls in which the instruction
stands are abandoned. -/
theorem failure_damages_operands_only {o : Options} {done : List Deed} {r : Run}
    (hnow : (Moment.between (ofOptions o)).Leads done (.during r))
    (hins : r.current? = some ins) :
    (∀ fault m, dispatch r.position.sequence r.position.index ins r.machine = .error fault m →
      ins.OnlyDamages fault r.machine m) ∧
    ∀ outcome, r.FailsAlone outcome → ∃ fault m, ins.OnlyDamages fault r.machine m ∧
      outcome.failure = some (.ofInstruction ins fault) ∧
      outcome.machine = { m with callDepth := m.callDepth - r.calls.length } := by
  have hrecordable := invariant_recordable.leads hnow (recordable_ofOptions o)
  refine ⟨fun fault m => hrecordable.onlyDamages_of_dispatch_error, fun outcome hfails => ?_⟩
  cases hfails with
  | unpaid hstep hcall hend => exact onlyDamages_of_unpaid hins hstep hcall hend
  | atOnce hstep =>
      have hform := r.stepped
      rw [hstep] at hform
      cases hform with
      | finished hnone hcalls => cases hins.symm.trans hnone
      | replayExhausted hnone hcalls hremaining hbudget => cases hins.symm.trans hnone
      | exhausted hins' hbudget =>
          obtain rfl := Option.some.inj (hins.symm.trans hins')
          exact ⟨.budgetExceeded, _, .of_popped r.machine 0 nofun, rfl, by simp [Run.fail]⟩
      | failed hins' hbudget hdispatch =>
          obtain rfl := Option.some.inj (hins.symm.trans hins')
          exact ⟨_, _, hrecordable.onlyDamages_of_dispatch_error hdispatch, rfl, rfl⟩

/-- Options with a budget for four instructions. -/
def fourUnitsOptions : Options :=
  { budget := 4 }

/-- A program that defines an empty function and calls it, with a value to spare. -/
def lateCallProgram : Array Instruction :=
  #[⟨.npushb, [7, 0, 0], 0⟩, ⟨.fdef, [], 5⟩, ⟨.endf, [], 6⟩, ⟨.call, [], 7⟩]

/-- A run of `lateCallProgram` with a budget for its instructions, after some steps. -/
def lateCallRun (n : Nat) : Run :=
  (Run.start (ofOptions fourUnitsOptions) 4 lateCallProgram).after n

/-- A call that has been paid but not its first replay has taken its operand and left the
definitions alone. -/
theorem failure_damages_operands_only_lateCall :
    ∃ outcome, (lateCallRun 3).FailsAlone outcome ∧
      outcome.machine.functions = (lateCallRun 3).machine.functions ∧
        outcome.machine.callDepth = (lateCallRun 3).machine.callDepth ∧
          outcome.machine.stack.toList <+: [7, 0] := by
  have hnow : (Moment.between (ofOptions fourUnitsOptions)).Leads _ (.during (lateCallRun 3)) :=
    (Moment.Leads.start _ lateCallProgram).after 3
  have hins : (lateCallRun 3).current? = some ⟨.call, [], 7⟩ := by decide +kernel
  have hend : (lateCallRun 4).step =
      .ended ((lateCallRun 4).fail ⟨.call, [], 7⟩ .budgetExceeded) := by
    decide +kernel
  have halone : (lateCallRun 3).FailsAlone _ :=
    .unpaid (by decide +kernel) (by decide +kernel) hend
  obtain ⟨-, hfailures⟩ := failure_damages_operands_only hnow hins
  obtain ⟨fault, m, honly, -, houtcome⟩ := hfailures _ halone
  have hfunctions := congrArg Machine.functions honly.rest
  have hdepth := congrArg Machine.callDepth honly.rest
  have hcalls : (lateCallRun 3).calls = [] := by decide +kernel
  have hbefore : (lateCallRun 3).machine.stack.toList = [7, 0] := by decide +kernel
  have hstack := honly.stack
  rw [if_neg (by simp [Opcode.pushesSeverally]), hbefore] at hstack
  refine ⟨_, halone, ?_, ?_, ?_⟩
  · rw [houtcome]
    exact hfunctions
  · rw [houtcome, hcalls]
    exact hdepth
  · rw [houtcome]
    exact hstack

end Machine

end GridFit
