import GridFit.Proofs.Program.Push
import GridFit.Proofs.Program.Seam
import GridFit.Proofs.Run.Resources

/-!
# Programs that only push

A program of push instructions leaves its literals on the operand stack, in their order, and
changes nothing else. If they do not all fit under the limit, it stops at the first instruction
whose literals do not fit behind those before it, and none of its literals are pushed.

## Implementation notes

The induction is on the instructions that are still to come. `Machine.Pushes` says of them how
the run ends, and it carries over to one more instruction in front.
-/

namespace GridFit

open Instruction (operandValues)

namespace OperandStack

theorem append_append (s : OperandStack) (vs us : List Value) :
    (s.append vs).append us = s.append (vs ++ us) :=
  ext (by simp [append, List.reverseAux_eq]) rfl

theorem toList_append (s : OperandStack) (vs : List Value) :
    (s.append vs).toList = s.toList ++ vs := by
  simp [toList, append, List.reverseAux_eq]

end OperandStack

namespace Machine

/-- The machine with further values on the operand stack, whatever the limit. -/
def appended (m : Machine) (vs : List Value) : Machine :=
  { m with stack := m.stack.append vs }

/-- What push instructions push, in their order. -/
def pushedValues (program : List Instruction) : List Value :=
  program.flatMap operandValues

/-- How a run of push instructions ends. -/
inductive Pushes (m : Machine) (program : List Instruction) (o : Outcome) : Prop
  | fits (hroom : m.stack.hasRoom (pushedValues program).length = true)
      (hfailure : o.failure = none) (hmachine : o.machine = m.appended (pushedValues program))
  | overflows (front : List Instruction) {ins back} (hprogram : program = front ++ ins :: back)
      (hroom : m.stack.hasRoom (pushedValues front).length = true)
      (hfull : ¬m.stack.hasRoom (pushedValues (front ++ [ins])).length = true)
      (hfailure : o.failure = some (.ofInstruction ins .stackOverflow))
      (hmachine : o.machine = m.appended (pushedValues front))

variable {m : Machine} {ins : Instruction} {program rest : List Instruction} {o : Outcome}

theorem pushedValues_cons (ins : Instruction) (rest : List Instruction) :
    pushedValues (ins :: rest) = ins.operandValues ++ pushedValues rest := rfl

theorem pushedValues_append (front back : List Instruction) :
    pushedValues (front ++ back) = pushedValues front ++ pushedValues back :=
  List.flatMap_append

theorem appended_appended (m : Machine) (vs us : List Value) :
    (m.appended vs).appended us = m.appended (vs ++ us) := by
  simp only [appended, OperandStack.append_append]

/-- What instructions do behind another one, they do as well after it. -/
theorem Pushes.cons (h : (m.appended ins.operandValues).Pushes rest o) :
    m.Pushes (ins :: rest) o := by
  cases h with
  | fits hroom hfailure hmachine =>
      refine .fits ?_ hfailure ?_
      · rw [pushedValues_cons, List.length_append]
        exact OperandStack.hasRoom_append_iff.1 hroom
      · rw [hmachine, appended_appended, pushedValues_cons]
  | @overflows front failing back hprogram hroom hfull hfailure hmachine =>
      refine .overflows (ins :: front) (congrArg (ins :: ·) hprogram) ?_ ?_ hfailure ?_
      · rw [pushedValues_cons, List.length_append]
        exact OperandStack.hasRoom_append_iff.1 hroom
      · rw [List.cons_append, pushedValues_cons, List.length_append]
        exact fun hall => hfull (OperandStack.hasRoom_append_iff.2 hall)
      · rw [hmachine, appended_appended, pushedValues_cons]

/-- A push instruction pushes all of its operands or none. -/
theorem dispatch_push (hm : m.Performs) (hpush : ins.opcode.isPush = true)
    (sequence : Array Instruction) (index : Nat) :
    dispatch sequence index ins m =
      if m.stack.hasRoom ins.operandValues.length = true then
        .ok {} (m.appended ins.operandValues)
      else .error .stackOverflow m := by
  have hop : ins.kind = .generic ∧ ins.opcode.operation = .pushOperands := by
    unfold Instruction.kind
    cases hop : ins.opcode <;> first | exact ⟨rfl, rfl⟩ | simp [hop, Opcode.isPush] at hpush
  have hreport : reportOf ins m = [] := by
    rw [reportOf, hop.2]
    rfl
  rw [dispatch_of_performs hm hop.1, hreport]
  simp only [Instruction.execute, hop.2, Operation.execute, Workspace.onStack,
    OperandStack.pushAll]
  by_cases hroom : m.stack.hasRoom ins.operandValues.length = true
  · simp only [if_pos hroom]
    rfl
  · simp only [if_neg hroom]

end Machine

namespace Run

/-- A run that performs the rest of its program, outside of any call. -/
structure ComesTo (r : Run) (rest : List Instruction) : Prop where
  /-- The rest begins at the current position. -/
  position : r.position.sequence.toList.drop r.position.index = rest
  /-- No call is under way. -/
  calls : r.calls = []
  /-- Instructions are performed. -/
  performs : r.machine.Performs
  /-- No jump is asked for. -/
  requestedJump : r.machine.requestedJump = 0
  /-- There is a unit of the budget for every instruction. -/
  budget : rest.length ≤ r.budget

variable {r : Run} {ins : Instruction} {rest : List Instruction}

/-- The current instruction is the first one of the rest. -/
theorem ComesTo.current?_eq (h : r.ComesTo rest) : r.current? = rest.head? := by
  rw [← h.position, List.head?_drop, Array.getElem?_toList]
  rfl

/-- A run that comes to an instruction has a unit of its budget left. -/
theorem ComesTo.exists_budget (h : r.ComesTo (ins :: rest)) :
    ∃ budget, r.budget = budget + 1 ∧ rest.length ≤ budget := by
  have hle := h.budget
  rw [List.length_cons] at hle
  obtain ⟨budget, hbudget⟩ := Nat.exists_eq_add_one.2 (Nat.lt_of_lt_of_le (Nat.succ_pos _) hle)
  rw [hbudget] at hle
  exact ⟨budget, hbudget, Nat.le_of_succ_le_succ hle⟩

/-- A push instruction whose operands fit takes a run to the next instruction. -/
theorem ComesTo.step_of_hasRoom (h : r.ComesTo (ins :: rest)) (hpush : ins.opcode.isPush = true)
    (hroom : r.machine.stack.hasRoom ins.operandValues.length = true) :
    ∃ next, r.step = .running next ∧ next.ComesTo rest ∧
      next.machine = r.machine.appended ins.operandValues := by
  obtain ⟨budget, hbudget, hle⟩ := h.exists_budget
  have hdispatch := Machine.dispatch_push h.performs hpush r.position.sequence r.position.index
  rw [if_pos hroom] at hdispatch
  have hstep := (Stepped.advanced h.current?_eq hbudget hdispatch rfl).step_eq
  have hindex : nextIndex r.position.index r.machine.requestedJump = r.position.index + 1 := by
    rw [h.requestedJump]
    rfl
  refine ⟨_, hstep, ⟨?_, h.calls, ⟨h.performs.1, h.performs.2⟩, rfl, hle⟩,
    Machine.clear_eq h.requestedJump⟩
  show r.position.sequence.toList.drop (nextIndex r.position.index r.machine.requestedJump) = rest
  rw [hindex, ← List.tail_drop, h.position, List.tail_cons]

/-- A push instruction whose operands do not fit ends a run. -/
theorem ComesTo.step_of_not_hasRoom (h : r.ComesTo (ins :: rest))
    (hpush : ins.opcode.isPush = true)
    (hfull : ¬r.machine.stack.hasRoom ins.operandValues.length = true) :
    ∃ o, r.step = .ended o ∧ o.failure = some (.ofInstruction ins .stackOverflow) ∧
      o.machine = r.machine := by
  obtain ⟨budget, hbudget, -⟩ := h.exists_budget
  have hdispatch := Machine.dispatch_push h.performs hpush r.position.sequence r.position.index
  rw [if_neg hfull] at hdispatch
  refine ⟨_, (Stepped.failed h.current?_eq hbudget hdispatch).step_eq, rfl, ?_⟩
  simp [fail, charged, h.calls]

/-- A run of push instructions ends with all of their operands on the stack, or at the first
one whose operands do not fit. -/
theorem ComesTo.pushes (h : r.ComesTo rest) (hpush : ∀ ins ∈ rest, ins.opcode.isPush = true)
    (hroom : r.machine.stack.hasRoom 0 = true) : r.machine.Pushes rest r.finish := by
  induction rest generalizing r with
  | nil =>
      have hstep := (Stepped.finished h.current?_eq h.calls).step_eq
      rw [finish_of_ended hstep]
      exact .fits hroom rfl rfl
  | cons ins rest ih =>
      obtain ⟨hins, hrest⟩ := List.forall_mem_cons.1 hpush
      by_cases hfits : r.machine.stack.hasRoom ins.operandValues.length = true
      · obtain ⟨next, hstep, hnext, hmachine⟩ := h.step_of_hasRoom hins hfits
        rw [finish_of_running hstep]
        refine .cons (hmachine ▸ ih hnext hrest ?_)
        rw [hmachine]
        exact OperandStack.hasRoom_append_iff.2 hfits
      · obtain ⟨o, hstep, hfailure, hmachine⟩ := h.step_of_not_hasRoom hins hfits
        rw [finish_of_ended hstep]
        have hfull : ¬r.machine.stack.hasRoom (Machine.pushedValues [ins]).length = true := by
          rwa [Machine.pushedValues, List.flatMap_singleton]
        exact .overflows [] rfl hroom hfull hfailure hmachine

end Run

/-! ## Literals on the stack -/

namespace Machine

/-- The literals of instructions, in their order. -/
def literals (program : List Instruction) : List Int :=
  program.flatMap Instruction.literals

/-- The operands of a machine and further ones fit under the configured limit. -/
def HasRoomFor (m : Machine) (o : Options) (further : List Int) : Prop :=
  ∀ max, o.stackLimit = some max → m.stack.toList.length + further.length ≤ max

/-- A machine has received literals on its operand stack and is otherwise as it was. -/
structure Receives (m : Machine) (received : List Int) (m' : Machine) : Prop where
  /-- The literals lie on the operands that were there. -/
  operands : m'.stack.toList.map Int32.toInt = m.stack.toList.map Int32.toInt ++ received
  /-- The limit of the stack is the same. -/
  limit : m'.stack.limit = m.stack.limit
  /-- Everything but the stack is the same. -/
  rest : m' = { m with stack := m'.stack }

variable {o : Options} {m : Machine} {bytes : List UInt8} {program : Array Instruction}

theorem map_toInt_pushedValues (program : List Instruction) :
    (pushedValues program).map Int32.toInt = literals program :=
  List.map_flatMap ..

/-- Values are received as their literals. -/
theorem receives_appended (m : Machine) (program : List Instruction) :
    m.Receives (literals program) (m.appended (pushedValues program)) where
  operands := by
    rw [appended, OperandStack.toList_append, List.map_append, map_toInt_pushedValues]
  limit := rfl
  rest := rfl

/-- The stack of a reachable machine has the configured limit. -/
theorem Reachable.hasRoom_iff (hm : Reachable o m) (program : List Instruction) :
    m.stack.hasRoom (pushedValues program).length = true ↔ m.HasRoomFor o (literals program) := by
  have hsettings := (invariant_settings o.settings).reachable (settings_ofOptions o) hm
  have hlimit : m.stack.limit = o.stackLimit := congrArg (fun S => S.limits.stack) hsettings
  have hlength : (literals program).length = (pushedValues program).length := by
    rw [← map_toInt_pushedValues, List.length_map]
  have hdepth : m.stack.toList.length = m.stack.values.length := List.length_reverse
  rw [OperandStack.hasRoom_iff, HasRoomFor, hlimit, hlength, hdepth]

/-- A run of push instructions on a reachable machine that performs instructions and has the
budget for them ends with all of their operands on the stack, or at the first one whose operands
do not fit. -/
theorem Reachable.pushes_execute (hm : Reachable o m) (hperforms : m.Performs)
    (hpush : ∀ ins ∈ program, ins.opcode.isPush = true) (hbudget : program.size ≤ m.budget) :
    m.Pushes program.toList (m.execute program) := by
  have hmachine : (Run.start m m.budget program).machine = m := clear_eq hm.requestedJump
  have hbounds := (invariant_inBounds _ _).reachable (inBounds_ofOptions o) hm
  have hstart : (Run.start m m.budget program).ComesTo program.toList :=
    { position := rfl
      calls := rfl
      performs := hmachine ▸ hperforms
      requestedJump := rfl
      budget := hbudget }
  have hpushes := hstart.pushes (fun ins hins => hpush ins (Array.mem_toList_iff.1 hins))
    (hmachine ▸ hbounds.stack)
  rwa [hmachine] at hpushes

/-- Programs that only push deliver their literals. If these fit under the limit, the operand
stack has all of them on top, in the order of the program, and nothing else has changed.
Otherwise the program stops at the first instruction whose literals do not fit, with those of the
instructions before it on the stack. -/
theorem push_program_delivers_literals (hm : Reachable o m) (hexec : m.isExecuting = true)
    (hrec : m.recording = none) (hparse : parse bytes = .ok program)
    (hpush : ∀ ins ∈ program, ins.opcode.isPush = true) (hbudget : program.size ≤ m.budget) :
    (encode program.toList = bytes ∧ ∀ ins ∈ program, IsPush ins.encode ins.literals) ∧
    (m.HasRoomFor o (literals program.toList) →
      (m.execute program).failure = none ∧
        m.Receives (literals program.toList) (m.execute program).machine) ∧
    (¬m.HasRoomFor o (literals program.toList) → ∃ front ins back,
      program.toList = front ++ ins :: back ∧ m.HasRoomFor o (literals front) ∧
        ¬m.HasRoomFor o (literals (front ++ [ins])) ∧ ins.pc = (encode front).length ∧
        (m.execute program).failure = some (.ofInstruction ins .stackOverflow) ∧
        m.Receives (literals front) (m.execute program).machine) := by
  obtain ⟨hlaid, hbytes⟩ := parse_eq_ok_iff.1 hparse
  refine ⟨⟨hbytes, fun ins hins => ?_⟩, ?_⟩
  · exact Instruction.isPush_encode (hpush ins hins) (hlaid.admits (Array.mem_toList_iff.2 hins))
  · simp only [← hm.hasRoom_iff]
    cases hm.pushes_execute ⟨hexec, hrec⟩ hpush hbudget with
    | fits hroom hfailure hmachine =>
        refine ⟨fun _ => ⟨hfailure, ?_⟩, fun hfull => absurd hroom hfull⟩
        rw [hmachine]
        exact m.receives_appended _
    | @overflows front ins back hprogram hroom hfull hfailure hmachine =>
        rw [hprogram] at hlaid
        have hpc : ins.pc = (encode front).length := hlaid.of_append.2.1.trans (Nat.zero_add _)
        have hle :
            (pushedValues (front ++ [ins])).length ≤ (pushedValues program.toList).length := by
          rw [hprogram.trans (List.append_cons ..), pushedValues_append _ back, List.length_append]
          exact Nat.le_add_right _ _
        refine ⟨fun hall => absurd (OperandStack.hasRoom_of_le hall hle) hfull, fun _ => ?_⟩
        refine ⟨front, ins, back, hprogram, hroom, hfull, hpc, hfailure, ?_⟩
        rw [hmachine]
        exact m.receives_appended _

/-- Options with a limit for the operand stack. -/
def limitedOptions (max : Nat) : Options :=
  { stackLimit := some max }

/-- A word, no bytes at all, two bytes and another word, all of them counted. -/
def literalProgram : Array Instruction :=
  #[⟨.npushw, [0xFF, 0xFE], 0⟩, ⟨.npushb, [], 4⟩, ⟨.npushb, [0xFF, 0x01], 6⟩,
    ⟨.npushw, [0x80, 0x00], 10⟩]

/-- Four literals are delivered if there is room for four of them, and otherwise the run stops. -/
theorem push_program_delivers_literals_fourth :
    ((ofOptions (limitedOptions 4)).execute literalProgram).machine.stack.toList.map Int32.toInt =
        [-2, 255, 1, -32768] ∧
      ∃ ins ∈ literalProgram, ((ofOptions (limitedOptions 3)).execute literalProgram).failure =
        some (.ofInstruction ins .stackOverflow) := by
  have hparse : parse [0x41, 1, 0xFF, 0xFE, 0x40, 0, 0x40, 2, 0xFF, 0x01, 0x41, 1, 0x80, 0x00] =
      .ok literalProgram := parse_eq_ok_iff.2 (by decide +kernel)
  obtain ⟨-, hfits, -⟩ := push_program_delivers_literals (.fresh (o := limitedOptions 4)) rfl rfl
    hparse (by decide) (by decide)
  obtain ⟨-, -, hfull⟩ := push_program_delivers_literals (.fresh (o := limitedOptions 3)) rfl rfl
    hparse (by decide) (by decide)
  constructor
  · refine (hfits ?_).2.operands
    intro max hmax
    cases hmax
    decide +kernel
  · obtain ⟨front, ins, back, hprogram, -, -, -, hfailure, -⟩ := hfull (by
      intro hroom
      exact absurd (hroom 3 rfl) (by decide +kernel))
    have hins : ins ∈ literalProgram.toList := by
      rw [hprogram]
      exact List.mem_append_right _ List.mem_cons_self
    exact ⟨ins, Array.mem_toList_iff.1 hins, hfailure⟩

end Machine

end GridFit
