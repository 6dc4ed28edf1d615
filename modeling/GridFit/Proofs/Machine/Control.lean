import GridFit.Proofs.Machine.Dispatch
import GridFit.Proofs.Operation.Jump

/-!
# Control state

The part of a machine that decides which instructions run, apart from operands and
memories: branches, definitions, calls and the jump that is asked for. A plain
instruction that is performed changes none of it but the jump.
-/

namespace GridFit

/-- What steers a machine. -/
structure Control where
  /-- Whether each open branch executes, innermost first. -/
  branches : List Bool
  /-- The number of open tests inside a region that is skipped. -/
  skippedIfs : Nat
  /-- The definition that is being recorded. -/
  recording : Option DefinitionName
  /-- The functions. -/
  functions : Registry
  /-- The instruction definitions. -/
  instructionDefs : Registry
  /-- The number of calls that are under way. -/
  callDepth : Nat
  /-- The jump that is asked for. -/
  requestedJump : Value
deriving DecidableEq, Repr

namespace Machine

/-- The control state of a machine. -/
def control (m : Machine) : Control :=
  { branches := m.branches
    skippedIfs := m.skippedIfs
    recording := m.recording
    functions := m.functions
    instructionDefs := m.instructionDefs
    callDepth := m.callDepth
    requestedJump := m.requestedJump }

/-- Popping operands does not touch the control state. -/
@[simp] theorem control_popped (m : Machine) (n : Nat) : (m.popped n).control = m.control := rfl

/-- What a machine that performs plain instructions looks like: it executes and records
nothing. -/
structure Performs (m : Machine) : Prop where
  /-- The current branch executes. -/
  isExecuting : m.isExecuting = true
  /-- No definition is open. -/
  recording : m.recording = none

variable {sequence : Array Instruction} {index : Nat} {ins : Instruction} {m m' : Machine}

/-- A plain instruction that is performed can only ask for a jump. -/
theorem control_of_dispatch_ok (hm : m.Performs) (hplain : ins.IsPlain) {effect : Effect}
    (h : dispatch sequence index ins m = .ok effect m') :
    m'.control = { m.control with requestedJump := m'.requestedJump } := by
  have hrule := dispatched_of_eq h
  obtain ⟨hexec, hrec⟩ := hm
  cases hrule with
  | executed hkind hexec hrec hrun => rfl
  | callNothing hops hexec hrec hn => rfl
  | called hops hexec hrec hn hget hdepth => rfl
  | opened hkind hvalues hinsert => exact absurd hkind (hplain.kind_ne_opening _)
  | _ => simp_all [Instruction.IsPlain]

/-- A plain instruction that fails when it is performed leaves the control state as it
was. -/
theorem control_of_dispatch_error (hm : m.Performs) (hplain : ins.IsPlain) {fault : Fault}
    (h : dispatch sequence index ins m = .error fault m') : m'.control = m.control := by
  have hrule := dispatched_of_eq h
  obtain ⟨hexec, hrec⟩ := hm
  cases hrule with
  | executionFailed hkind hexec hrec hrun =>
      simp [control, Operation.requestedJump_of_error hrun]
  | openFailed hkind hvalues hinsert => exact absurd hkind (hplain.kind_ne_opening _)
  | openUnderflow hkind hvalues => rfl
  | callUnderflow hkind hexec hrec hvalues hn => rfl
  | callUndefined hops hexec hrec hn hget => rfl
  | callTooDeep hops hexec hrec hn hget hdepth => rfl
  | _ => simp_all [Instruction.IsPlain]

/-- An instruction that fails asks for no jump. -/
theorem requestedJump_of_dispatch_error {fault : Fault}
    (h : dispatch sequence index ins m = .error fault m') :
    m'.requestedJump = m.requestedJump := by
  have hrule := dispatched_of_eq h
  cases hrule with
  | executionFailed hkind hexec hrec hrun => exact Operation.requestedJump_of_error hrun
  | _ => rfl

/-- An instruction that succeeds keeps the jump that is asked for, or it is an operation that
asks for one. -/
theorem requestedJump_of_dispatch_ok {effect : Effect}
    (h : dispatch sequence index ins m = .ok effect m') :
    m'.requestedJump = m.requestedJump ∨ ins.kind = .generic ∧ ∃ w,
      ins.execute { font := m.font, sequence, index } m.toWorkspace = .ok () w ∧
        m'.requestedJump = w.requestedJump := by
  have hregistry (m : Machine) (kind : DefinitionKind) (r : Registry) :
      (m.withRegistry kind r).requestedJump = m.requestedJump := by
    cases kind <;> rfl
  have hrule := dispatched_of_eq h
  cases hrule with
  | executed hkind hexec hrec hrun => exact .inr ⟨hkind, _, hrun, rfl⟩
  | recorded hplain hexec hrec hrecord => exact .inl (hregistry _ _ _)
  | opened hkind hvalues hinsert => exact .inl (hregistry _ _ _)
  | closed hkind hrec hclose => exact .inl (hregistry _ _ _)
  | _ => exact .inl rfl

theorem clear_eq (h : m.requestedJump = 0) : ({ m with requestedJump := 0 } : Machine) = m := by
  rw [← h]

/-- Once its request is cleared, an instruction that could only ask for a jump has changed
nothing. -/
theorem control_clear (h : m'.control = { m.control with requestedJump := m'.requestedJump })
    (hjump : m.requestedJump = 0) :
    ({ m' with requestedJump := 0 } : Machine).control = m.control := by
  calc
    ({ m' with requestedJump := 0 } : Machine).control =
        { m'.control with requestedJump := 0 } := rfl
    _ = { m.control with requestedJump := 0 } := by rw [h]
    _ = m.control := by rw [← hjump]; rfl

/-- Going into a call is counted. -/
theorem control_deeper {c : Control} {n : Nat}
    (h : m.control = { c with callDepth := c.callDepth + n }) :
    ({ m with callDepth := m.callDepth + 1 } : Machine).control =
      { c with callDepth := c.callDepth + (n + 1) } := by
  have hdepth : m.callDepth = c.callDepth + n := congrArg Control.callDepth h
  calc
    ({ m with callDepth := m.callDepth + 1 } : Machine).control =
        { m.control with callDepth := m.callDepth + 1 } := rfl
    _ = { c with callDepth := m.callDepth + 1 } := by rw [h]
    _ = { c with callDepth := c.callDepth + (n + 1) } := by rw [hdepth, Nat.add_assoc]

/-- Coming back from a call undoes the count. -/
theorem control_shallower {c : Control} {n : Nat}
    (h : m.control = { c with callDepth := c.callDepth + (n + 1) })
    (hjump : m.requestedJump = 0) :
    ({ m with callDepth := m.callDepth - 1, requestedJump := 0 } : Machine).control =
      { c with callDepth := c.callDepth + n } := by
  have hdepth : m.callDepth = c.callDepth + (n + 1) := congrArg Control.callDepth h
  have hrequest : c.requestedJump = 0 := (congrArg Control.requestedJump h).symm.trans hjump
  calc
    ({ m with callDepth := m.callDepth - 1, requestedJump := 0 } : Machine).control =
        { m.control with callDepth := m.callDepth - 1, requestedJump := 0 } := rfl
    _ = { c with callDepth := m.callDepth - 1, requestedJump := 0 } := by rw [h]
    _ = { c with callDepth := c.callDepth + n } := by
      rw [hdepth, ← hrequest]
      rfl

end Machine

end GridFit
