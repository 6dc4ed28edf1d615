import GridFit.Machine.Effect
import GridFit.Proofs.Computation

/-!
# The rules of dispatch

`Machine.Dispatched` lists what carrying out an instruction needs and what it leads to,
with a rule for every outcome. Whatever is proved of all that a machine does is proved
of these rules, and the definitions behind them are only unfolded here.
-/

namespace GridFit

/-- An instruction that a definition can record: it neither branches nor defines. -/
def Instruction.IsPlain (ins : Instruction) : Prop :=
  ins.kind = .generic ∨ ins.kind = .call ∨ ins.kind = .loopCall

/-- The kind of the instructions that open a definition of a family. -/
def DefinitionKind.opening : DefinitionKind → Kind
  | function => .functionDef
  | instruction => .instructionDef

/-- Nothing that opens a definition is plain. -/
theorem Instruction.IsPlain.kind_ne_opening {ins : Instruction} (h : ins.IsPlain)
    (kind : DefinitionKind) : ins.kind ≠ kind.opening := by
  rcases h with h | h | h <;> cases kind <;> simp [h, DefinitionKind.opening]

/-- An instruction that is plain and does not jump. -/
structure Instruction.IsStraight (ins : Instruction) : Prop where
  /-- It neither branches nor defines. -/
  isPlain : ins.IsPlain
  /-- It does not jump. -/
  not_jump : ins.opcode ∉ [Opcode.jmpr, Opcode.jrot, Opcode.jrof]

/-- Calls do not jump. -/
theorem Instruction.IsStraight.of_call {ins : Instruction}
    (h : ins.kind = .call ∨ ins.kind = .loopCall) : ins.IsStraight where
  isPlain := .inr h
  not_jump hmem := by
    have hkind : ins.kind = ins.opcode.kind := rfl
    simp only [List.mem_cons, List.not_mem_nil, or_false] at hmem
    rcases hmem with hop | hop | hop <;> simp [hkind, hop, Opcode.kind] at h

namespace Machine

/-- The machine without the topmost `n` operands. -/
def popped (m : Machine) (n : Nat) : Machine :=
  { m with stack := m.stack.drop n }

/-- The function, the count and the number of operands of a call. -/
inductive CallOperands (m : Machine) : Kind → Value → Value → Nat → Prop
  /-- A call names a function and happens once. -/
  | once {f rest} (h : m.stack.values = f :: rest) : CallOperands m .call f 1 1
  /-- A repeated call names a function and says how often it happens. -/
  | counted {f n rest} (h : m.stack.values = f :: n :: rest) : CallOperands m .loopCall f n 2

/-- What takes the operands of a call is a call. -/
theorem CallOperands.isCall {m : Machine} {kind : Kind} {f n : Value} {k : Nat}
    (h : m.CallOperands kind f n k) : kind = .call ∨ kind = .loopCall := by
  cases h with
  | once h => exact .inl rfl
  | counted h => exact .inr rfl

/-- What carrying out an instruction at a position of a sequence leads to. -/
inductive Dispatched (sequence : Array Instruction) (index : Nat) (ins : Instruction)
    (m : Machine) : EStateM.Result Fault Machine Effect → Prop
  | skipped (hplain : ins.IsPlain) (hexec : m.isExecuting = false) :
      Dispatched sequence index ins m (.ok {} m)
  | recorded {name r} (hplain : ins.IsPlain) (hexec : m.isExecuting = true)
      (hrec : m.recording = some name)
      (hrecord : (m.registry name.kind).record name.key ins = .ok r) :
      Dispatched sequence index ins m (.ok {} (m.withRegistry name.kind r))
  | recordFailed {name fault} (hplain : ins.IsPlain) (hexec : m.isExecuting = true)
      (hrec : m.recording = some name)
      (hrecord : (m.registry name.kind).record name.key ins = .error fault) :
      Dispatched sequence index ins m (.error fault m)
  | executed {w} (hkind : ins.kind = .generic) (hexec : m.isExecuting = true)
      (hrec : m.recording = none)
      (hrun : ins.execute { font := m.font, sequence, index } m.toWorkspace = .ok () w) :
      Dispatched sequence index ins m
        (.ok { events := reportOf ins m } { m with toWorkspace := w })
  | executionFailed {fault w} (hkind : ins.kind = .generic) (hexec : m.isExecuting = true)
      (hrec : m.recording = none)
      (hrun : ins.execute { font := m.font, sequence, index } m.toWorkspace =
        .error fault w) :
      Dispatched sequence index ins m (.error fault { m with toWorkspace := w })
  | callUnderflow {n} (hkind : ins.kind = .call ∨ ins.kind = .loopCall)
      (hexec : m.isExecuting = true) (hrec : m.recording = none)
      (hvalues : m.stack.values.length = n) (hn : n = 0 ∨ n = 1 ∧ ins.kind = .loopCall) :
      Dispatched sequence index ins m (.error .stackUnderflow (m.popped n))
  | callNothing {f n k} (hops : m.CallOperands ins.kind f n k) (hexec : m.isExecuting = true)
      (hrec : m.recording = none) (hn : n ≤ 0) :
      Dispatched sequence index ins m (.ok {} (m.popped k))
  | callUndefined {f n k fault} (hops : m.CallOperands ins.kind f n k)
      (hexec : m.isExecuting = true) (hrec : m.recording = none) (hn : ¬n ≤ 0)
      (hget : m.functions.get f = .error fault) :
      Dispatched sequence index ins m (.error fault (m.popped k))
  | callTooDeep {f n k d} (hops : m.CallOperands ins.kind f n k)
      (hexec : m.isExecuting = true) (hrec : m.recording = none) (hn : ¬n ≤ 0)
      (hget : m.functions.get f = .ok d) (hdepth : m.callLimit ≤ m.callDepth) :
      Dispatched sequence index ins m (.error .callStackOverflow (m.popped k))
  | called {f n k d} (hops : m.CallOperands ins.kind f n k) (hexec : m.isExecuting = true)
      (hrec : m.recording = none) (hn : ¬n ≤ 0) (hget : m.functions.get f = .ok d)
      (hdepth : m.callDepth < m.callLimit) :
      Dispatched sequence index ins m
        (.ok
          { events := [.calling f n m.callDepth], replay := some (d.body, n.toInt.toNat) }
          (m.popped k))
  | ifCounted (hkind : ins.kind = .ifTest) (hexec : m.isExecuting = false) :
      Dispatched sequence index ins m (.ok {} { m with skippedIfs := m.skippedIfs + 1 })
  | ifOpened {e rest} (hkind : ins.kind = .ifTest) (hexec : m.isExecuting = true)
      (hvalues : m.stack.values = e :: rest) :
      Dispatched sequence index ins m
        (.ok {} { m.popped 1 with branches := (e != 0) :: m.branches })
  | ifUnderflow (hkind : ins.kind = .ifTest) (hexec : m.isExecuting = true)
      (hvalues : m.stack.values = []) :
      Dispatched sequence index ins m (.error .stackUnderflow m)
  | elseTurned {innermost rest} (hkind : ins.kind = .elseMark)
      (hbranches : m.branches = innermost :: rest) :
      Dispatched sequence index ins m (.ok {} { m with branches := (!innermost) :: rest })
  | elseUnmatched (hkind : ins.kind = .elseMark) (hbranches : m.branches = []) :
      Dispatched sequence index ins m (.error (.unmatched .elseMark) m)
  | endIfCounted {depth} (hkind : ins.kind = .endIf) (hskipped : m.skippedIfs = depth + 1) :
      Dispatched sequence index ins m (.ok {} { m with skippedIfs := depth })
  | endIfClosed {innermost rest} (hkind : ins.kind = .endIf) (hskipped : m.skippedIfs = 0)
      (hbranches : m.branches = innermost :: rest) :
      Dispatched sequence index ins m (.ok {} { m with branches := rest })
  | endIfUnmatched (hkind : ins.kind = .endIf) (hskipped : m.skippedIfs = 0)
      (hbranches : m.branches = []) :
      Dispatched sequence index ins m (.error (.unmatched .endIf) m)
  | opened {kind key rest r} (hkind : ins.kind = kind.opening)
      (hvalues : m.stack.values = key :: rest) (hinsert : (m.registry kind).insert key = .ok r) :
      Dispatched sequence index ins m
        (.ok
          { events := (m.recording.map Event.leftOpen).toList ++ [.opened { kind, key }] }
          { (m.popped 1).withRegistry kind r with recording := some { kind, key } })
  | openUnderflow {kind} (hkind : ins.kind = DefinitionKind.opening kind)
      (hvalues : m.stack.values = []) :
      Dispatched sequence index ins m (.error .stackUnderflow m)
  | openFailed {kind key rest fault} (hkind : ins.kind = DefinitionKind.opening kind)
      (hvalues : m.stack.values = key :: rest)
      (hinsert : (m.registry kind).insert key = .error fault) :
      Dispatched sequence index ins m (.error fault (m.popped 1))
  | closed {name r} (hkind : ins.kind = .endDef) (hrec : m.recording = some name)
      (hclose : (m.registry name.kind).close name.key = .ok r) :
      Dispatched sequence index ins m
        (.ok { events := [.closed name] }
          { m.withRegistry name.kind r with recording := none })
  | closeFailed {name fault} (hkind : ins.kind = .endDef) (hrec : m.recording = some name)
      (hclose : (m.registry name.kind).close name.key = .error fault) :
      Dispatched sequence index ins m (.error fault { m with recording := none })
  | closeUnmatched (hkind : ins.kind = .endDef) (hrec : m.recording = none) :
      Dispatched sequence index ins m (.error (.unmatched .endDef) m)

/-! ## Registries -/

theorem registry_withRegistry (m : Machine) (kind other : DefinitionKind) (r : Registry) :
    (m.withRegistry kind r).registry other = if other = kind then r else m.registry other := by
  cases kind <;> cases other <;> rfl

theorem registry_recording (m : Machine) (recording : Option DefinitionName)
    (kind : DefinitionKind) : ({ m with recording } : Machine).registry kind = m.registry kind := by
  cases kind <;> rfl

theorem recording_withRegistry (m : Machine) (kind : DefinitionKind) (r : Registry) :
    (m.withRegistry kind r).recording = m.recording := by
  cases kind <;> rfl

theorem budget_withRegistry (m : Machine) (kind : DefinitionKind) (r : Registry) :
    (m.withRegistry kind r).budget = m.budget := by
  cases kind <;> rfl

/-- Changing one registry keeps what holds of all registries, if it holds of the new
one. -/
theorem forall_withRegistry {P : Registry → Prop} {m : Machine} {kind : DefinitionKind}
    {r : Registry} (h : ∀ other, P (m.registry other)) (hr : P r) (other : DefinitionKind) :
    P ((m.withRegistry kind r).registry other) := by
  rw [registry_withRegistry]
  split
  · exact hr
  · exact h other

/-! ## Every outcome has a rule -/

section Outcomes

variable {sequence : Array Instruction} {index : Nat} {ins : Instruction} {m : Machine}

theorem pop_nil (h : m.stack.values = []) : pop m = .error .stackUnderflow m := by
  simp [pop, onWorkspace, Workspace.onStack, OperandStack.pop, OperandStack.top?, h]

theorem pop_cons {v : Value} {rest : List Value} (h : m.stack.values = v :: rest) :
    pop m = .ok v (m.popped 1) := by
  simp [pop, onWorkspace, Workspace.onStack, OperandStack.pop, OperandStack.top?, h, popped]

@[simp] theorem popped_zero (m : Machine) : m.popped 0 = m := by
  simp [popped, OperandStack.drop]

@[simp] theorem popped_popped (m : Machine) (n k : Nat) :
    (m.popped n).popped k = m.popped (n + k) := by
  simp [popped, OperandStack.drop, Nat.sub_sub, List.drop_drop]

theorem unlessPassive_skipped {perform : MachineM Effect} (hexec : m.isExecuting = false) :
    unlessPassive ins perform m = .ok {} m := by
  simp [unlessPassive, bind_apply, hexec]

theorem unlessPassive_recording {perform : MachineM Effect} {name : DefinitionName}
    (hexec : m.isExecuting = true) (hrec : m.recording = some name) :
    unlessPassive ins perform m =
      match (m.registry name.kind).record name.key ins with
      | .ok r => .ok {} (m.withRegistry name.kind r)
      | .error fault => .error fault m := by
  simp only [unlessPassive, bind_apply, get_apply, hexec, hrec, updateRegistry, if_true]
  cases (m.registry name.kind).record name.key ins <;> rfl

theorem unlessPassive_active {perform : MachineM Effect} (hexec : m.isExecuting = true)
    (hrec : m.recording = none) : unlessPassive ins perform m = perform m := by
  simp [unlessPassive, bind_apply, hexec, hrec]

/-- A plain instruction is skipped, recorded or performed. -/
theorem dispatched_unlessPassive {perform : MachineM Effect} (hplain : ins.IsPlain)
    (hperform : m.isExecuting = true → m.recording = none →
      Dispatched sequence index ins m (perform m)) :
    Dispatched sequence index ins m (unlessPassive ins perform m) := by
  cases hexec : m.isExecuting with
  | false =>
      rw [unlessPassive_skipped hexec]
      exact .skipped hplain hexec
  | true =>
      cases hrec : m.recording with
      | none =>
          rw [unlessPassive_active hexec hrec]
          exact hperform hexec hrec
      | some name =>
          rw [unlessPassive_recording hexec hrec]
          cases hrecord : (m.registry name.kind).record name.key ins with
          | ok r => exact .recorded hplain hexec hrec hrecord
          | error fault => exact .recordFailed hplain hexec hrec hrecord

theorem dispatched_executeGeneric (hkind : ins.kind = .generic) (hexec : m.isExecuting = true)
    (hrec : m.recording = none) :
    Dispatched sequence index ins m (executeGeneric sequence index ins m) := by
  simp only [executeGeneric, bind_apply, get_apply, onWorkspace]
  cases hrun : ins.execute { font := m.font, sequence, index } m.toWorkspace with
  | ok _ w => exact .executed hkind hexec hrec hrun
  | error fault w => exact .executionFailed hkind hexec hrec hrun

theorem dispatched_enter {f n : Value} {k : Nat} (hops : m.CallOperands ins.kind f n k)
    (hexec : m.isExecuting = true) (hrec : m.recording = none) :
    Dispatched sequence index ins m (enter f n (m.popped k)) := by
  by_cases hn : n ≤ 0
  · simp only [enter, hn, if_true]
    exact .callNothing hops hexec hrec hn
  · simp only [enter, hn, if_false, bind_apply, get_apply]
    cases hget : m.functions.get f with
    | error fault =>
        have hget' : (m.popped k).functions.get f = .error fault := hget
        simp only [hget', attempt_error]
        exact .callUndefined hops hexec hrec hn hget
    | ok d =>
        have hget' : (m.popped k).functions.get f = .ok d := hget
        simp only [hget', attempt_ok]
        split
        · next hdepth => exact .callTooDeep hops hexec hrec hn hget hdepth
        · next hdepth => exact .called hops hexec hrec hn hget (Nat.lt_of_not_le hdepth)

theorem dispatched_call (hkind : ins.kind = .call) (hexec : m.isExecuting = true)
    (hrec : m.recording = none) : Dispatched sequence index ins m (call m) := by
  simp only [call, bind_apply]
  cases hvalues : m.stack.values with
  | nil =>
      rw [pop_nil hvalues, ← popped_zero m]
      exact .callUnderflow (.inl hkind) hexec hrec (by simp [hvalues]) (.inl rfl)
  | cons f rest =>
      rw [pop_cons hvalues]
      exact dispatched_enter (hkind ▸ .once hvalues) hexec hrec

theorem dispatched_loopCall (hkind : ins.kind = .loopCall) (hexec : m.isExecuting = true)
    (hrec : m.recording = none) : Dispatched sequence index ins m (loopCall m) := by
  simp only [loopCall, bind_apply]
  cases hvalues : m.stack.values with
  | nil =>
      rw [pop_nil hvalues, ← popped_zero m]
      exact .callUnderflow (.inr hkind) hexec hrec (by simp [hvalues]) (.inl rfl)
  | cons f rest =>
      rw [pop_cons hvalues]
      have hpopped : (m.popped 1).stack.values = rest := by
        simp [popped, OperandStack.drop, hvalues]
      cases rest with
      | nil =>
          simp only [pop_nil hpopped]
          exact .callUnderflow (.inr hkind) hexec hrec (by simp [hvalues]) (.inr ⟨rfl, hkind⟩)
      | cons n rest =>
          simp only [pop_cons hpopped, popped_popped]
          exact dispatched_enter (hkind ▸ .counted hvalues) hexec hrec

theorem dispatched_beginIf (hkind : ins.kind = .ifTest) :
    Dispatched sequence index ins m (beginIf m) := by
  simp only [beginIf, bind_apply, get_apply]
  cases hexec : m.isExecuting with
  | false => exact .ifCounted hkind hexec
  | true =>
      simp only [if_true, bind_apply]
      cases hvalues : m.stack.values with
      | nil =>
          simp only [pop_nil hvalues]
          exact .ifUnderflow hkind hexec hvalues
      | cons e rest =>
          simp only [pop_cons hvalues]
          exact .ifOpened hkind hexec hvalues

theorem dispatched_turnElse (hkind : ins.kind = .elseMark) :
    Dispatched sequence index ins m (turnElse m) := by
  unfold turnElse
  split
  · next hbranches => exact .elseUnmatched hkind hbranches
  · next innermost rest hbranches => exact .elseTurned hkind hbranches

theorem dispatched_finishIf (hkind : ins.kind = .endIf) :
    Dispatched sequence index ins m (finishIf m) := by
  unfold finishIf
  split
  · next depth hskipped => exact .endIfCounted hkind hskipped
  · next innermost rest hskipped hbranches => exact .endIfClosed hkind hskipped hbranches
  · next hskipped hbranches => exact .endIfUnmatched hkind hskipped hbranches

theorem dispatched_beginDefinition {kind : DefinitionKind} (hkind : ins.kind = kind.opening) :
    Dispatched sequence index ins m (beginDefinition kind m) := by
  simp only [beginDefinition, bind_apply]
  cases hvalues : m.stack.values with
  | nil =>
      simp only [pop_nil hvalues]
      exact .openUnderflow hkind hvalues
  | cons key rest =>
      have hregistry : (m.popped 1).registry kind = m.registry kind := by cases kind <;> rfl
      simp only [pop_cons hvalues, updateRegistry, hregistry]
      cases hinsert : (m.registry kind).insert key with
      | error fault => exact .openFailed hkind hvalues hinsert
      | ok r =>
          have hrecording : ((m.popped 1).withRegistry kind r).recording = m.recording :=
            recording_withRegistry _ _ _
          simp only [get_apply, modify_apply, pure_apply, hrecording]
          exact .opened hkind hvalues hinsert

theorem dispatched_finishDefinition (hkind : ins.kind = .endDef) :
    Dispatched sequence index ins m (finishDefinition m) := by
  simp only [finishDefinition, bind_apply, get_apply]
  cases hrec : m.recording with
  | none => exact .closeUnmatched hkind hrec
  | some name =>
      simp only [bind_apply, modify_apply, updateRegistry, registry_recording]
      cases hclose : (m.registry name.kind).close name.key with
      | error fault => exact .closeFailed hkind hrec hclose
      | ok r =>
          have hmachine : ({ m with recording := none } : Machine).withRegistry name.kind r =
              { m.withRegistry name.kind r with recording := none } := by
            cases name.kind <;> rfl
          simp only [pure_apply, hmachine]
          exact .closed hkind hrec hclose

/-- Every outcome of an instruction is that of one of the rules. -/
theorem dispatched (sequence : Array Instruction) (index : Nat) (ins : Instruction)
    (m : Machine) : Dispatched sequence index ins m (dispatch sequence index ins m) := by
  unfold dispatch
  cases hkind : ins.kind with
  | generic => exact dispatched_unlessPassive (.inl hkind) (dispatched_executeGeneric hkind)
  | ifTest => exact dispatched_beginIf hkind
  | elseMark => exact dispatched_turnElse hkind
  | endIf => exact dispatched_finishIf hkind
  | functionDef => exact dispatched_beginDefinition hkind
  | instructionDef => exact dispatched_beginDefinition hkind
  | endDef => exact dispatched_finishDefinition hkind
  | call => exact dispatched_unlessPassive (.inr (.inl hkind)) (dispatched_call hkind)
  | loopCall => exact dispatched_unlessPassive (.inr (.inr hkind)) (dispatched_loopCall hkind)

theorem dispatched_of_eq {result : EStateM.Result Fault Machine Effect}
    (h : dispatch sequence index ins m = result) : Dispatched sequence index ins m result :=
  h ▸ dispatched sequence index ins m

/-- Only a call asks for a replay, and it changes nothing but the operands. -/
theorem called_of_replay {effect : Effect} {m' : Machine} {body : Array Instruction}
    {count : Nat} (h : dispatch sequence index ins m = .ok effect m')
    (hreplay : effect.replay = some (body, count)) :
    ∃ f n k d, m.CallOperands ins.kind f n k ∧ m.isExecuting = true ∧ m.recording = none ∧
      ¬n ≤ 0 ∧ m.functions.get f = .ok d ∧ m.callDepth < m.callLimit ∧ d.body = body ∧
      n.toInt.toNat = count ∧ m' = m.popped k := by
  have hrule := dispatched_of_eq h
  cases hrule with
  | called hops hexec hrec hn hget hdepth =>
      cases hreplay
      exact ⟨_, _, _, _, hops, hexec, hrec, hn, hget, hdepth, rfl, rfl, rfl⟩
  | _ => cases hreplay

end Outcomes

end Machine

end GridFit
