import GridFit.Proofs.Machine.Control
import GridFit.Proofs.Operation.Memory
import GridFit.Proofs.Operation.Room
import GridFit.Proofs.Registry
import GridFit.Proofs.Run.Reachable

/-!
# Resources and dispatch

What instructions do to the workspace of a machine, as far as the sizes of its parts are
concerned. Only operations work on it, and everything else pops operands at most. So what
operations keep and pops keep, a machine keeps, and nothing but an operation that leaves more
values than it takes runs out of room.
-/

namespace GridFit

namespace Workspace

/-- A workspace with a stack within its limit, memories of the given sizes and a small loop
counter. -/
structure InBounds (cells controls : Nat) (w : Workspace) : Prop where
  /-- The stack is no deeper than its limit. -/
  stack : w.stack.hasRoom 0 = true
  /-- The storage area has so many cells. -/
  storage : w.storage.values.size = cells
  /-- There are so many control values. -/
  cvt : w.cvt.values.size = controls
  /-- The loop counter needs no more than 16 bits. -/
  loopCounter : w.graphics.loopCounter ≤ 0xFFFF

namespace InBounds

variable {cells controls : Nat} {w : Workspace}

/-- Values that are popped leave room. -/
theorem popped (h : w.InBounds cells controls) (n : Nat) :
    (w.popped n).InBounds cells controls where
  stack := by
    rw [OperandStack.hasRoom_iff]
    intro max hmax
    have hle := OperandStack.hasRoom_iff.1 h.stack max hmax
    rw [values_popped, List.length_drop]
    omega
  storage := h.storage
  cvt := h.cvt
  loopCounter := h.loopCounter

/-- Operations stay in bounds, also where they fail. -/
theorem execute (h : w.InBounds cells controls) (site : Site) (ins : Instruction) :
    (finalState (ins.execute site w)).InBounds cells controls where
  stack := by
    have hfits := ins.opcode.operation.fits_execute site ins w h.stack
    unfold Instruction.execute
    cases hr : ins.opcode.operation.execute site ins w with
    | ok _ w' =>
        rw [hr] at hfits
        exact hfits
    | error fault w' =>
        rw [hr] at hfits
        exact hfits.2
  storage := (ins.size_cells_execute site w .storage).trans h.storage
  cvt := (ins.size_cells_execute site w .cvt).trans h.cvt
  loopCounter := ins.opcode.operation.loopCounter_execute_le site ins h.loopCounter

end InBounds

end Workspace

namespace Machine

variable {sequence : Array Instruction} {index : Nat} {ins : Instruction} {m : Machine}

theorem toWorkspace_withRegistry (m : Machine) (kind : DefinitionKind) (r : Registry) :
    (m.withRegistry kind r).toWorkspace = m.toWorkspace := by
  cases kind <;> rfl

/-- Only operations that are performed work on the workspace. Whatever else an instruction
does, it pops operands at most. -/
theorem workspace_of_dispatched {result : EStateM.Result Fault Machine Effect}
    (hrule : Dispatched sequence index ins m result) :
    (∃ n, (finalState result).toWorkspace = m.toWorkspace.popped n) ∨
      ins.kind = .generic ∧ m.Performs ∧ (finalState result).toWorkspace =
        finalState (ins.execute { font := m.font, sequence, index } m.toWorkspace) := by
  have hnone : m.toWorkspace = m.toWorkspace.popped 0 := congrArg toWorkspace (popped_zero m).symm
  cases hrule with
  | executed hkind hexec hrec hrun =>
      refine .inr ⟨hkind, ⟨hexec, hrec⟩, ?_⟩
      rw [hrun]
      rfl
  | executionFailed hkind hexec hrec hrun =>
      refine .inr ⟨hkind, ⟨hexec, hrec⟩, ?_⟩
      rw [hrun]
      rfl
  | recorded hplain hexec hrec hrecord =>
      exact .inl ⟨0, (toWorkspace_withRegistry ..).trans hnone⟩
  | opened hkind hvalues hinsert => exact .inl ⟨1, toWorkspace_withRegistry ..⟩
  | closed hkind hrec hclose => exact .inl ⟨0, (toWorkspace_withRegistry ..).trans hnone⟩
  | callUnderflow hkind hexec hrec hvalues hn => exact .inl ⟨_, rfl⟩
  | callNothing hops hexec hrec hn => exact .inl ⟨_, rfl⟩
  | callUndefined hops hexec hrec hn hget => exact .inl ⟨_, rfl⟩
  | callTooDeep hops hexec hrec hn hget hdepth => exact .inl ⟨_, rfl⟩
  | called hops hexec hrec hn hget hdepth => exact .inl ⟨_, rfl⟩
  | ifOpened hkind hexec hvalues => exact .inl ⟨1, rfl⟩
  | openFailed hkind hvalues hinsert => exact .inl ⟨1, rfl⟩
  | _ => exact .inl ⟨0, hnone⟩

/-- An operation that is performed is executed on the workspace. -/
theorem dispatch_of_performs (hm : m.Performs) (hkind : ins.kind = .generic) :
    dispatch sequence index ins m =
      match ins.execute { font := m.font, sequence, index } m.toWorkspace with
      | .ok _ w => .ok { events := reportOf ins m } { m with toWorkspace := w }
      | .error fault w => .error fault { m with toWorkspace := w } := by
  simp only [dispatch, hkind, unlessPassive_active hm.isExecuting hm.recording, executeGeneric,
    bind_apply, get_apply, onWorkspace]
  cases ins.execute { font := m.font, sequence, index } m.toWorkspace <;> rfl

/-- By no other rule is an operation carried out that is performed. -/
theorem execute_of_dispatched_ok (hm : m.Performs) (hkind : ins.kind = .generic)
    {effect : Effect} {m' : Machine}
    (hrule : Dispatched sequence index ins m (.ok effect m')) :
    ∃ w, ins.execute { font := m.font, sequence, index } m.toWorkspace = .ok () w ∧
      m' = { m with toWorkspace := w } := by
  obtain ⟨hexec, hrec⟩ := hm
  cases hrule with
  | executed hkind hexec hrec hrun => exact ⟨_, hrun, rfl⟩
  | callNothing hops hexec hrec hn => rcases hops.isCall with hcall | hcall <;> simp_all
  | called hops hexec hrec hn hget hdepth => rcases hops.isCall with hcall | hcall <;> simp_all
  | @opened kind key rest r hopening hvalues hinsert =>
      exact absurd hopening (Instruction.IsPlain.kind_ne_opening (.inl hkind) kind)
  | _ => simp_all

/-- What operations and pops keep of a workspace, a machine keeps. -/
theorem invariant_of_workspace {P : Workspace → Prop} (hpopped : ∀ w n, P w → P (w.popped n))
    (hexecute : ∀ site (ins : Instruction) w, P w → P (finalState (ins.execute site w)))
    (hjump : ∀ w jump, P w → P { w with requestedJump := jump }) :
    Invariant fun m => P m.toWorkspace where
  dispatched h hrule := by
    rcases workspace_of_dispatched hrule with ⟨n, hw⟩ | ⟨-, -, hw⟩
    · rw [hw]
      exact hpopped _ n h
    · rw [hw]
      exact hexecute _ _ _ h
  requestedJump jump h := hjump _ jump h
  callDepth _ h := h

/-- No rule of dispatch leads out of bounds. -/
theorem invariant_inBounds (cells controls : Nat) :
    Invariant fun m => m.toWorkspace.InBounds cells controls :=
  invariant_of_workspace (fun _ n h => h.popped n) (fun site ins _ h => h.execute site ins)
    fun _ _ h => ⟨h.stack, h.storage, h.cvt, h.loopCounter⟩

/-- Fresh machines are in the bounds of their options. -/
theorem inBounds_ofOptions (o : Options) :
    (ofOptions o).toWorkspace.InBounds o.storageSize o.cvt.length where
  stack := OperandStack.hasRoom_iff.2 fun _ _ => Nat.zero_le _
  storage := Array.size_replicate
  cvt := List.size_toArray
  loopCounter := show 1 ≤ 0xFFFF by decide

/-- No rule of dispatch takes a registry beyond its limit. -/
theorem invariant_isWithinLimit :
    Invariant fun m => ∀ kind, (m.registry kind).IsWithinLimit where
  requestedJump _ h := h
  callDepth _ h := h
  dispatched := by
    intro sequence index ins m result h hrule
    cases hrule with
    | recorded hplain hexec hrec hrecord => exact forall_withRegistry h ((h _).record hrecord)
    | opened hkind hvalues hinsert => exact forall_withRegistry h ((h _).insert hinsert)
    | closed hkind hrec hclose => exact forall_withRegistry h ((h _).close hclose)
    | _ => exact h

theorem isWithinLimit_ofOptions (o : Options) (kind : DefinitionKind) :
    ((ofOptions o).registry kind).IsWithinLimit := by
  cases kind <;> exact .empty _

/-- Only an operation that leaves more values than it takes runs out of room. -/
theorem pops_lt_of_stackOverflow (hroom : m.stack.hasRoom 0 = true) {m' : Machine}
    (hrule : Dispatched sequence index ins m (.error .stackOverflow m')) :
    ins.opcode.stackEffect.pops < ins.pushCount m.font := by
  generalize hfault : Fault.stackOverflow = fault at hrule
  cases hrule with
  | executionFailed hkind hexec hrec hrun =>
      subst hfault
      have hfits := ins.opcode.operation.fits_execute { font := m.font, sequence, index } ins
        m.toWorkspace hroom
      rw [Instruction.execute] at hrun
      rw [hrun, Instruction.stackEffect_operation m.font] at hfits
      exact hfits.1 rfl
  | recordFailed hplain hexec hrec hrecord =>
      rw [Registry.eq_of_record_error hrecord] at hfault
      cases hfault
  | callUndefined hops hexec hrec hn hget =>
      rw [Registry.eq_of_get_error hget] at hfault
      cases hfault
  | openFailed hkind hvalues hinsert =>
      rw [Registry.eq_of_insert_error hinsert] at hfault
      cases hfault
  | closeFailed hkind hrec hclose =>
      rw [Registry.eq_of_close_error hclose] at hfault
      cases hfault
  | _ => cases hfault

end Machine

namespace Run

variable {r : Run} {ins : Instruction} {w : Workspace}

/-- An operation that is performed and succeeds takes a run one step on. -/
theorem step_of_execute_ok (hins : r.current? = some ins) {budget : Nat}
    (hbudget : r.budget = budget + 1) (hm : r.machine.Performs) (hkind : ins.kind = .generic)
    (hrun : ins.execute
      { font := r.machine.font, sequence := r.position.sequence, index := r.position.index }
      r.machine.toWorkspace = .ok () w) :
    r.step = .running
      (((r.charged ins budget).carriedOut { r.machine with toWorkspace := w }
        (Machine.reportOf ins r.machine)).advance r.position) := by
  have hdispatch : Machine.dispatch r.position.sequence r.position.index ins r.machine =
      .ok { events := Machine.reportOf ins r.machine } { r.machine with toWorkspace := w } := by
    rw [Machine.dispatch_of_performs hm hkind, hrun]
  exact (Stepped.advanced hins hbudget hdispatch rfl).step_eq

/-- An operation that is performed and fails ends a run. -/
theorem failsBy_of_execute_error (hins : r.current? = some ins) (hbudget : 0 < r.budget)
    (hm : r.machine.Performs) (hkind : ins.kind = .generic) {fault : Fault}
    (hrun : ins.execute
      { font := r.machine.font, sequence := r.position.sequence, index := r.position.index }
      r.machine.toWorkspace = .error fault w) :
    r.FailsBy fault := by
  rw [failsBy_iff hins hbudget, Machine.dispatch_of_performs hm hkind, hrun]
  exact ⟨_, rfl⟩

end Run

end GridFit
