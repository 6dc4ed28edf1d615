import GridFit.Proofs.Operation.Memory
import GridFit.Proofs.Run.Resources
import GridFit.Proofs.Word

/-!
# Memories hold what was written last

A machine keeps its memories from one run to the next. At every moment of its life a location
holds the value that was written there last, inside of calls or outside and in whatever run,
or else its initial value. Code that is skipped or recorded writes nothing, and neither does
an instruction that fails.

## Implementation notes

What was written is read off the instructions that were carried out, without looking at any
memory: `Deed.written?` looks at the opcode and the operands only. A location beyond the end
of a memory does not occur among them, since an instruction that names one fails.
-/

namespace GridFit

/-- The initial contents of a memory. -/
def Options.cells (o : Options) : Area → List Value
  | .storage => List.replicate o.storageSize 0
  | .cvt => o.cvt

/-- The value that was written to a location of a memory by an instruction that was carried
out, if that wrote there. -/
def Deed.written? (scale : Value) (area : Area) (location : Nat) (deed : Deed) : Option Value :=
  if deed.before.isExecuting && deed.before.recording.isNone then
    deed.ins.opcode.written? scale deed.before.stack.values area location
  else none

/-- The value that was written last to a location of a memory. -/
def lastWritten (scale : Value) (area : Area) (location : Nat) (done : List Deed) :
    Option Value :=
  done.reverse.findSome? (Deed.written? scale area location)

/-- What a location of a memory holds after all that was carried out: the value that was
written last, or else the initial one. A memory without such a location holds nothing there. -/
def Options.held? (o : Options) (done : List Deed) (area : Area) (location : Nat) :
    Option Value :=
  (o.cells area)[location]?.map fun initial => (lastWritten o.scale area location done).getD initial

section Writes

variable {scale : Value} {area : Area} {location : Nat} {done : List Deed} {deed : Deed}
  {ins : Instruction} {m : Machine}

theorem lastWritten_concat : lastWritten scale area location (done ++ [deed]) =
    (deed.written? scale area location).or (lastWritten scale area location done) := by
  simp only [lastWritten, List.reverse_append, List.reverse_singleton, List.singleton_append,
    List.findSome?_cons]
  cases deed.written? scale area location <;> rfl

theorem getD_lastWritten_concat (initial : Value) :
    (lastWritten scale area location (done ++ [deed])).getD initial =
      (deed.written? scale area location).getD
        ((lastWritten scale area location done).getD initial) := by
  rw [lastWritten_concat]
  cases deed.written? scale area location <;> rfl

/-- Whatever writes is an operation. -/
theorem Opcode.kind_of_write? {op : Opcode} {write : Area × (Value → Value)}
    (h : op.write? scale = some write) : op.kind = .generic := by
  unfold write? at h
  split at h <;> first | rfl | cases h

/-- Nothing is written unless an operation is performed. -/
theorem Deed.written?_eq_none (h : deed.ins.kind = .generic → ¬deed.before.Performs) :
    deed.written? scale area location = none := by
  unfold written?
  split
  · next hperforms =>
      rw [Bool.and_eq_true, Option.isNone_iff_eq_none] at hperforms
      unfold Opcode.written?
      split
      · next hwrite _ =>
          exact absurd ⟨hperforms.1, hperforms.2⟩ (h (Opcode.kind_of_write? hwrite))
      · rfl
  · rfl

theorem Deed.written?_of_performs (h : deed.before.Performs) :
    deed.written? scale area location =
      deed.ins.opcode.written? scale deed.before.stack.values area location :=
  if_pos (by rw [h.isExecuting, h.recording]; rfl)

end Writes

namespace Machine

variable {sequence : Array Instruction} {index : Nat} {ins : Instruction} {m m' : Machine}

/-- After an instruction that was carried out, a location of a memory holds what the
instruction wrote there, or else what it held before. -/
theorem getElem?_cells_of_dispatched {effect : Effect}
    (hrule : Dispatched sequence index ins m (.ok effect m')) (area : Area) (location : Nat) :
    (m'.cells area).values[location]? = (m.cells area).values[location]?.map fun old =>
      (Deed.written? m.font.scale area location { ins, before := m }).getD old := by
  by_cases hperformed : ins.kind = .generic ∧ m.Performs
  · obtain ⟨hkind, hm⟩ := hperformed
    obtain ⟨w, hrun, rfl⟩ := execute_of_dispatched_ok hm hkind hrule
    have hwritten : Deed.written? m.font.scale area location { ins, before := m } =
        ins.opcode.written? m.font.scale m.stack.values area location :=
      Deed.written?_of_performs hm
    rw [hwritten]
    exact Instruction.getElem?_cells_of_execute_ok hrun area location
  · have hnothing : Deed.written? m.font.scale area location { ins, before := m } = none :=
      Deed.written?_eq_none fun hkind hperforms => hperformed ⟨hkind, hperforms⟩
    have hkept : m'.cells area = m.cells area := by
      rcases workspace_of_dispatched hrule with ⟨n, hw⟩ | ⟨hkind, hperforms, -⟩
      · exact (congrArg (fun w => w.cells area) hw).trans (Workspace.cells_popped ..)
      · exact absurd ⟨hkind, hperforms⟩ hperformed
    rw [hkept, hnothing]
    exact Option.map_id'.symm

/-- An instruction that fails writes nothing. -/
theorem cells_of_failed {fault : Fault}
    (hrule : Dispatched sequence index ins m (.error fault m')) (area : Area) :
    m'.cells area = m.cells area := by
  cases hrule with
  | executionFailed hkind hexec hrec hrun => exact Instruction.cells_of_execute_error hrun area
  | _ => cases area <;> rfl

/-- A machine whose memories hold what was written last. -/
structure Holds (o : Options) (done : List Deed) (m : Machine) : Prop where
  /-- The settings are those of the options. -/
  settings : m.settings = o.settings
  /-- Every location holds what was written there last. -/
  cells : ∀ area location, (m.cells area).values[location]? = o.held? done area location

/-- No instruction makes a memory hold anything but what was written last. -/
theorem invariant_holds (o : Options) : Deed.Invariant (Holds o) where
  done {done sequence index ins m effect m'} h hrule := by
    refine ⟨(invariant_settings o.settings).dispatched h.settings hrule, ?_⟩
    intro area location
    have hscale : m.font.scale = o.scale := congrArg (fun S => S.font.scale) h.settings
    rw [getElem?_cells_of_dispatched hrule, h.cells, hscale, Options.held?, Options.held?,
      Option.map_map]
    congr 1
    funext initial
    exact (getD_lastWritten_concat initial).symm
  failed {done sequence index ins m fault m'} h hrule := by
    refine ⟨(invariant_settings o.settings).dispatched h.settings hrule, ?_⟩
    intro area location
    rw [cells_of_failed hrule]
    exact h.cells area location
  requestedJump jump h := ⟨h.settings, fun area => by cases area <;> exact h.cells _⟩
  callDepth depth h := ⟨h.settings, h.cells⟩

/-- The memories of fresh machines hold the initial values. -/
theorem holds_ofOptions (o : Options) : (ofOptions o).Holds o [] where
  settings := settings_ofOptions o
  cells area location := by
    have hinitial : ((ofOptions o).cells area).values[location]? = (o.cells area)[location]? := by
      cases area with
      | storage => exact Array.getElem?_replicate.trans List.getElem?_replicate.symm
      | cvt => exact List.getElem?_toArray
    rw [hinitial, Options.held?]
    exact Option.map_id'.symm

end Machine

/-! ## Access during a run -/

/-- The memory and the location that an opcode accesses with the given operands, topmost
first. -/
def Opcode.access? : Opcode → List Value → Option (Area × Value)
  | rs, l :: _ => some (.storage, l)
  | rcvt, l :: _ => some (.cvt, l)
  | ws, _ :: l :: _ => some (.storage, l)
  | wcvtp, _ :: l :: _ | wcvtf, _ :: l :: _ => some (.cvt, l)
  | _, _ => none

/-- The machine that a step leaves, whether or not it ends the run. -/
def Progress.machine : Progress → Machine
  | .running r => r.machine
  | .ended o => o.machine

namespace Options

variable {o : Options} {done : List Deed} {area : Area}

/-- No memory has a location that is negative or not below its length. -/
theorem held?_eq_none {l : Value}
    (h : l.toInt < 0 ∧ (o.cells area).length ≤ addressableCells ∨
      (o.cells area).length ≤ l.toInt) :
    o.held? done area l.location = none := by
  have hle : (o.cells area).length ≤ l.location := by
    rcases h with ⟨hneg, hlength⟩ | hlength
    · exact Nat.le_trans hlength (Nat.le_of_lt (Value.lt_location_of_neg hneg))
    · rw [Value.location_of_nonneg (by omega)]
      omega
  rw [held?, List.getElem?_eq_none hle, Option.map_none]

end Options

namespace Instruction

variable {ins : Instruction} {w : Workspace} {area : Area} {l : Value}

/-- An instruction that accesses a memory reads there or writes there. -/
theorem read?_or_write?_of_access? (scale : Value)
    (haccess : ins.opcode.access? w.stack.values = some (area, l)) :
    (ins.opcode.read? = some area ∧ ∃ rest, w.stack.values = l :: rest) ∨
      ins.opcode.read? = none ∧ ∃ f v rest, ins.opcode.write? scale = some (area, f) ∧
        w.stack.values = v :: l :: rest := by
  unfold Opcode.access? at haccess
  split at haccess
  · next hop hvalues =>
      cases haccess
      exact .inl ⟨by rw [hop]; rfl, _, hvalues⟩
  · next hop hvalues =>
      cases haccess
      exact .inl ⟨by rw [hop]; rfl, _, hvalues⟩
  · next hop hvalues =>
      cases haccess
      exact .inr ⟨by rw [hop]; rfl, id, _, _, by rw [hop]; rfl, hvalues⟩
  · next hop hvalues =>
      cases haccess
      exact .inr ⟨by rw [hop]; rfl, id, _, _, by rw [hop]; rfl, hvalues⟩
  · next hop hvalues =>
      cases haccess
      exact .inr ⟨by rw [hop]; rfl, _, _, _, by rw [hop]; rfl, hvalues⟩
  · cases haccess

/-- An access to a location that a memory has succeeds, and one to any other location fails.
What is read takes the place of the location on the stack. -/
theorem execute_of_access? (site : Site) (hroom : w.stack.hasRoom 0 = true)
    (haccess : ins.opcode.access? w.stack.values = some (area, l)) :
    match (w.cells area).values[l.location]? with
    | some v => ∃ w', ins.execute site w = .ok () w' ∧
        (ins.opcode.read? = some area → w'.stack.values = v :: w.stack.values.tail)
    | none => ∃ w', ins.execute site w = .error (.outOfBounds area l.location) w' := by
  rcases read?_or_write?_of_access? site.font.scale haccess with
    ⟨hread, rest, hvalues⟩ | ⟨hread, f, v, rest, hwrite, hvalues⟩
  · rw [execute_of_read? hread hvalues, Cells.get]
    cases (w.cells area).values[l.location]? with
    | none => exact ⟨_, rfl⟩
    | some v =>
        -- There is room for the value, since the location has been popped.
        have hone : (w.popped 1).stack.hasRoom 1 = true :=
          OperandStack.hasRoom_drop hroom (by simp [w.stack.depth_eq, hvalues])
        refine ⟨{ w.popped 1 with stack := (w.popped 1).stack.cons v }, ?_, fun _ => ?_⟩
        · simp only [Workspace.onStack, OperandStack.push, if_pos hone]
        · show v :: (w.popped 1).stack.values = _
          rw [Workspace.values_popped, List.drop_one]
  · rw [execute_of_write? hwrite hvalues]
    by_cases hlocation : l.location < (w.cells area).values.size
    · rw [Array.getElem?_eq_getElem hlocation, dif_pos hlocation]
      refine ⟨_, rfl, ?_⟩
      rw [hread]
      intro h
      cases h
    · rw [Array.getElem?_eq_none (Nat.le_of_not_lt hlocation), dif_neg hlocation]
      exact ⟨_, rfl⟩

/-- Whatever accesses a memory is an operation. -/
theorem kind_of_access? (haccess : ins.opcode.access? w.stack.values = some (area, l)) :
    ins.kind = .generic := by
  unfold Opcode.access? at haccess
  split at haccess
  case h_6 => cases haccess
  all_goals
    next hop _ =>
      rw [kind, hop]
      rfl

end Instruction

namespace Machine

variable {sequence : Array Instruction} {index : Nat} {ins : Instruction} {m : Machine}

/-- An instruction leaves a part of the workspace alone, or it is performed and there to
change it. -/
theorem content_of_dispatched {result : EStateM.Result Fault Machine Effect}
    (hrule : Dispatched sequence index ins m result) (part : Part) :
    part.content (finalState result).toWorkspace = part.content m.toWorkspace ∨
      m.Performs ∧ part.IsChangedBy ins.opcode := by
  rcases workspace_of_dispatched hrule with ⟨n, hw⟩ | ⟨-, hm, hw⟩
  · rw [hw]
    exact .inl (part.content_withStack ..)
  · by_cases htarget : ins.opcode.operation.target? = some part
    · exact .inr ⟨hm, Opcode.isChangedBy_of_target htarget⟩
    · rw [hw]
      exact .inl (Operation.keeps_content _ ins htarget m.toWorkspace)

end Machine

namespace Run

variable {r : Run} {ins : Instruction}

/-- A step leaves a part of the workspace alone, or it carries out an instruction that is there
to change it. -/
theorem content_step (r : Run) (part : Part) :
    part.content r.step.machine.toWorkspace = part.content r.machine.toWorkspace ∨
      ∃ ins, r.current? = some ins ∧ r.machine.Performs ∧ part.IsChangedBy ins.opcode := by
  have hform := r.stepped
  generalize r.step = progress at hform ⊢
  cases hform with
  | @failed ins budget fault m hins hbudget hdispatch =>
      have hcontent := Machine.content_of_dispatched (Machine.dispatched_of_eq hdispatch) part
      exact hcontent.imp_right fun hchanged => ⟨ins, hins, hchanged⟩
  | @advanced ins budget effect m hins hbudget hdispatch hreplay =>
      have hcontent := Machine.content_of_dispatched (Machine.dispatched_of_eq hdispatch) part
      exact hcontent.imp (part.content_withJump m.toWorkspace 0).trans
        fun hchanged => ⟨ins, hins, hchanged⟩
  | @entered ins budget effect m body count hins hbudget hdispatch hreplay =>
      have hcontent := Machine.content_of_dispatched (Machine.dispatched_of_eq hdispatch) part
      exact hcontent.imp_right fun hchanged => ⟨ins, hins, hchanged⟩
  | returned hend hcalls hremaining => exact .inl (part.content_withJump r.machine.toWorkspace 0)
  | _ => exact .inl rfl

/-- A step that ends a run writes nothing. -/
theorem cells_of_ended {o : Outcome} (hstep : r.step = .ended o) (area : Area) :
    o.machine.cells area = r.machine.cells area := by
  have hform := r.stepped
  rw [hstep] at hform
  cases hform with
  | failed hins hbudget hdispatch =>
      exact Machine.cells_of_failed (Machine.dispatched_of_eq hdispatch) area
  | _ => rfl

/-- An access to a location that a memory has goes on, and one to any other location ends the
run. -/
theorem step_of_access? (hins : r.current? = some ins) (hbudget : 0 < r.budget)
    (hm : r.machine.Performs) (hroom : r.machine.stack.hasRoom 0 = true) {area : Area}
    {l : Value} (haccess : ins.opcode.access? r.machine.stack.values = some (area, l)) :
    match (r.machine.cells area).values[l.location]? with
    | some v => ∃ next, r.step = .running next ∧
        (ins.opcode.read? = some area →
          next.machine.stack.values = v :: r.machine.stack.values.tail)
    | none => r.FailsBy (.outOfBounds area l.location) := by
  have hkind : ins.kind = .generic := Instruction.kind_of_access? haccess
  have hexecute := Instruction.execute_of_access?
    { font := r.machine.font, sequence := r.position.sequence, index := r.position.index }
    hroom haccess
  cases hcell : (r.machine.cells area).values[l.location]? with
  | none =>
      rw [hcell] at hexecute
      obtain ⟨w, hrun⟩ := hexecute
      exact failsBy_of_execute_error hins hbudget hm hkind hrun
  | some v =>
      rw [hcell] at hexecute
      obtain ⟨w, hrun, hread⟩ := hexecute
      obtain ⟨budget, hbudget⟩ := Nat.exists_eq_add_one.2 hbudget
      exact ⟨_, step_of_execute_ok hins hbudget hm hkind hrun, hread⟩

end Run

namespace Machine

variable {o : Options} {now : Moment} {done : List Deed}

/-- Memories are kept over whole runs. At every moment of the life of a machine, whatever it
ran, each location holds what was written there last, or else its initial value. An
instruction that is performed reads just that, and fails without a trace in the memories if
there is no such location, in particular if the location is negative. Whatever a step
changes of the memories, the rounding or the loop counter, an instruction changes that is
performed and there to do so.

The bound is no restriction: an address space of 64 bits has no room for longer memories. -/
theorem memories_hold_last_writes (hnow : (Moment.between (ofOptions o)).Leads done now) :
    (∀ area location,
      (now.machine.cells area).values[location]? = o.held? done area location) ∧
    ∀ r, now = .during r →
      (∀ ins area l, r.current? = some ins → 0 < r.budget → r.machine.isExecuting = true →
        r.machine.recording = none →
        ins.opcode.access? r.machine.stack.values = some (area, l) →
        (∀ v, o.held? done area l.location = some v →
          ∃ next, r.step = .running next ∧
            (ins.opcode.read? = some area →
              next.machine.stack.values = v :: r.machine.stack.values.tail)) ∧
        (l.toInt < 0 ∧ (o.cells area).length ≤ addressableCells ∨
            (o.cells area).length ≤ l.toInt →
          r.FailsBy (.outOfBounds area l.location))) ∧
      (∀ outcome area, r.step = .ended outcome →
        outcome.machine.cells area = r.machine.cells area) ∧
      ∀ part : Part, part.content r.step.machine.toWorkspace ≠ part.content r.machine.toWorkspace →
        ∃ ins, r.current? = some ins ∧ r.machine.isExecuting = true ∧
          r.machine.recording = none ∧ part.IsChangedBy ins.opcode := by
  have hholds := (invariant_holds o).leads hnow (holds_ofOptions o)
  have hbounds := (invariant_inBounds _ _).leads hnow (inBounds_ofOptions o)
  refine ⟨hholds.cells, ?_⟩
  rintro r rfl
  refine ⟨?_, fun outcome area hstep => Run.cells_of_ended hstep area, ?_⟩
  · intro ins area l hins hbudget hexec hrec haccess
    have hstep := Run.step_of_access? hins hbudget ⟨hexec, hrec⟩ hbounds.stack haccess
    rw [show (r.machine.cells area).values[l.location]? = o.held? done area l.location from
      hholds.cells area l.location] at hstep
    constructor
    · intro v hheld
      rw [hheld] at hstep
      exact hstep
    · intro hbeyond
      rw [Options.held?_eq_none hbeyond] at hstep
      exact hstep
  · intro part hchanged
    obtain ⟨ins, hins, hm, hchanges⟩ := (r.content_step part).resolve_left hchanged
    exact ⟨ins, hins, hm.isExecuting, hm.recording, hchanges⟩

/-- Options with some memory and half a pixel for each font unit. -/
def twoMemoriesOptions : Options :=
  { scale := 0x8000, storageSize := 4, cvt := [7, 8] }

/-- A program that writes to both memories, reads what it wrote to the storage area, and then
reads from a location that is negative. -/
def twoMemoriesProgram : Array Instruction :=
  #[⟨.npushb, [0, 5, 1, 64], 0⟩, ⟨.wcvtf, [], 6⟩, ⟨.ws, [], 7⟩, ⟨.npushb, [0], 8⟩,
    ⟨.rs, [], 11⟩, ⟨.npushw, [255, 255], 12⟩, ⟨.rs, [], 16⟩]

/-- A run of `twoMemoriesProgram` on a fresh machine, after some steps. -/
def twoMemoriesRun (n : Nat) : Run :=
  (Run.start (ofOptions twoMemoriesOptions) 1000000 twoMemoriesProgram).after n

/-- What was written can be read, scaled where it was given in font units, and there is
nothing at a negative location. -/
theorem memories_hold_last_writes_twoMemories :
    ((twoMemoriesRun 4).machine.cells .cvt).values[1]? = some 32 ∧
      (∃ next, (twoMemoriesRun 4).step = .running next ∧ next.machine.stack.values = [5]) ∧
        (twoMemoriesRun 6).FailsBy (.outOfBounds .storage 0xFFFFFFFFFFFFFFFF) := by
  have hstart := Moment.Leads.start (ofOptions twoMemoriesOptions) twoMemoriesProgram
  obtain ⟨hcells, hduring⟩ := memories_hold_last_writes (hstart.after 4)
  obtain ⟨-, hduring'⟩ := memories_hold_last_writes (hstart.after 6)
  refine ⟨?_, ?_, ?_⟩
  · exact (hcells .cvt 1).trans (by decide +kernel)
  · have haccess := (hduring _ rfl).1 ⟨.rs, [], 11⟩ .storage 0 (by decide +kernel)
      (by decide +kernel) (by decide +kernel) (by decide +kernel) (by decide +kernel)
    obtain ⟨next, hstep, hread⟩ := haccess.1 5 (by decide +kernel)
    have hrest : (twoMemoriesRun 4).machine.stack.values.tail = [] := by decide +kernel
    exact ⟨next, hstep, (hread rfl).trans (by rw [← hrest]; rfl)⟩
  · have haccess := (hduring' _ rfl).1 ⟨.rs, [], 16⟩ .storage (-1) (by decide +kernel)
      (by decide +kernel) (by decide +kernel) (by decide +kernel) (by decide +kernel)
    exact haccess.2 (.inl (by decide +kernel))

end Machine

end GridFit
