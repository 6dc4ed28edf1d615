import GridFit.Proofs.Machine.Resources
import GridFit.Proofs.Program.Seam
import GridFit.Proofs.Run.Address
import GridFit.Proofs.Run.ForwardJump

/-!
# Where jumps lead in programs

In a program that was parsed, a forward jump leads to the one instruction that starts where
its offset says, or to the end of the bytes, and it fails if there is neither. So it never
leads into operands or past the end. The run goes on exactly there. Any other jump makes no
difference to what comes next.
-/

namespace GridFit

/-- Whether `offset` leads to the index `j` of a program of `size` bytes: to its end, or to an
instruction that starts there. -/
def IsTarget (program : Array Instruction) (size offset j : Nat) : Prop :=
  offset = size ∧ j = program.size ∨ ∃ other, program[j]? = some other ∧ other.pc = offset

/-- Programs that were parsed end with their bytes, and no two of their instructions start at
the same offset. So an offset leads just to the place that it names. -/
theorem isTarget_iff_isPlaceOf {bytes : List UInt8} {program : Array Instruction}
    (hparse : parse bytes = .ok program) {offset j : Nat} :
    IsTarget program bytes.length offset j ↔ IsPlaceOf program offset j := by
  obtain ⟨hlaid, hbytes⟩ := parse_eq_ok_iff.1 hparse
  have hend : Site.endOffset program = bytes.length := by rw [hlaid.siteEnd_eq, hbytes]
  have hbefore {k : Nat} {other : Instruction} (hother : program[k]? = some other) :
      other.pc < bytes.length := by
    have hlt := hlaid.pc_lt (Array.mem_toList_iff.2 (Array.mem_of_getElem? hother))
    rwa [Nat.zero_add, hbytes] at hlt
  unfold IsTarget IsPlaceOf
  rw [hend]
  split
  · next hoffset =>
      constructor
      · rintro (⟨-, hj⟩ | ⟨other, hother, hpc⟩)
        · exact hj
        · exact absurd (hpc.trans hoffset) (Nat.ne_of_lt (hbefore hother))
      · exact fun hj => .inl ⟨hoffset, hj⟩
  · next hoffset =>
      constructor
      · rintro (⟨hsize, -⟩ | ⟨other, hother, hpc⟩)
        · exact absurd hsize hoffset
        · refine ⟨other, hother, hpc, fun k earlier hk hearlier => ?_⟩
          have hlt := (IsAscending.of_parse hparse).lt_of_lt hearlier hother hk
          omega
      · rintro ⟨other, hother, hpc, -⟩
        exact .inr ⟨other, hother, hpc⟩

/-! ## Single jumps -/

/-- What the result of the instruction `ins` at the index `i` of a program of `size` bytes is if
it is a jump. -/
structure Instruction.ResolvesJump (ins : Instruction) (program : Array Instruction)
    (size i : Nat) (w : Workspace) (result : EStateM.Result Fault Workspace Unit) : Prop where
  /-- A forward jump fails just if its offset leads nowhere. -/
  invalid {offset} (htaken : ins.opcode.takenOffset? w.stack.values = some offset)
    (hforward : 0 < offset) :
    result = .error .invalidJump (w.popped ins.opcode.stackEffect.pops) ↔
      ¬∃ j, IsTarget program size (ins.pc + offset.toInt.toNat) j
  /-- Else it leads to one place only, which lies ahead, and asks for the distance. -/
  forward {offset j} (htaken : ins.opcode.takenOffset? w.stack.values = some offset)
    (hforward : 0 < offset) (htarget : IsTarget program size (ins.pc + offset.toInt.toNat) j) :
    i < j ∧ (∀ k, IsTarget program size (ins.pc + offset.toInt.toNat) k → k = j) ∧
      ∃ jump : Value, jump.toInt = (j : Int) - i ∧
        result = .ok () { w.popped ins.opcode.stackEffect.pops with requestedJump := jump }
  /-- Any other jump that is taken asks for its offset as it stands. -/
  backward {offset} (htaken : ins.opcode.takenOffset? w.stack.values = some offset)
    (hbackward : offset ≤ 0) :
    result = .ok () { w.popped ins.opcode.stackEffect.pops with requestedJump := offset }
  /-- A jump that is not taken only pops its operands. -/
  untaken {test} (hjump : ins.opcode.operation = .jump test)
    (hoperands : ins.opcode.stackEffect.pops ≤ w.stack.values.length)
    (huntaken : ins.opcode.takenOffset? w.stack.values = none) :
    result = .ok () (w.popped ins.opcode.stackEffect.pops)

/-- A jump that is taken and does not lead forward asks for its offset as it stands. -/
theorem Instruction.execute_of_backward {ins : Instruction} (site : Site) {w : Workspace}
    {offset : Value} (htaken : ins.opcode.takenOffset? w.stack.values = some offset)
    (hbackward : offset ≤ 0) : ins.execute site w =
      .ok () { w.popped ins.opcode.stackEffect.pops with requestedJump := offset } := by
  rw [execute_of_takenOffset? site htaken, Workspace.jumpBy, if_pos hbackward]
  rfl

section

variable {bytes : List UInt8} {program : Array Instruction} (hparse : parse bytes = .ok program)

include hparse

/-- A forward jump leads ahead, by fewer than `2 ^ 31` instructions. -/
theorem IsTarget.ahead {i j : Nat} {ins : Instruction} {offset : Value}
    (hins : program[i]? = some ins) (hforward : 0 < offset)
    (htarget : IsTarget program bytes.length (ins.pc + offset.toInt.toNat) j) :
    i < j ∧ j < i + 2 ^ 31 := by
  have hpos : (0 : Int) < offset.toInt := Int32.lt_iff_toInt_lt.1 hforward
  have hlt := offset.toInt_lt
  have hahead := (IsAscending.of_parse hparse).ahead hins (by omega)
    ((isTarget_iff_isPlaceOf hparse).1 htarget)
  omega

/-- All jumps of a program resolve. -/
theorem Instruction.resolvesJump_execute (font : FontInstance) (w : Workspace) {i : Nat}
    {ins : Instruction} (hins : program[i]? = some ins) :
    ins.ResolvesJump program bytes.length i w
      (ins.execute { font, sequence := program, index := i } w) := by
  have hsite (n j : Nat) :
      ({ font, sequence := program, index := i } : Site).target? n = some j ↔
        IsTarget program bytes.length (ins.pc + n) j :=
    (Site.target?_eq_some_iff ⟨_, _, _⟩ hins).trans (isTarget_iff_isPlaceOf hparse).symm
  refine ⟨?_, ?_, execute_of_backward _, execute_of_untaken _⟩
  · intro offset htaken hforward
    rw [execute_of_takenOffset? _ htaken, Workspace.jumpBy_forward hforward]
    simp only [← hsite]
    cases ({ font, sequence := program, index := i } : Site).target? offset.toInt.toNat with
    | none => simp
    | some j => simp
  · intro offset j htaken hforward htarget
    obtain ⟨hlt, hnear⟩ := htarget.ahead hparse hins hforward
    refine ⟨hlt, ?_, _, toInt_distance_of_near (Nat.le_add_right_of_le hlt.le) hnear, ?_⟩
    · intro k hk
      exact ((isTarget_iff_isPlaceOf hparse).1 htarget).unique
        ((isTarget_iff_isPlaceOf hparse).1 hk)
    · rw [execute_of_takenOffset? _ htaken, Workspace.jumpBy_forward hforward,
        (hsite _ j).2 htarget]

end

/-! ## Jumps in runs -/

namespace Run

/-- The run goes on at the index `j` of its sequence, inside of the same calls. -/
def GoesTo (r : Run) (j : Nat) : Prop :=
  ∃ next, r.step = .running next ∧ next.calls = r.calls ∧
    next.position = { r.position with index := j }

/-- Where a run goes on after the instruction `ins` if it is a jump. Forward jumps are those of
the program itself, which has `size` bytes. -/
structure FollowsJump (r : Run) (program : Array Instruction) (size : Nat) (ins : Instruction) :
    Prop where
  /-- A forward jump that leads nowhere ends the run. -/
  invalid {offset} (htop : r.calls = [])
    (htaken : ins.opcode.takenOffset? r.machine.stack.values = some offset)
    (hforward : 0 < offset)
    (hnone : ¬∃ j, IsTarget program size (ins.pc + offset.toInt.toNat) j) :
    r.FailsBy .invalidJump
  /-- After a forward jump, the run goes on where it leads. -/
  forward {offset j} (htop : r.calls = [])
    (htaken : ins.opcode.takenOffset? r.machine.stack.values = some offset)
    (hforward : 0 < offset) (htarget : IsTarget program size (ins.pc + offset.toInt.toNat) j) :
    r.GoesTo j
  /-- After any other jump that is taken, the next instruction follows. -/
  backward {offset} (htaken : ins.opcode.takenOffset? r.machine.stack.values = some offset)
    (hbackward : offset ≤ 0) : r.GoesTo (r.position.index + 1)
  /-- After a jump that is not taken, the next instruction follows, too. -/
  untaken {test} (hjump : ins.opcode.operation = .jump test)
    (hoperands : ins.opcode.stackEffect.pops ≤ r.machine.stack.values.length)
    (huntaken : ins.opcode.takenOffset? r.machine.stack.values = none) :
    r.GoesTo (r.position.index + 1)

variable {bytes : List UInt8} {program : Array Instruction} {r : Run} {ins : Instruction}

/-- After an operation that succeeds, a run goes on where it was asked to. -/
theorem goesTo_of_execute (hins : r.current? = some ins) (hbudget : 0 < r.budget)
    (hm : r.machine.Performs) (hkind : ins.kind = .generic) {w : Workspace}
    (hrun : ins.execute
      { font := r.machine.font, sequence := r.position.sequence, index := r.position.index }
      r.machine.toWorkspace = .ok () w) :
    r.GoesTo (nextIndex r.position.index w.requestedJump) := by
  obtain ⟨budget, hbudget⟩ := Nat.exists_eq_add_one.2 hbudget
  exact ⟨_, step_of_execute_ok hins hbudget hm hkind hrun, rfl, rfl⟩

/-- A jump that asks for the distance to an index ahead leads just there. -/
theorem nextIndex_of_toInt_eq {i j : Nat} {jump : Value} (hlt : i < j)
    (hjump : jump.toInt = (j : Int) - i) : nextIndex i jump = j := by
  have hpos : 0 < jump := Int32.lt_iff_toInt_lt.2 (show (0 : Int) < jump.toInt by omega)
  rw [nextIndex, if_pos hpos, hjump]
  omega

/-- Runs go on where the jumps of their program lead. -/
theorem followsJump_of_reaches (hparse : parse bytes = .ok program) {m : Machine} {budget : Nat}
    (hr : (start m budget program).Reaches r) (hins : r.current? = some ins)
    (hm : r.machine.Performs) (hbudget : 0 < r.budget) :
    r.FollowsJump program bytes.length ins := by
  have hresolves (htop : r.calls = []) : ins.ResolvesJump program bytes.length r.position.index
      r.machine.toWorkspace (ins.execute
        { font := r.machine.font, sequence := r.position.sequence, index := r.position.index }
        r.machine.toWorkspace) := by
    have hnested := Nested.of_reaches hr
    rw [htop] at hnested
    rw [hnested.sequence_eq]
    exact Instruction.resolvesJump_execute hparse _ _ (hnested.sequence_eq ▸ hins)
  refine ⟨?_, ?_, ?_, ?_⟩
  · intro offset htop htaken hforward hnone
    exact failsBy_of_execute_error hins hbudget hm (Opcode.kind_of_takenOffset? htaken)
      (((hresolves htop).invalid htaken hforward).2 hnone)
  · intro offset j htop htaken hforward htarget
    obtain ⟨hlt, -, jump, hjump, hrun⟩ := (hresolves htop).forward htaken hforward htarget
    have hgoes := goesTo_of_execute hins hbudget hm (Opcode.kind_of_takenOffset? htaken) hrun
    rwa [nextIndex_of_toInt_eq hlt hjump] at hgoes
  · intro offset htaken hbackward
    have hgoes := goesTo_of_execute hins hbudget hm (Opcode.kind_of_takenOffset? htaken)
      (Instruction.execute_of_backward _ htaken hbackward)
    rwa [nextIndex, if_neg (Int32.not_lt.2 hbackward)] at hgoes
  · intro test hjump hoperands huntaken
    have hgoes := goesTo_of_execute hins hbudget hm (Opcode.kind_of_operation_eq_jump hjump)
      (Instruction.execute_of_untaken _ hjump hoperands huntaken)
    have hnone : (r.machine.toWorkspace.popped ins.opcode.stackEffect.pops).requestedJump = 0 :=
      requestedJump_of_reaches hr
    rwa [hnone, nextIndex, if_neg (by decide)] at hgoes

/-- Jumps resolve exactly. In a program that was parsed, a forward jump that is taken fails if
its offset leads neither to an instruction nor to the end of the bytes. Else it asks for the
distance to the one place where its offset leads, and the run goes on there. Any other jump,
taken or not, makes no difference to what comes next. While a run drives a sequence, inside of
the same calls, the current index only grows. So no instruction has its turn twice there. -/
theorem jumps_resolve_exactly (hparse : parse bytes = .ok program) :
    (∀ font w i (ins : Instruction), program[i]? = some ins →
      ins.ResolvesJump program bytes.length i w
        (ins.execute { font, sequence := program, index := i } w)) ∧
    ∀ m r, (start m m.budget program).Reaches r →
      (∀ ins, r.current? = some ins → r.machine.Performs → 0 < r.budget →
        r.FollowsJump program bytes.length ins) ∧
      ∀ s t, r.step = .running s → s.Reaches t → t.calls = r.calls →
        t.position.sequence = r.position.sequence ∧ r.position.index < t.position.index := by
  constructor
  · intro font w i ins hins
    exact ins.resolvesJump_execute hparse font w hins
  · intro m r hr
    constructor
    · intro ins hins hm hbudget
      exact followsJump_of_reaches hparse hr hins hm hbudget
    · intro s t hstep hst hcalls
      have ht : (start m m.budget program).Reaches t := (hr.tail hstep).trans hst
      refine ⟨?_, index_lt_of_calls_eq hstep hst hcalls⟩
      exact (Seated.of_reaches hr).sequence_eq_sequence (hcalls ▸ Seated.of_reaches ht)

/-- A workspace with nothing but an offset on its stack. -/
def offsetWorkspace (offset : Value) : Workspace :=
  { (Machine.ofOptions {}).toWorkspace with stack := (OperandStack.empty none).cons offset }

/-- The jump of `skippingProgram` goes on at the last instruction, and never returns. With an
offset into operands it would fail. -/
theorem jumps_resolve_in_skippingProgram :
    parse [0xB0, 3, 0x1C, 0xB0, 9, 0xB0, 5] = .ok skippingProgram ∧
    Instruction.execute ⟨.jmpr, [], 2⟩ { font := {}, sequence := skippingProgram, index := 1 }
      (offsetWorkspace 2) = .error .invalidJump ((offsetWorkspace 2).popped 1) ∧
    ((start (Machine.ofOptions {}) 1000000 skippingProgram).after 1).GoesTo 3 ∧
    ∀ t, ((start (Machine.ofOptions {}) 1000000 skippingProgram).after 2).Reaches t →
      t.calls = [] → 1 < t.position.index := by
  have hparse : parse [0xB0, 3, 0x1C, 0xB0, 9, 0xB0, 5] = .ok skippingProgram :=
    parse_eq_ok_iff.2 ⟨by decide, rfl⟩
  have hstep : ((start (Machine.ofOptions {}) 1000000 skippingProgram).after 1).step =
      .running ((start (Machine.ofOptions {}) 1000000 skippingProgram).after 2) := by
    decide +kernel
  have hnone : ¬∃ j, IsTarget skippingProgram 7 4 j := by
    rintro ⟨j, ⟨hsize, -⟩ | ⟨other, hother, hpc⟩⟩
    · exact absurd hsize (by decide)
    · have hpcs : ∀ other ∈ skippingProgram, other.pc ≠ 4 := by decide
      exact hpcs other (Array.mem_of_getElem? hother) hpc
  obtain ⟨hexecute, hruns⟩ := jumps_resolve_exactly hparse
  obtain ⟨hfollows, hgrows⟩ := hruns (Machine.ofOptions {}) _ (reaches_after 1 _)
  refine ⟨hparse, ?_, ?_, ?_⟩
  · exact ((hexecute {} (offsetWorkspace 2) 1 ⟨.jmpr, [], 2⟩ rfl).invalid rfl (by decide)).2 hnone
  · exact (hfollows ⟨.jmpr, [], 2⟩ rfl ⟨rfl, rfl⟩ (by decide)).forward rfl rfl (by decide)
      (.inr ⟨⟨.pushb 0, [5], 5⟩, rfl, rfl⟩)
  · intro t ht hcalls
    exact (hgrows _ t hstep ht hcalls).2

end Run

end GridFit
