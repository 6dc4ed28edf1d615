import GridFit.Proofs.Machine.Control
import GridFit.Proofs.Run.UndividedBodies
import Mathlib.Algebra.Ring.Nat

/-!
# Forward jumps

A jump names its target by an offset and is carried out as a number of instructions. The
target is the first place of the running sequence with that offset. It lies ahead in
every program and in every body that stems from one program. In a body that several
programs were recorded into it can also lie behind the jump, and then the jump is stored
as if it led backward, and is ignored.

## Implementation notes

The number of instructions is a difference of two truncated indices, so it is only the
distance to the target if that is less than `2 ^ 31`.
-/

namespace GridFit

/-- The difference that a jump stores is the distance modulo `2 ^ 32`. -/
theorem toInt_distance (i t : Nat) :
    (Int32.ofNat t - Int32.ofNat i).toInt = ((t : Int) - i).bmod (2 ^ 32) := by
  rw [Int32.toInt_sub, Int32.toInt_ofNat', Int32.toInt_ofNat']
  simp

theorem distance_pos_iff {i t : Nat} : 0 < Int32.ofNat t - Int32.ofNat i ↔
    0 < (Int32.ofNat t - Int32.ofNat i).toInt :=
  Int32.lt_iff_toInt_lt

/-- The difference of indices that are near enough is their distance. -/
theorem toInt_distance_of_near {i t : Nat} (hbehind : i ≤ t + 2 ^ 31) (hahead : t < i + 2 ^ 31) :
    (Int32.ofNat t - Int32.ofNat i).toInt = (t : Int) - i := by
  rw [toInt_distance, Int.bmod_def]
  split <;> omega

namespace Run

/-- A stored difference leads to the index it was taken of just if that lies ahead and is
near enough. -/
theorem nextIndex_distance_iff {i t : Nat} :
    0 < Int32.ofNat t - Int32.ofNat i ∧ nextIndex i (Int32.ofNat t - Int32.ofNat i) = t ↔
      i < t ∧ t < i + 2 ^ 31 := by
  constructor
  · rintro ⟨hpos, hindex⟩
    rw [nextIndex, if_pos hpos] at hindex
    have hdistance := toInt_distance i t
    rw [distance_pos_iff] at hpos
    rw [Int.bmod_def] at hdistance
    split at hdistance <;> omega
  · rintro ⟨hlt, hnear⟩
    have hdistance := toInt_distance_of_near (Nat.le_add_right_of_le (Nat.le_of_lt hlt)) hnear
    have hpos : 0 < Int32.ofNat t - Int32.ofNat i := by
      rw [distance_pos_iff, hdistance]
      omega
    refine ⟨hpos, ?_⟩
    rw [nextIndex, if_pos hpos, hdistance]
    omega

/-- A difference to an index that does not lie ahead is ignored. -/
theorem nextIndex_distance_of_le {i t : Nat} (hle : t ≤ i) (hnear : i ≤ t + 2 ^ 31) :
    Int32.ofNat t - Int32.ofNat i ≤ 0 ∧ nextIndex i (Int32.ofNat t - Int32.ofNat i) = i + 1 := by
  have hdistance := toInt_distance_of_near hnear (by omega)
  have hneg : ¬0 < Int32.ofNat t - Int32.ofNat i := by
    rw [distance_pos_iff, hdistance]
    omega
  exact ⟨Int32.not_lt.1 hneg, if_neg hneg⟩

end Run

/-- Whether it is taken or not, a jump is an operation. -/
theorem Opcode.kind_of_operation_eq_jump {op : Opcode} {test : JumpTest}
    (h : op.operation = .jump test) : op.kind = .generic := by
  have hop := mem_of_operation_eq_jump h
  simp only [List.mem_cons, List.not_mem_nil, or_false] at hop
  rcases hop with rfl | rfl | rfl <;> rfl

/-- What is taken as a jump is an operation. -/
theorem Opcode.kind_of_takenOffset? {op : Opcode} {values : List Value} {offset : Value}
    (h : op.takenOffset? values = some offset) : op.kind = .generic := by
  unfold takenOffset? at h
  split at h
  · rfl
  · rfl
  · rfl
  · cases h

namespace Machine

/-- A forward jump that is performed stores the difference to the place that its offset
names, and fails without one. -/
theorem dispatch_forward_jump (sequence : Array Instruction) (index : Nat) {ins : Instruction}
    {m : Machine} (hm : m.Performs) {offset : Value}
    (htaken : ins.opcode.takenOffset? m.stack.values = some offset) (hforward : 0 < offset) :
    match ({ font := m.font, sequence, index } : Site).target? offset.toInt.toNat with
    | some t => ∃ m', m'.requestedJump = Int32.ofNat t - Int32.ofNat index ∧
        dispatch sequence index ins m = .ok { events := reportOf ins m } m'
    | none => ∃ m', dispatch sequence index ins m = .error .invalidJump m' := by
  have hkind : ins.kind = .generic := Opcode.kind_of_takenOffset? htaken
  have hrun := Instruction.execute_of_takenOffset? { font := m.font, sequence, index } htaken
  rw [Workspace.jumpBy_forward hforward] at hrun
  simp only [dispatch, hkind, unlessPassive_active hm.isExecuting hm.recording, executeGeneric,
    bind_apply, get_apply, onWorkspace, hrun]
  cases ({ font := m.font, sequence, index } : Site).target? offset.toInt.toNat with
  | some t => exact ⟨_, rfl, rfl⟩
  | none => exact ⟨_, rfl⟩

end Machine

namespace Run

/-- A step that carries out an operation goes on behind it, or where it jumps to. -/
theorem position_of_operation {r next : Run} {ins : Instruction} {effect : Effect} {m' : Machine}
    (hins : r.current? = some ins) (hstep : r.step = .running next)
    (hdispatch : Machine.dispatch r.position.sequence r.position.index ins r.machine =
      .ok effect m') (hreplay : effect.replay = none) :
    next.calls = r.calls ∧
      next.position =
        { r.position with index := nextIndex r.position.index m'.requestedJump } := by
  have hform := r.stepped
  rw [hstep] at hform
  cases hform with
  | advanced hins' hbudget hdispatch' hreplay' =>
      obtain rfl := Option.some.inj (hins.symm.trans hins')
      cases hdispatch.symm.trans hdispatch'
      exact ⟨rfl, rfl⟩
  | entered hins' hbudget hdispatch' hreplay' =>
      obtain rfl := Option.some.inj (hins.symm.trans hins')
      cases hdispatch.symm.trans hdispatch'
      cases hreplay.symm.trans hreplay'
  | _ => simp_all

/-- A forward jump that succeeds continues at the first place of the running sequence that
its offset names, if and only if that place lies ahead, by less than `2 ^ 31`
instructions. Otherwise it is ignored, unless the place is further away than that. The
place does lie ahead outside of calls, and also in calls as long as no run began while a
definition was open. -/
theorem position_after_forward_jump {o : Options} {m : Machine} {bytes : List UInt8}
    {program : Array Instruction} (hparse : parse bytes = .ok program) {r next : Run}
    (hr : (start m m.budget program).Reaches r) {ins : Instruction}
    (hins : r.current? = some ins) (hperforms : r.machine.Performs) {offset : Value}
    (htaken : ins.opcode.takenOffset? r.machine.stack.values = some offset)
    (hforward : 0 < offset) (hstep : r.step = .running next) :
    ∃ t effect m', IsPlaceOf r.position.sequence (ins.pc + offset.toInt.toNat) t ∧
      Machine.dispatch r.position.sequence r.position.index ins r.machine = .ok effect m' ∧
      next.calls = r.calls ∧
      (0 < m'.requestedJump ∧ next.position = { r.position with index := t } ↔
        r.position.index < t ∧ t < r.position.index + 2 ^ 31) ∧
      (t ≤ r.position.index → r.position.index ≤ t + 2 ^ 31 → m'.requestedJump ≤ 0 ∧
        next.position = { r.position with index := r.position.index + 1 }) ∧
      (r.calls = [] ∨ Machine.ReachableUndivided o m ∧ m.recording = none →
        r.position.index < t ∧ t < r.position.index + 2 ^ 31) := by
  have hjump := Machine.dispatch_forward_jump r.position.sequence r.position.index hperforms
    htaken hforward
  split at hjump
  · next t htarget =>
      obtain ⟨m', hstored, hdispatch⟩ := hjump
      have hplace : IsPlaceOf r.position.sequence (ins.pc + offset.toInt.toNat) t :=
        (Site.target?_eq_some_iff ⟨_, _, _⟩ hins).1 htarget
      obtain ⟨hcalls, hposition⟩ := position_of_operation hins hstep hdispatch rfl
      refine ⟨t, _, m', hplace, hdispatch, hcalls, ?_, ?_, ?_⟩
      · rw [hposition, hstored, Position.mk.injEq]
        simpa using nextIndex_distance_iff
      · intro hle hnear
        rw [hposition, hstored]
        obtain ⟨hneg, hindex⟩ := nextIndex_distance_of_le hle hnear
        exact ⟨hneg, by rw [hindex]⟩
      · intro horderly
        have hascending : IsAscending r.position.sequence := by
          rcases horderly with htop | ⟨hundivided, hclosed⟩
          · have hnested := Nested.of_reaches hr
            rw [htop] at hnested
            rw [hnested.sequence_eq]
            exact .of_parse hparse
          · exact hundivided.isAscending hclosed hparse hr
        have hpos : (0 : Int) < offset.toInt := Int32.lt_iff_toInt_lt.1 hforward
        have hlt := offset.toInt_lt
        obtain ⟨hahead, hnear⟩ := hascending.ahead hins (by omega) hplace
        exact ⟨hahead, by omega⟩
  · obtain ⟨m', hdispatch⟩ := hjump
    have hform := r.stepped
    rw [hstep] at hform
    cases hform <;> simp_all

/-- A program that jumps over an instruction. -/
def skippingProgram : Array Instruction :=
  #[⟨.pushb 0, [3], 0⟩, ⟨.jmpr, [], 2⟩, ⟨.pushb 0, [9], 3⟩, ⟨.pushb 0, [5], 5⟩]

/-- The jump of `skippingProgram` goes ahead. -/
theorem position_after_skipping_jump :
    ∃ (t : Nat) (m' : Machine) (next : Run),
      ((start (Machine.ofOptions {}) 1000000 skippingProgram).after 1).step = .running next ∧
      IsPlaceOf skippingProgram 5 t ∧ 1 < t ∧ 0 < m'.requestedJump ∧
      next.position.index = t := by
  have hparse : parse [0xB0, 3, 0x1C, 0xB0, 9, 0xB0, 5] = .ok skippingProgram :=
    parse_eq_ok_iff.2 ⟨by decide, rfl⟩
  have hstep : ((start (Machine.ofOptions {}) 1000000 skippingProgram).after 1).step =
      .running ((start (Machine.ofOptions {}) 1000000 skippingProgram).after 2) := by
    decide +kernel
  obtain ⟨t, effect, m', hplace, -, -, hiff, -, hahead⟩ :=
    position_after_forward_jump (o := {}) (m := Machine.ofOptions {}) hparse (reaches_after 1 _)
      rfl ⟨rfl, rfl⟩ rfl (by decide) hstep
  obtain ⟨hlt, hnear⟩ := hahead (.inl rfl)
  obtain ⟨hpos, hposition⟩ := hiff.2 ⟨hlt, hnear⟩
  exact ⟨t, m', _, hstep, hplace, hlt, hpos, congrArg Position.index hposition⟩

/-- A program that begins a function and leaves it open. -/
def openingProgram : Array Instruction :=
  #[⟨.pushb 0, [0], 0⟩, ⟨.fdef, [], 2⟩, ⟨.pushb 0, [7], 3⟩, ⟨.dup, [], 5⟩]

/-- A program that goes on with an open function, ends it and calls it. -/
def closingProgram : Array Instruction :=
  #[⟨.pushb 0, [3], 0⟩, ⟨.jmpr, [], 2⟩, ⟨.pushb 0, [9], 3⟩, ⟨.pushb 0, [5], 5⟩, ⟨.endf, [], 7⟩,
    ⟨.pushb 0, [0], 8⟩, ⟨.call, [], 10⟩]

/-- The machine that `openingProgram` leaves. -/
def openMachine : Machine :=
  ((start (Machine.ofOptions {}) 1000000 openingProgram).after 4).machine

theorem reachable_openMachine : Machine.Reachable {} openMachine := by
  have hparse : parse [0xB0, 0, 0x2C, 0xB0, 7, 0x20] = .ok openingProgram :=
    parse_eq_ok_iff.2 ⟨by decide, rfl⟩
  have hend : ((start (Machine.ofOptions {}) 1000000 openingProgram).after 4).step =
      .ended ((start (Machine.ofOptions {}) 1000000 openingProgram).after 4).succeed := by
    decide +kernel
  have hm : Machine.Reachable {}
      ((start (Machine.ofOptions {}) 1000000 openingProgram).finish).machine :=
    .run .fresh hparse
  rw [(reaches_after 4 _).finish_eq, finish_of_ended hend] at hm
  exact hm

/-- A body that two programs were recorded into can have a forward jump that names an
instruction ahead of it and still goes on right behind itself, as an instruction of the
first program has the same offset. -/
theorem forward_jump_ignored_in_divided_body :
    ∃ m r next, Machine.Reachable {} m ∧
      parse [0xB0, 3, 0x1C, 0xB0, 9, 0xB0, 5, 0x2D, 0xB0, 0, 0x2B] = .ok closingProgram ∧
      (start m m.budget closingProgram).Reaches r ∧ r.current? = some ⟨.jmpr, [], 2⟩ ∧
      r.machine.Performs ∧ Opcode.jmpr.takenOffset? r.machine.stack.values = some 3 ∧
      r.step = .running next ∧
      (r.position.sequence[r.position.index + 2]?).map Instruction.pc = some 5 ∧
      ¬∃ k, next.position = { r.position with index := k } ∧
        (k = r.position.sequence.size ∨
          (r.position.sequence[k]?).map Instruction.pc = some 5) := by
  refine ⟨openMachine, (start openMachine openMachine.budget closingProgram).after 11,
    (start openMachine openMachine.budget closingProgram).after 12, reachable_openMachine,
    parse_eq_ok_iff.2 ⟨by decide, rfl⟩, reaches_after 11 _, by decide +kernel,
    ⟨by decide +kernel, by decide +kernel⟩, by decide +kernel, by decide +kernel,
    by decide +kernel, ?_⟩
  rintro ⟨k, hk, hplace⟩
  have hindex : 4 = k := Eq.trans (by decide +kernel) (congrArg Position.index hk)
  subst hindex
  exact absurd hplace (by decide +kernel)

end Run

end GridFit
