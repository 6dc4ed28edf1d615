import GridFit.Proofs.Operation.Replacement
import GridFit.Proofs.Program.RoundTrip
import GridFit.Proofs.Word

/-!
# The stack effects of opcodes

An opcode is described twice: the table says how many values it takes and how many it leaves, and
its operation takes and leaves them. The two descriptions agree. Where the number depends on the
operands, on the loop counter or on the font, the operation still leaves what is below alone.
-/

namespace GridFit

variable {ins : Instruction} {site : Site} {w w' : Workspace}

/-- Whether the topmost value is a position among the values below it, counted from one. -/
def SelectsBelow : List Value → Prop
  | [] => False
  | k :: rest => 1 ≤ k.toInt ∧ k.toInt ≤ rest.length

/-- A position whose location is not one among the values selects none of them. -/
theorem not_selectsBelow {k : Value} {rest : List Value}
    (h : k.location = 0 ∨ rest.length < k.location) : ¬SelectsBelow (k :: rest) := by
  rintro ⟨hlow, hhigh⟩
  have hlocation : k.location = k.toInt.toNat := Value.location_of_nonneg (by omega)
  omega

namespace Opcode

/-- Whether the table alone says how many values an opcode takes and leaves. -/
def hasFixedEffect : Opcode → Bool
  | clear | npushb | npushw | getvariation => false
  | deltap1 | deltap2 | deltap3 | deltac1 | deltac2 | deltac3 => false
  | op => !op.takesPoints

theorem isRegular_of_hasFixedEffect {op : Opcode} (h : op.hasFixedEffect = true)
    (hcopy : op ≠ .cindex) (hmove : op ≠ .mindex) : op.operation.isRegular = true := by
  cases op <;> first | rfl | exact absurd rfl hcopy | exact absurd rfl hmove | cases h

end Opcode

/-! ## Inline operands -/

namespace Instruction

theorem length_wordValues :
    (operands : List UInt8) → (wordValues operands).length = operands.length / 2
  | [] => rfl
  | [_] => by simp [wordValues]
  | _ :: _ :: rest => by
      rw [wordValues, List.length_cons, length_wordValues rest, List.length_cons, List.length_cons]
      omega

/-- There are as many operand values as there are operands. -/
theorem length_operandValues (ins : Instruction) :
    ins.operandValues.length = ins.operandCount := by
  unfold operandValues operandCount
  split
  · exact length_wordValues ins.operands
  · exact List.length_map _

/-- An instruction with a fixed effect pushes as many values as the table says, if it has the
operands that its opcode admits. -/
theorem pushCount_of_hasFixedEffect (hadmits : ins.opcode.admits ins.operands.length)
    (h : ins.opcode.hasFixedEffect = true) (font : FontInstance) :
    ins.pushCount font = ins.opcode.stackEffect.pushes := by
  have hlength := ins.length_operandValues
  obtain ⟨op, operands, pc⟩ := ins
  cases op with
  | pushb extra =>
      simp only [Opcode.admits, beq_iff_eq] at hadmits
      exact hlength.trans hadmits
  | pushw extra =>
      simp only [Opcode.admits, beq_iff_eq] at hadmits
      simp only [operandCount, Opcode.pushesWords, if_true, hadmits] at hlength
      exact hlength.trans (Nat.mul_div_cancel_left _ Nat.two_pos)
  | _ => first | rfl | cases h

end Instruction

/-! ## Operations whose effect is not fixed -/

namespace OperandStack

variable {s t : OperandStack} {k : Value} {rest : List Value}

/-- A copy takes the place of its position, which selects nothing if the copy fails. -/
theorem copyIndexed_cases (s : OperandStack) :
    match copyIndexed s with
    | .ok _ t => 1 ≤ s.values.length ∧ ∃ v, t.values = v :: s.values.drop 1
    | .error fault _ => fault = .stackUnderflow ∧ ¬SelectsBelow s.values := by
  unfold copyIndexed
  cases hvalues : s.values with
  | nil => exact ⟨rfl, id⟩
  | cons k rest =>
      simp only
      cases hlocation : k.location with
      | zero => exact ⟨rfl, not_selectsBelow (.inl hlocation)⟩
      | succ i =>
          simp only
          cases hv : rest[i]? with
          | some v => exact ⟨Nat.succ_pos _, v, by simp [cons, hvalues]⟩
          | none =>
              have hle : rest.length ≤ i := List.getElem?_eq_none_iff.1 hv
              exact ⟨rfl, not_selectsBelow (.inr (by omega))⟩

theorem popLocation_nil (h : s.values = []) : popLocation s = .error .stackUnderflow s := by
  simp [popLocation, pop, top?, bind_apply, h]

theorem popLocation_cons (h : s.values = k :: rest) :
    popLocation s = .ok k.location (s.drop 1) := by
  simp [popLocation, pop, top?, bind_apply, h]

theorem length_raise (s : OperandStack) (i : Nat) :
    (s.raise i).values.length = s.values.length := by
  rw [← depth_eq, ← depth_eq]
  unfold raise
  split <;> rfl

/-- A move drops its position, which selects nothing if the move fails. -/
theorem moveIndexed_cases (s : OperandStack) :
    match moveIndexed s with
    | .ok _ t => t.values.length + 1 = s.values.length
    | .error fault _ => fault = .stackUnderflow ∧ ¬SelectsBelow s.values := by
  rw [show moveIndexed s = _ from bind_apply popLocation _ s]
  cases hvalues : s.values with
  | nil =>
      rw [popLocation_nil hvalues]
      exact ⟨rfl, id⟩
  | cons k rest =>
      have hrest : (s.drop 1).values = rest := by simp [hvalues]
      rw [popLocation_cons hvalues]
      simp only
      cases hlocation : k.location with
      | zero => exact ⟨rfl, not_selectsBelow (.inl hlocation)⟩
      | succ i =>
          simp only [depth_eq, hrest]
          by_cases hi : i < rest.length
          · rw [if_pos hi]
            simp only [length_raise, hrest, List.length_cons]
          · rw [if_neg hi]
            exact ⟨rfl, not_selectsBelow (.inr (by omega))⟩

/-- A counted list of pairs is gone with its count. -/
theorem ok_of_discardPairs (h : discardPairs s = .ok () t) :
    ∃ n rest, s.values = n :: rest ∧ 2 * n.location ≤ rest.length ∧
      t.values = rest.drop (2 * n.location) := by
  simp only [discardPairs, bind_apply] at h
  cases hvalues : s.values with
  | nil =>
      rw [popLocation_nil hvalues] at h
      cases h
  | cons n rest =>
      have hrest : (s.drop 1).values = rest := by simp [hvalues]
      have hmany := pops_popMany (2 * n.location) (s.drop 1)
      rw [popLocation_cons hvalues] at h
      simp only at h
      rw [h] at hmany
      obtain ⟨hle, ht⟩ := hmany
      have ht' : t.values = (s.drop 1).values.drop (2 * n.location) := congrArg values ht
      rw [id, hrest] at hle
      exact ⟨n, rest, rfl, hle, by rw [ht', hrest]⟩

theorem values_of_pushAll {vs : List Value} (h : pushAll vs s = .ok () t) :
    t.values = vs.reverse ++ s.values := by
  unfold pushAll at h
  split at h <;> cases h
  exact List.reverseAux_eq

theorem values_of_pushTimes {v : Value} {n : Nat} (h : pushTimes v n s = .ok () t) :
    t.values = List.replicate n v ++ s.values := by
  induction n generalizing s with
  | zero =>
      cases h
      rfl
  | succ n ih =>
      obtain ⟨_, u, hpush, hrest⟩ := ok_of_bind h
      unfold push at hpush
      split at hpush <;> cases hpush
      rw [ih hrest, List.replicate_succ', List.append_assoc]
      rfl

end OperandStack

namespace Operation

/-- The points that the loop counter asks for are gone with what the opcode takes. -/
theorem ok_of_discardPoints {pops : Nat}
    (h : (discardPoints pops).execute site ins w = .ok () w') :
    pops + w.graphics.loopCounter ≤ w.stack.values.length ∧
      w'.stack.values = w.stack.values.drop (pops + w.graphics.loopCounter) := by
  simp only [execute, bind_apply, Workspace.onStack_popMany] at h
  by_cases hpops : pops ≤ w.stack.values.length
  · have hcounter : (w.popped pops).graphics.loopCounter = w.graphics.loopCounter := rfl
    simp only [if_pos hpops, Workspace.discardPoints_eq, hcounter, Workspace.values_popped,
      List.length_drop] at h
    split at h
    · next hpoints =>
        cases h
        exact ⟨by omega, by simp⟩
    · cases h
  · simp only [if_neg hpops] at h
    cases h

end Operation

/-! ## Instructions -/

namespace Instruction

/-- What a successful instruction makes of the values on the stack, topmost first. -/
structure Leaves (ins : Instruction) (font : FontInstance) (loopCounter : Nat)
    (before after : List Value) : Prop where
  /-- As many values as the table says give way to as many others. -/
  fixed : ins.opcode.hasFixedEffect = true → ins.opcode ≠ .mindex →
    ins.opcode.stackEffect.pops ≤ before.length ∧ ∃ pushed : List Value,
      pushed.length = ins.opcode.stackEffect.pushes ∧
        after = pushed ++ before.drop ins.opcode.stackEffect.pops
  /-- The depth changes as the table says, but a value below the position has moved up. -/
  moved : ins.opcode = .mindex →
    after.length + ins.opcode.stackEffect.pops = before.length + ins.opcode.stackEffect.pushes
  /-- All values are gone. -/
  cleared : ins.opcode = .clear → after = []
  /-- There is one more value for each inline operand. -/
  inline : ins.opcode = .npushb ∨ ins.opcode = .npushw →
    ins.operandValues.length = ins.operandCount ∧ after = ins.operandValues.reverse ++ before
  /-- There is one more zero for each axis. -/
  coordinates : ins.opcode = .getvariation →
    after = List.replicate font.axisCount.toNat 0 ++ before
  /-- A count and so many pairs are gone. The count is not negative, since there is no room in an
  address space of 64 bits for as many values as a negative one asks for. -/
  pairs : ins.opcode ∈ [.deltap1, .deltap2, .deltap3, .deltac1, .deltac2, .deltac3] →
    ∃ n rest, before = n :: rest ∧ 2 * n.location ≤ rest.length ∧
      after = rest.drop (2 * n.location) ∧
        (before.length ≤ addressableCells → 0 ≤ n.toInt ∧ n.location = n.toInt.toNat)
  /-- What the table says is gone, and one value for each turn of the loop counter. -/
  points : ins.opcode.takesPoints = true →
    ins.opcode.stackEffect.pops + loopCounter ≤ before.length ∧
      after = before.drop (ins.opcode.stackEffect.pops + loopCounter)

/-- An instruction that succeeds leaves what its opcode says. -/
theorem leaves_of_execute (hadmits : ins.opcode.admits ins.operands.length)
    (h : ins.execute site w = .ok () w') :
    ins.Leaves site.font w.graphics.loopCounter w.stack.values w'.stack.values := by
  have hrun (op : Operation) (hop : ins.opcode.operation = op) :
      op.execute site ins w = .ok () w' := by
    rw [← hop]
    exact h
  constructor
  case fixed =>
    intro hfixed hmove
    by_cases hcopy : ins.opcode = .cindex
    · have hcases := OperandStack.copyIndexed_cases w.stack
      rw [Workspace.ok_of_onStack (hrun .copyIndexed (by rw [hcopy]; rfl))] at hcases
      obtain ⟨hlength, v, hv⟩ := hcases
      rw [hcopy]
      exact ⟨hlength, [v], rfl, hv⟩
    · have hregular := Opcode.isRegular_of_hasFixedEffect hfixed hcopy hmove
      have hreplaces := Operation.replaces_execute site ins hregular w
      rw [hrun _ rfl, stackEffect_operation,
        pushCount_of_hasFixedEffect hadmits hfixed] at hreplaces
      exact hreplaces
  case moved =>
    intro hmove
    have hcases := OperandStack.moveIndexed_cases w.stack
    rw [Workspace.ok_of_onStack (hrun .moveIndexed (by rw [hmove]; rfl))] at hcases
    rw [hmove]
    exact hcases
  case cleared =>
    intro hclear
    have hstack : OperandStack.clear w.stack = .ok () w'.stack :=
      Workspace.ok_of_onStack (hrun .clear (by rw [hclear]; rfl))
    exact congrArg OperandStack.values (EStateM.Result.ok.inj hstack).2.symm
  case inline =>
    intro hpush
    have hoperation : ins.opcode.operation = .pushOperands := by
      rcases hpush with hpush | hpush <;> rw [hpush] <;> rfl
    exact ⟨ins.length_operandValues,
      OperandStack.values_of_pushAll (Workspace.ok_of_onStack (hrun _ hoperation))⟩
  case coordinates =>
    intro hvariation
    exact OperandStack.values_of_pushTimes
      (Workspace.ok_of_onStack (hrun .getVariation (by rw [hvariation]; rfl)))
  case pairs =>
    intro hpairs
    have hoperation : ins.opcode.operation = .discardPairs := by
      simp only [List.mem_cons, List.not_mem_nil, or_false] at hpairs
      rcases hpairs with h | h | h | h | h | h <;> rw [h] <;> rfl
    obtain ⟨n, rest, hbefore, hle, hafter⟩ :=
      OperandStack.ok_of_discardPairs (Workspace.ok_of_onStack (hrun _ hoperation))
    refine ⟨n, rest, hbefore, hle, hafter, fun haddressable => ?_⟩
    have hnonneg : 0 ≤ n.toInt := by
      by_contra hneg
      have hlarge := Value.lt_location_of_neg (Int.not_le.1 hneg)
      rw [hbefore, List.length_cons] at haddressable
      omega
    exact ⟨hnonneg, Value.location_of_nonneg hnonneg⟩
  case points =>
    intro hpoints
    have hoperation : ins.opcode.operation =
        .discardPoints ins.opcode.stackEffect.pops := by
      revert hpoints
      cases ins.opcode <;> intro hpoints <;> first | rfl | cases hpoints
    exact Operation.ok_of_discardPoints (hrun _ hoperation)

/-- An instruction with a fixed effect misses operands where there are too few, or where a
position selects none of them. -/
theorem missing_of_execute_error {fault : Fault} (hfixed : ins.opcode.hasFixedEffect = true)
    (h : ins.execute site w = .error fault w') :
    (fault = .stackUnderflow ↔ w.stack.values.length < ins.opcode.stackEffect.pops) ∨
      (ins.opcode = .cindex ∨ ins.opcode = .mindex) ∧ fault = .stackUnderflow ∧
        ¬SelectsBelow w.stack.values := by
  have hrun (op : Operation) (hop : ins.opcode.operation = op) :
      op.execute site ins w = .error fault w' := by
    rw [← hop]
    exact h
  by_cases hcopy : ins.opcode = .cindex
  · have hcases := OperandStack.copyIndexed_cases w.stack
    obtain ⟨s, hs, -⟩ := Workspace.error_of_onStack (hrun .copyIndexed (by rw [hcopy]; rfl))
    rw [hs] at hcases
    exact .inr ⟨.inl hcopy, hcases⟩
  by_cases hmove : ins.opcode = .mindex
  · have hcases := OperandStack.moveIndexed_cases w.stack
    obtain ⟨s, hs, -⟩ := Workspace.error_of_onStack (hrun .moveIndexed (by rw [hmove]; rfl))
    rw [hs] at hcases
    exact .inr ⟨.inr hmove, hcases⟩
  have hregular := Opcode.isRegular_of_hasFixedEffect hfixed hcopy hmove
  have hreplaces := Operation.replaces_execute site ins hregular w
  rw [hrun _ rfl, stackEffect_operation] at hreplaces
  exact .inl hreplaces

/-- The instructions of a parsed program leave what their opcodes say, wherever they are
executed. -/
theorem leaves_of_mem_parse {bytes : List UInt8} {program : Array Instruction}
    (hprogram : parse bytes = .ok program) (hins : ins ∈ program)
    (h : ins.execute site w = .ok () w') :
    ins.Leaves site.font w.graphics.loopCounter w.stack.values w'.stack.values :=
  leaves_of_execute (admits_of_parse hprogram hins) h

/-- The table of stack effects and the operations agree, for every instruction that has the
inline operands that its opcode admits. An instruction with a fixed effect fails for want of
operands if there are fewer than it takes, and otherwise only where it takes a position that
selects nothing. Every instruction that succeeds leaves what its opcode says. -/
theorem execute_follows_stackEffect (hadmits : ins.opcode.admits ins.operands.length)
    (site : Site) (w : Workspace) :
    (ins.opcode.hasFixedEffect = true →
      (w.stack.values.length < ins.opcode.stackEffect.pops →
        ∃ w', ins.execute site w = .error .stackUnderflow w') ∧
      ∀ w', ins.opcode.stackEffect.pops ≤ w.stack.values.length →
        ins.execute site w = .error .stackUnderflow w' →
          (ins.opcode = .cindex ∨ ins.opcode = .mindex) ∧ ¬SelectsBelow w.stack.values) ∧
    ∀ w', ins.execute site w = .ok () w' →
      ins.Leaves site.font w.graphics.loopCounter w.stack.values w'.stack.values := by
  refine ⟨fun hfixed => ⟨fun hshort => ?_, fun w' henough hfails => ?_⟩,
    fun w' => leaves_of_execute hadmits⟩
  · cases hr : ins.execute site w with
    | ok _ w' =>
        have hleaves := leaves_of_execute hadmits hr
        by_cases hmove : ins.opcode = .mindex
        · have hlength := hleaves.moved hmove
          have hpushes : ins.opcode.stackEffect.pushes = 0 := by rw [hmove]; rfl
          omega
        · exact absurd (hleaves.fixed hfixed hmove).1 (Nat.not_le.2 hshort)
    | error fault w' =>
        rcases missing_of_execute_error hfixed hr with hiff | ⟨-, hfault, -⟩
        · exact ⟨w', by rw [hiff.2 hshort]⟩
        · exact ⟨w', by rw [hfault]⟩
  · rcases missing_of_execute_error hfixed hfails with hiff | ⟨hop, -, hselects⟩
    · exact absurd (hiff.1 rfl) (Nat.not_lt.2 henough)
    · exact ⟨hop, hselects⟩

/-- A workspace with the given values on a stack without a limit, and with no memory. -/
def bareWorkspace (values : List Value) : Workspace :=
  { stack := { values, limit := none }, storage := .zeros 0, cvt := .zeros 0 }

/-- A site at the start of an empty sequence. -/
def bareSite : Site :=
  { font := ({} : Options).toFontInstance, sequence := #[], index := 0 }

/-- A list of one pair leaves what was below it. A copy of the third value fails where there are
only two. -/
theorem execute_follows_stackEffect_bareWorkspace :
    (∃ w', (⟨.deltap1, [], 0⟩ : Instruction).execute bareSite (bareWorkspace [1, 4, 5, 6]) =
        .ok () w' ∧ w'.stack.values = [6]) ∧
      (∃ w', (⟨.cindex, [], 0⟩ : Instruction).execute bareSite (bareWorkspace [3, 8, 9]) =
        .error .stackUnderflow w') ∧ ¬SelectsBelow [3, 8, 9] := by
  obtain ⟨-, hpairs⟩ :=
    @execute_follows_stackEffect ⟨.deltap1, [], 0⟩ (by decide) bareSite
      (bareWorkspace [1, 4, 5, 6])
  obtain ⟨hcopy, -⟩ :=
    @execute_follows_stackEffect ⟨.cindex, [], 0⟩ (by decide) bareSite (bareWorkspace [3, 8, 9])
  have hok : (⟨.deltap1, [], 0⟩ : Instruction).execute bareSite (bareWorkspace [1, 4, 5, 6]) =
      .ok () (bareWorkspace [6]) := rfl
  have hfails : (⟨.cindex, [], 0⟩ : Instruction).execute bareSite (bareWorkspace [3, 8, 9]) =
      .error .stackUnderflow (bareWorkspace [3, 8, 9]) := rfl
  obtain ⟨n, rest, hbefore, -, hafter, -⟩ := (hpairs _ hok).pairs (by decide)
  obtain ⟨rfl, rfl⟩ := List.cons.inj hbefore
  exact ⟨⟨_, hok, hafter⟩, ⟨_, hfails⟩, ((hcopy rfl).2 _ (by decide) hfails).2⟩

end Instruction

end GridFit
