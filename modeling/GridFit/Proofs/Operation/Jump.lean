import GridFit.Operation.Execute
import GridFit.Proofs.Computation

/-!
# Jump requests of operations

Only jumps ask for a jump, and only where they succeed. A jump that is taken forward
asks for the distance between its own position and the one that its site names.
-/

namespace GridFit

namespace Workspace

variable {α γ : Type} {part : Workspace → γ}

theorem keeps_onStack (hpart : ∀ w s, part { w with stack := s } = part w) (x : StackM α) :
    Keeps part (onStack x) := by
  intro w
  simp only [onStack]
  cases x w.stack with
  | ok a s => exact hpart w s
  | error fault s => exact hpart w s

theorem keeps_onStorage (hpart : ∀ w c, part { w with storage := c } = part w)
    (x : EStateM Fault (Cells .storage) α) : Keeps part (onStorage x) := by
  intro w
  simp only [onStorage]
  cases x w.storage with
  | ok a c => exact hpart w c
  | error fault c => exact hpart w c

theorem keeps_onCvt (hpart : ∀ w c, part { w with cvt := c } = part w)
    (x : EStateM Fault (Cells .cvt) α) : Keeps part (onCvt x) := by
  intro w
  simp only [onCvt]
  cases x w.cvt with
  | ok a c => exact hpart w c
  | error fault c => exact hpart w c

/-- The workspace without the topmost `n` operands. -/
def popped (w : Workspace) (n : Nat) : Workspace :=
  { w with stack := w.stack.drop n }

end Workspace

/-! ## Operations that do not jump -/

open Workspace in
/-- An operation that is no jump keeps the jump that was asked for before. -/
theorem Operation.keeps_requestedJump (site : Site) (ins : Instruction) {op : Operation}
    (hop : ∀ test, op ≠ .jump test) :
    Keeps Workspace.requestedJump (op.execute site ins) := by
  have hstack {α : Type} (x : StackM α) : Keeps Workspace.requestedJump (onStack x) :=
    keeps_onStack (fun _ _ => rfl) x
  cases op with
  | jump test => exact absurd rfl (hop test)
  | unary op => exact .bind .get fun w => hstack _
  | readStorage =>
      exact .bind (hstack _) fun _ => .bind .get fun _ => .bind (.attempt _) fun _ => hstack _
  | writeStorage =>
      exact .bind (hstack _) fun _ => .bind (hstack _) fun _ =>
        keeps_onStorage (fun _ _ => rfl) _
  | readCvt =>
      exact .bind (hstack _) fun _ => .bind .get fun _ => .bind (.attempt _) fun _ => hstack _
  | writeCvtPixels =>
      exact .bind (hstack _) fun _ => .bind (hstack _) fun _ => keeps_onCvt (fun _ _ => rfl) _
  | writeCvtUnits =>
      exact .bind (hstack _) fun _ => .bind (hstack _) fun _ => keeps_onCvt (fun _ _ => rfl) _
  | setRoundMode mode => exact .modify fun _ => rfl
  | configureRound mode gridPeriod => exact .bind (hstack _) fun _ => .modify fun _ => rfl
  | setLoop =>
      refine .bind (hstack _) fun n => ?_
      split
      · exact .throw _
      · exact .modify fun _ => rfl
  | discardPoints pops =>
      exact .bind (hstack _) fun _ => .bind .get fun _ =>
        .bind (.modify fun _ => rfl) fun _ => hstack _
  | clear => exact hstack OperandStack.clear
  | depth => exact hstack fun s => OperandStack.push (Int32.ofNat s.depth) s
  | _ => exact hstack _

/-- An operation that is no jump does not depend on where it stands. -/
theorem Operation.execute_congr (site other : Site) (hfont : site.font = other.font)
    (ins : Instruction) {op : Operation} (hop : ∀ test, op ≠ .jump test) :
    op.execute site ins = op.execute other ins := by
  cases op with
  | jump test => exact absurd rfl (hop test)
  | _ => simp only [execute, hfont]

/-- The opcodes that jump. -/
theorem Opcode.mem_of_operation_eq_jump {op : Opcode} {test : JumpTest}
    (h : op.operation = .jump test) : op ∈ [jmpr, jrot, jrof] := by
  cases op with
  | jmpr => exact .head _
  | jrot => exact .tail _ (.head _)
  | jrof => exact .tail _ (.tail _ (.head _))
  | _ => cases h

/-! ## Jumps -/

/-- The offset by which an opcode jumps with the given operands, topmost first, if it is
a jump and is taken. -/
def Opcode.takenOffset? : Opcode → List Value → Option Value
  | jmpr, offset :: _ => some offset
  | jrot, e :: offset :: _ => if e = 0 then none else some offset
  | jrof, e :: offset :: _ => if e = 0 then some offset else none
  | _, _ => none

namespace Workspace

variable {site : Site} {w : Workspace} {offset : Value}

@[simp] theorem values_popped (w : Workspace) (n : Nat) :
    (w.popped n).stack.values = w.stack.values.drop n := rfl

@[simp] theorem popped_popped (w : Workspace) (n k : Nat) :
    (w.popped n).popped k = w.popped (n + k) := by
  simp [popped, OperandStack.drop, Nat.sub_sub, List.drop_drop]

@[simp] theorem onStack_pure {α : Type} (a : α) : onStack (pure a) w = .ok a w := rfl

theorem onStack_bind {α β : Type} (x : StackM α) (f : α → StackM β) :
    onStack (x >>= f) w = (onStack x >>= fun a => onStack (f a)) w := by
  simp only [onStack, bind_apply]
  cases x w.stack <;> rfl

theorem onStack_pop_cons {v : Value} {rest : List Value} (h : w.stack.values = v :: rest) :
    onStack OperandStack.pop w = .ok v (w.popped 1) := by
  simp [onStack, OperandStack.pop, OperandStack.top?, h, popped]

/-- A forward jump asks for the distance to the position that its site names. -/
theorem jumpBy_forward (h : 0 < offset) :
    jumpBy site offset w = match site.target? offset.toInt.toNat with
      | some target =>
          .ok () { w with requestedJump := Int32.ofNat target - Int32.ofNat site.index }
      | none => .error .invalidJump w := by
  have hpos : ¬offset ≤ 0 := Int32.not_le.2 h
  simp only [jumpBy, hpos, if_false]
  cases site.target? offset.toInt.toNat <;> rfl

/-- A jump that fails asks for nothing. -/
theorem requestedJump_of_jumpBy_error {fault : Fault} {w' : Workspace}
    (h : jumpBy site offset w = .error fault w') : w'.requestedJump = w.requestedJump := by
  by_cases hpos : offset ≤ 0
  · simp [jumpBy, hpos, requestJump] at h
  · rw [jumpBy_forward (Int32.not_le.1 hpos)] at h
    split at h
    · cases h
    · cases h
      rfl

theorem jump_always {rest : List Value} (hvalues : w.stack.values = offset :: rest) :
    jump site .always w = jumpBy site offset (w.popped 1) := by
  simp only [jump, JumpTest.isTaken, bind_apply, onStack_pure, onStack_pop_cons hvalues, if_true]

/-- A jump with a test pops what the test looks at, and then its offset. -/
theorem jump_tested {test : JumpTest} {e : Value} {rest : List Value} {holds : Value → Bool}
    (htest : test.isTaken = do return holds (← OperandStack.pop))
    (hvalues : w.stack.values = e :: offset :: rest) :
    jump site test w =
      if holds e then jumpBy site offset (w.popped 2) else .ok () (w.popped 2) := by
  have hnext : (w.popped 1).stack.values = offset :: rest := by simp [hvalues]
  simp only [jump, htest, bind_apply, onStack_bind, onStack_pure, onStack_pop_cons hvalues,
    onStack_pop_cons hnext, popped_popped]
  cases holds e <;> rfl

/-- A jump asks for nothing if it fails, whether its operands or its target are missing. -/
theorem requestedJump_of_jump_error {test : JumpTest} {fault : Fault} {w' : Workspace}
    (h : jump site test w = .error fault w') : w'.requestedJump = w.requestedJump := by
  have hstack {α : Type} (x : StackM α) : Keeps requestedJump (onStack x) :=
    keeps_onStack (fun _ _ => rfl) x
  simp only [jump, bind_apply] at h
  have htest := hstack test.isTaken w
  cases hx : onStack test.isTaken w with
  | error fault₁ w₁ =>
      rw [hx] at h htest
      cases h
      exact htest
  | ok taken w₁ =>
      rw [hx] at h htest
      have hpop := hstack OperandStack.pop w₁
      simp only at h
      cases hy : onStack OperandStack.pop w₁ with
      | error fault₂ w₂ =>
          rw [hy] at h hpop
          cases h
          exact hpop.trans htest
      | ok offset w₂ =>
          rw [hy] at h hpop
          simp only at h
          split at h
          · exact (requestedJump_of_jumpBy_error h).trans (hpop.trans htest)
          · cases h

end Workspace

theorem Instruction.execute_jump {ins : Instruction} {site : Site} {test : JumpTest}
    (h : ins.opcode.operation = .jump test) : ins.execute site = Workspace.jump site test := by
  rw [execute, h, Operation.execute]

/-- A jump that is taken pops its operands and then jumps by its offset. -/
theorem Instruction.execute_of_takenOffset? {ins : Instruction} (site : Site) {w : Workspace}
    {offset : Value} (h : ins.opcode.takenOffset? w.stack.values = some offset) :
    ins.execute site w =
      Workspace.jumpBy site offset (w.popped ins.opcode.stackEffect.pops) := by
  unfold Opcode.takenOffset? at h
  split at h
  · next values o rest hop hvalues =>
      cases h
      have hoperation : ins.opcode.operation = .jump .always := by
        rw [hop]
        rfl
      rw [execute_jump hoperation, Workspace.jump_always hvalues, hop]
      rfl
  · next values e o rest hop hvalues =>
      rw [execute_jump (by rw [hop]; rfl), Workspace.jump_tested rfl hvalues, hop]
      simp_all [Opcode.stackEffect]
  · next values e o rest hop hvalues =>
      rw [execute_jump (by rw [hop]; rfl), Workspace.jump_tested rfl hvalues, hop]
      simp_all [Opcode.stackEffect]
  · cases h

/-- A jump that has its operands and is not taken only pops them. -/
theorem Instruction.execute_of_untaken {ins : Instruction} (site : Site) {w : Workspace}
    {test : JumpTest} (hjump : ins.opcode.operation = .jump test)
    (hoperands : ins.opcode.stackEffect.pops ≤ w.stack.values.length)
    (h : ins.opcode.takenOffset? w.stack.values = none) :
    ins.execute site w = .ok () (w.popped ins.opcode.stackEffect.pops) := by
  have hop := Opcode.mem_of_operation_eq_jump hjump
  simp only [List.mem_cons, List.not_mem_nil, or_false] at hop
  have htwo : ins.opcode.stackEffect.pops = 2 →
      ∃ e offset rest, w.stack.values = e :: offset :: rest := by
    intro htwo
    rw [htwo] at hoperands
    match w.stack.values, hoperands with
    | e :: offset :: rest, _ => exact ⟨e, offset, rest, rfl⟩
  rcases hop with hop | hop | hop
  · -- A jump without a test is untaken only if its offset is missing.
    rw [hop] at hoperands h
    cases hvalues : w.stack.values with
    | nil =>
        rw [hvalues] at hoperands
        cases hoperands
    | cons offset rest =>
        rw [hvalues] at h
        cases h
  · obtain ⟨e, offset, rest, hvalues⟩ := htwo (by rw [hop]; rfl)
    rw [execute_jump (by rw [hop]; rfl), Workspace.jump_tested rfl hvalues, hop]
    simp_all [Opcode.takenOffset?, Opcode.stackEffect]
  · obtain ⟨e, offset, rest, hvalues⟩ := htwo (by rw [hop]; rfl)
    rw [execute_jump (by rw [hop]; rfl), Workspace.jump_tested rfl hvalues, hop]
    simp_all [Opcode.takenOffset?, Opcode.stackEffect]

/-- An operation that fails asks for no jump. -/
theorem Operation.requestedJump_of_error {site : Site} {ins : Instruction} {op : Operation}
    {w w' : Workspace} {fault : Fault} (h : op.execute site ins w = .error fault w') :
    w'.requestedJump = w.requestedJump := by
  by_cases hop : ∃ test, op = .jump test
  · obtain ⟨test, rfl⟩ := hop
    exact Workspace.requestedJump_of_jump_error h
  · have hkeeps := keeps_requestedJump site ins (fun test heq => hop ⟨test, heq⟩) w
    simpa [h] using hkeeps

end GridFit
