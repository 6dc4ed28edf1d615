import GridFit.Proofs.Operation.Jump

/-!
# Parts of the workspace

Apart from the operand stack and the jump that it may ask for, an operation is there to
change one part of the workspace or none: one of the memories, the rounding or the loop
counter. It leaves all other parts alone, also where it fails.
-/

namespace GridFit

/-- The cells of a memory of a workspace. -/
def Workspace.cells (w : Workspace) : (area : Area) → Cells area
  | .storage => w.storage
  | .cvt => w.cvt

/-- The workspace with other cells in one of its memories. -/
def Workspace.withCells (w : Workspace) : (area : Area) → Cells area → Workspace
  | .storage, c => { w with storage := c }
  | .cvt, c => { w with cvt := c }

/-- The parts of a workspace apart from the operand stack and the jump that is asked for. -/
inductive Part where
  /-- One of the memories. -/
  | memory (area : Area)
  /-- The parameters of rounding. -/
  | round
  /-- The loop counter. -/
  | loopCounter
deriving DecidableEq, Repr

namespace Part

/-- What a part consists of. -/
def Content : Part → Type
  | memory area => Cells area
  | round => RoundState
  | loopCounter => Nat

/-- The content of a part of a workspace. -/
def content : (part : Part) → Workspace → part.Content
  | memory area, w => w.cells area
  | round, w => w.graphics.round
  | loopCounter, w => w.graphics.loopCounter

/-- The opcodes that are there to change a part. -/
def IsChangedBy : Part → Opcode → Prop
  | memory .storage, op => op = .ws
  | memory .cvt, op => op = .wcvtp ∨ op = .wcvtf
  | round, op => op ∈ [.rtg, .rthg, .rtdg, .rdtg, .rutg, .roff, .sround, .s45round]
  | loopCounter, op => op = .sloop ∨ op.takesPoints = true

theorem content_withStack (part : Part) (w : Workspace) (s : OperandStack) :
    part.content { w with stack := s } = part.content w := by
  rcases part with (_ | _) | _ | _ <;> rfl

theorem content_withJump (part : Part) (w : Workspace) (jump : Value) :
    part.content { w with requestedJump := jump } = part.content w := by
  rcases part with (_ | _) | _ | _ <;> rfl

theorem content_withStorage {part : Part} (hpart : part ≠ .memory .storage) (w : Workspace)
    (c : Cells .storage) : part.content { w with storage := c } = part.content w := by
  rcases part with (_ | _) | _ | _
  · exact absurd rfl hpart
  all_goals rfl

theorem content_withCvt {part : Part} (hpart : part ≠ .memory .cvt) (w : Workspace)
    (c : Cells .cvt) : part.content { w with cvt := c } = part.content w := by
  rcases part with (_ | _) | _ | _
  · rfl
  · exact absurd rfl hpart
  all_goals rfl

theorem content_withRound {part : Part} (hpart : part ≠ .round) (w : Workspace)
    (r : RoundState) :
    part.content { w with graphics := { w.graphics with round := r } } = part.content w := by
  rcases part with (_ | _) | _ | _
  · rfl
  · rfl
  · exact absurd rfl hpart
  · rfl

theorem content_withLoopCounter {part : Part} (hpart : part ≠ .loopCounter) (w : Workspace)
    (n : Nat) :
    part.content { w with graphics := { w.graphics with loopCounter := n } } =
      part.content w := by
  rcases part with (_ | _) | _ | _
  · rfl
  · rfl
  · rfl
  · exact absurd rfl hpart

end Part

/-- The part of a workspace that an operation is there to change. -/
def Operation.target? : Operation → Option Part
  | .writeStorage => some (.memory .storage)
  | .writeCvtPixels | .writeCvtUnits => some (.memory .cvt)
  | .setRoundMode _ | .configureRound _ _ => some .round
  | .setLoop | .discardPoints _ => some .loopCounter
  | _ => none

/-- The opcodes whose operations are there to change a part. -/
theorem Opcode.isChangedBy_of_target {op : Opcode} {part : Part}
    (h : op.operation.target? = some part) : part.IsChangedBy op := by
  cases op <;> first | (cases h; done) | (cases h; simp [Part.IsChangedBy, takesPoints])

namespace Workspace

variable {part : Part}

theorem keeps_content_onStack {α : Type} (x : StackM α) : Keeps part.content (onStack x) :=
  keeps_onStack part.content_withStack x

theorem keeps_content_storeStorage (hpart : part ≠ .memory .storage) :
    Keeps part.content storeStorage :=
  .bind (keeps_content_onStack _) fun _ => .bind (keeps_content_onStack _) fun _ =>
    keeps_onStorage (Part.content_withStorage hpart) _

theorem keeps_content_storeCvt (hpart : part ≠ .memory .cvt) (f : Value → Value) :
    Keeps part.content (storeCvt f) :=
  .bind (keeps_content_onStack _) fun _ => .bind (keeps_content_onStack _) fun _ =>
    keeps_onCvt (Part.content_withCvt hpart) _

theorem keeps_content_putLoop (hpart : part ≠ .loopCounter) (n : Nat) :
    Keeps part.content (putLoop n) :=
  .modify fun w => Part.content_withLoopCounter hpart w n

theorem keeps_content_setLoop (hpart : part ≠ .loopCounter) : Keeps part.content setLoop := by
  refine .bind (keeps_content_onStack _) fun n => ?_
  split
  · exact .throw _
  · exact keeps_content_putLoop hpart _

theorem keeps_content_jump (site : Site) (test : JumpTest) :
    Keeps part.content (jump site test) := by
  have hrequest (offset : Value) : Keeps part.content (requestJump offset) :=
    .modify fun w => part.content_withJump w offset
  refine .bind (keeps_content_onStack _) fun taken =>
    .bind (keeps_content_onStack _) fun offset => ?_
  split
  · unfold jumpBy
    split
    · exact hrequest _
    · split
      · exact hrequest _
      · exact .throw _
  · exact .pure ()

end Workspace

open Workspace in
/-- An operation leaves every part alone that it is not there to change. -/
theorem Operation.keeps_content (site : Site) (ins : Instruction) {op : Operation} {part : Part}
    (hop : op.target? ≠ some part) : Keeps part.content (op.execute site ins) := by
  have hne {target : Part} (htarget : op.target? = some target) : part ≠ target := by
    rintro rfl
    exact hop htarget
  cases op with
  | unary op => exact .bind .get fun w => keeps_content_onStack _
  | readStorage =>
      exact .bind (keeps_content_onStack _) fun _ => .bind .get fun _ =>
        .bind (.attempt _) fun _ => keeps_content_onStack _
  | readCvt =>
      exact .bind (keeps_content_onStack _) fun _ => .bind .get fun _ =>
        .bind (.attempt _) fun _ => keeps_content_onStack _
  | writeStorage => exact keeps_content_storeStorage (hne rfl)
  | writeCvtPixels => exact keeps_content_storeCvt (hne rfl) _
  | writeCvtUnits => exact keeps_content_storeCvt (hne rfl) _
  | setRoundMode mode => exact .modify fun w => Part.content_withRound (hne rfl) w _
  | configureRound mode gridPeriod =>
      exact .bind (keeps_content_onStack _) fun _ =>
        .modify fun w => Part.content_withRound (hne rfl) w _
  | setLoop => exact keeps_content_setLoop (hne rfl)
  | discardPoints pops =>
      exact .bind (keeps_content_onStack _) fun _ => .bind .get fun _ =>
        .bind (keeps_content_putLoop (hne rfl) 1) fun _ => keeps_content_onStack _
  | jump test => exact keeps_content_jump site test
  | clear => exact keeps_content_onStack OperandStack.clear
  | depth => exact keeps_content_onStack fun s => OperandStack.push (Int32.ofNat s.depth) s
  | _ => exact keeps_content_onStack _

/-! ## The loop counter -/

namespace Workspace

variable {w : Workspace}

theorem loopCounter_onStack {α : Type} (x : StackM α) (w : Workspace) :
    (finalState (onStack x w)).graphics.loopCounter = w.graphics.loopCounter :=
  @Workspace.keeps_content_onStack .loopCounter _ x w

theorem loopCounter_setLoop_le (h : w.graphics.loopCounter ≤ 0xFFFF) :
    (finalState (setLoop w)).graphics.loopCounter ≤ 0xFFFF := by
  have hpop := loopCounter_onStack OperandStack.pop w
  simp only [setLoop, bind_apply]
  cases hr : onStack OperandStack.pop w with
  | error fault w₁ =>
      rw [hr, finalState_error] at hpop
      rw [finalState_error, hpop]
      exact h
  | ok n w₁ =>
      rw [hr, finalState_ok] at hpop
      simp only
      split
      · rw [throw_apply, finalState_error, hpop]
        exact h
      · exact Nat.min_le_right _ _

theorem loopCounter_discardPoints_le (pops : Nat) (h : w.graphics.loopCounter ≤ 0xFFFF) :
    (finalState ((onStack (OperandStack.popMany pops) >>= fun _ => discardPoints) w)
      ).graphics.loopCounter ≤ 0xFFFF := by
  have hpops := loopCounter_onStack (OperandStack.popMany pops) w
  rw [bind_apply]
  cases hr : onStack (OperandStack.popMany pops) w with
  | error fault w₁ =>
      rw [hr, finalState_error] at hpops
      rw [finalState_error, hpops]
      exact h
  | ok _ w₁ =>
      -- The counter is one again before the points are discarded.
      calc
        (finalState (discardPoints w₁)).graphics.loopCounter = 1 := loopCounter_onStack _ _
        _ ≤ 0xFFFF := by decide

end Workspace

/-- The loop counter never needs more than 16 bits. -/
theorem Operation.loopCounter_execute_le (site : Site) (ins : Instruction) (op : Operation)
    {w : Workspace} (h : w.graphics.loopCounter ≤ 0xFFFF) :
    (finalState (op.execute site ins w)).graphics.loopCounter ≤ 0xFFFF := by
  by_cases hop : op.target? = some .loopCounter
  · cases op with
    | setLoop => exact Workspace.loopCounter_setLoop_le h
    | discardPoints pops => exact Workspace.loopCounter_discardPoints_le pops h
    | _ => cases hop
  · have hkept : (finalState (op.execute site ins w)).graphics.loopCounter =
        w.graphics.loopCounter := keeps_content site ins hop w
    rw [hkept]
    exact h

end GridFit
