import GridFit.Proofs.Operation.Memory
import GridFit.Proofs.Operation.Replacement

/-!
# What a failing operation leaves behind

Operations check what they pop before they write anything. So where one fails, the workspace is
the old one without some of its topmost operands. Two kinds of operations are different: those
that push several values one after the other leave the first of them there, and those that take
points have used up the loop counter.

## Implementation notes

A computation is followed as long as it only takes operands, and what comes after that is asked
for failures only.
-/

namespace GridFit

variable {α β : Type}

namespace OperandStack

variable {s t : OperandStack}

theorem append_nil (s : OperandStack) : s.append [] = s :=
  ext rfl rfl

theorem append_cons (s : OperandStack) (v : Value) (vs : List Value) :
    s.append (v :: vs) = (s.cons v).append vs :=
  ext rfl rfl

theorem error_of_push {v : Value} {fault : Fault} (h : push v s = .error fault t) :
    fault = .stackOverflow ∧ t = s := by
  unfold push at h
  split at h <;> cases h
  exact ⟨rfl, rfl⟩

/-- If more pushes follow a push, some may have been done before there is no room left. -/
theorem error_of_push_bind {v : Value} {n : Nat} {x : StackM Unit} {fault : Fault}
    (hx : ∀ {s}, x s = .error fault t →
      fault = .stackOverflow ∧ ∃ vs : List Value, vs.length < n ∧ t = s.append vs)
    (h : (push v >>= fun _ => x) s = .error fault t) :
    fault = .stackOverflow ∧ ∃ vs : List Value, vs.length < n + 1 ∧ t = s.append vs := by
  rw [bind_apply] at h
  cases hr : push v s with
  | error fault' u =>
      rw [hr] at h
      cases h
      obtain ⟨hfault, ht⟩ := error_of_push hr
      exact ⟨hfault, [], Nat.succ_pos n, ht.trans s.append_nil.symm⟩
  | ok _ u =>
      obtain rfl : u = s.cons v := by
        unfold push at hr
        split at hr <;> cases hr
        rfl
      rw [hr] at h
      obtain ⟨hfault, vs, hlength, ht⟩ := hx h
      exact ⟨hfault, v :: vs, Nat.succ_lt_succ hlength, ht.trans (s.append_cons v vs).symm⟩

theorem error_of_pushTimes {v : Value} {n : Nat} {fault : Fault}
    (h : pushTimes v n s = .error fault t) :
    fault = .stackOverflow ∧ ∃ vs : List Value, vs.length < n ∧ t = s.append vs := by
  induction n generalizing s with
  | zero => cases h
  | succ n ih => exact error_of_push_bind ih h

end OperandStack

namespace Workspace

@[simp] theorem popped_zero (w : Workspace) : w.popped 0 = w := by
  simp [popped]

/-- A computation that takes operands and does nothing else, whether or not it fails. -/
def Takes (x : WorkM α) : Prop :=
  ∀ w, ∃ n, finalState (x w) = w.popped n

/-- A computation that has taken operands and done nothing else if it fails. -/
def FailsTaking (x : WorkM α) : Prop :=
  ∀ w fault w', x w = .error fault w' → ∃ n, w' = w.popped n

namespace Takes

theorem pure (a : α) : Takes (Pure.pure a : WorkM α) :=
  fun w => ⟨0, w.popped_zero.symm⟩

theorem get : Takes (MonadState.get : WorkM Workspace) :=
  fun w => ⟨0, w.popped_zero.symm⟩

theorem throw (fault : Fault) : Takes (MonadExcept.throw fault : WorkM α) :=
  fun w => ⟨0, w.popped_zero.symm⟩

theorem attempt (r : Except Fault α) : Takes (GridFit.attempt r : WorkM α) := by
  intro w
  cases r with
  | ok a => exact ⟨0, w.popped_zero.symm⟩
  | error fault => exact ⟨0, w.popped_zero.symm⟩

/-- What pops takes operands. -/
theorem onStack {n : Nat} {x : StackM α} (hx : Pops id n x) : Takes (onStack x) := by
  intro w
  have hxs := hx w.stack
  unfold Workspace.onStack
  cases hr : x w.stack with
  | ok a s =>
      rw [hr] at hxs
      obtain ⟨-, hs⟩ := hxs
      exact ⟨n, congrArg (fun stack => { w with stack }) hs⟩
  | error fault s =>
      rw [hr] at hxs
      obtain ⟨-, -, k, hs⟩ := hxs
      exact ⟨k, congrArg (fun stack => { w with stack }) hs⟩

theorem failsTaking {x : WorkM α} (hx : Takes x) : FailsTaking x := by
  intro w fault w' h
  obtain ⟨n, hn⟩ := hx w
  rw [h] at hn
  exact ⟨n, hn⟩

end Takes

namespace FailsTaking

/-- What only fails after it has taken operands can be followed by what does. -/
theorem bind {x : WorkM α} {f : α → WorkM β} (hx : Takes x) (hf : ∀ a, FailsTaking (f a)) :
    FailsTaking (x >>= f) := by
  intro w fault w' h
  obtain ⟨n, hn⟩ := hx w
  rw [bind_apply] at h
  cases hr : x w with
  | ok a w₁ =>
      rw [hr] at h hn
      obtain rfl : w₁ = w.popped n := hn
      obtain ⟨k, hk⟩ := hf a _ _ _ h
      exact ⟨n + k, hk.trans (popped_popped w n k)⟩
  | error fault₁ w₁ =>
      rw [hr] at h hn
      cases h
      exact ⟨n, hn⟩

theorem modify (f : Workspace → Workspace) : FailsTaking (modify f : WorkM Unit) :=
  fun _ _ _ h => nomatch h

/-- A computation on the stack that leaves it alone if it fails. -/
theorem onStack {x : StackM α} (hx : ∀ s fault t, x s = .error fault t → t = s) :
    FailsTaking (onStack x) := by
  intro w fault w' h
  obtain ⟨s, hs, rfl⟩ := error_of_onStack h
  rw [hx _ _ _ hs]
  exact ⟨0, w.popped_zero.symm⟩

/-- After operands have been taken from the stack, a computation goes on there. -/
theorem onStack_bind {n : Nat} {x : StackM α} {f : α → StackM β} (hx : Pops id n x)
    (hf : ∀ a, FailsTaking (Workspace.onStack (f a))) :
    FailsTaking (Workspace.onStack (x >>= f)) := by
  intro w
  rw [Workspace.onStack_bind]
  exact FailsTaking.bind (.onStack hx) hf w

/-- Whether or not there is a result to go on with, the stack is left alone before. -/
theorem onStack_attempt {r : Except Fault α} {f : α → StackM β}
    (hf : ∀ a, FailsTaking (Workspace.onStack (f a))) :
    FailsTaking (Workspace.onStack (GridFit.attempt r >>= f)) := by
  cases r with
  | ok a => exact hf a
  | error fault =>
      refine onStack fun s fault' t h => ?_
      cases h
      rfl

end FailsTaking

/-! ## Operations on the stack -/

theorem failsTaking_push (v : Value) : FailsTaking (onStack (OperandStack.push v)) :=
  .onStack fun _ _ _ h => (OperandStack.error_of_push h).2

theorem failsTaking_pushAll (vs : List Value) :
    FailsTaking (onStack (OperandStack.pushAll vs)) := by
  refine .onStack fun s fault t h => ?_
  unfold OperandStack.pushAll at h
  split at h <;> cases h
  rfl

theorem failsTaking_popMany (n : Nat) : FailsTaking (onStack (OperandStack.popMany n)) :=
  (Takes.onStack (OperandStack.pops_popMany n)).failsTaking

theorem failsTaking_clear : FailsTaking (onStack OperandStack.clear) :=
  .onStack fun _ _ _ h => nomatch h

theorem failsTaking_dup : FailsTaking (onStack OperandStack.dup) := by
  refine .onStack fun s fault t h => ?_
  unfold OperandStack.dup at h
  split at h
  · exact (OperandStack.error_of_push h).2
  · cases h
    rfl

theorem failsTaking_swap : FailsTaking (onStack OperandStack.swap) := by
  refine .onStack fun s fault t h => ?_
  unfold OperandStack.swap at h
  split at h <;> cases h
  rfl

theorem failsTaking_roll : FailsTaking (onStack OperandStack.roll) := by
  refine .onStack fun s fault t h => ?_
  unfold OperandStack.roll at h
  split at h <;> cases h
  rfl

theorem failsTaking_copyIndexed : FailsTaking (onStack OperandStack.copyIndexed) := by
  refine .onStack fun s fault t h => ?_
  unfold OperandStack.copyIndexed at h
  split at h
  · split at h
    · cases h
      rfl
    · split at h <;> cases h
      rfl
  · cases h
    rfl

theorem failsTaking_moveIndexed : FailsTaking (onStack OperandStack.moveIndexed) := by
  refine .onStack_bind OperandStack.pops_popLocation fun position => .onStack fun s fault t h => ?_
  cases position with
  | zero =>
      cases h
      rfl
  | succ i =>
      simp only at h
      split at h <;> cases h
      rfl

theorem failsTaking_discardPairs : FailsTaking (onStack OperandStack.discardPairs) :=
  .onStack_bind OperandStack.pops_popLocation fun n => failsTaking_popMany (2 * n)

theorem failsTaking_applyUnary (f : Value → Except Fault Value) :
    FailsTaking (onStack (OperandStack.applyUnary f)) :=
  .onStack_bind OperandStack.pops_pop fun _ => .onStack_attempt failsTaking_push

theorem failsTaking_applyBinary (f : Value → Value → Except Fault Value) :
    FailsTaking (onStack (OperandStack.applyBinary f)) :=
  .onStack_bind OperandStack.pops_pop fun _ => .onStack_bind OperandStack.pops_pop fun _ =>
    .onStack_attempt failsTaking_push

/-- Where only one value is pushed, none is there if it fails. -/
theorem failsTaking_pushTimes (v : Value) {n : Nat} (hn : n ≤ 1) :
    FailsTaking (onStack (OperandStack.pushTimes v n)) := by
  refine .onStack fun s fault t h => ?_
  obtain ⟨-, vs, hlength, rfl⟩ := OperandStack.error_of_pushTimes h
  obtain rfl : vs = [] := List.length_eq_zero_iff.1 (by omega)
  exact s.append_nil

/-! ## Operations on the workspace -/

theorem failsTaking_loadStorage : FailsTaking loadStorage :=
  .bind (.onStack OperandStack.pops_popLocation) fun _ => .bind .get fun _ =>
    .bind (.attempt _) fun v => failsTaking_push v

theorem failsTaking_loadCvt : FailsTaking loadCvt :=
  .bind (.onStack OperandStack.pops_popLocation) fun _ => .bind .get fun _ =>
    .bind (.attempt _) fun v => failsTaking_push v

theorem failsTaking_storeStorage : FailsTaking storeStorage := by
  refine .bind (.onStack OperandStack.pops_pop) fun v =>
    .bind (.onStack OperandStack.pops_popLocation) fun location w fault w' h => ?_
  rw [onStorage_put] at h
  split at h <;> cases h
  exact ⟨0, w.popped_zero.symm⟩

theorem failsTaking_storeCvt (f : Value → Value) : FailsTaking (storeCvt f) := by
  refine .bind (.onStack OperandStack.pops_pop) fun v =>
    .bind (.onStack OperandStack.pops_popLocation) fun location w fault w' h => ?_
  rw [onCvt_put] at h
  split at h <;> cases h
  exact ⟨0, w.popped_zero.symm⟩

theorem failsTaking_configureRound (mode : RoundMode) (gridPeriod : Value) :
    FailsTaking (configureRound mode gridPeriod) :=
  .bind (.onStack OperandStack.pops_pop) fun _ => .modify _

theorem failsTaking_setLoop : FailsTaking setLoop := by
  refine .bind (.onStack OperandStack.pops_pop) fun n => ?_
  split
  · exact (Takes.throw _).failsTaking
  · exact .modify _

theorem takes_isTaken (test : JumpTest) : Takes (onStack test.isTaken) := by
  cases test with
  | always => exact .onStack (.pure true)
  | onTrue => exact .onStack (pops_tested _)
  | onFalse => exact .onStack (pops_tested _)

theorem failsTaking_jump (site : Site) (test : JumpTest) : FailsTaking (jump site test) := by
  refine .bind (takes_isTaken test) fun taken =>
    .bind (.onStack OperandStack.pops_pop) fun offset => ?_
  split
  · unfold jumpBy
    split
    · exact .modify _
    · split
      · exact .modify _
      · exact (Takes.throw _).failsTaking
  · exact (Takes.pure ()).failsTaking

end Workspace

/-! ## Operations -/

/-- Whether an operation only takes operands before it fails. -/
def Operation.failsCleanly : Operation → Bool
  | .getVariation | .pushAxis | .discardPoints _ => false
  | .neutral _ pushes => pushes ≤ 1
  | _ => true

open Workspace in
/-- Where an operation fails, operands are gone and nothing else has happened. -/
theorem Operation.failsTaking_execute (site : Site) (ins : Instruction) {op : Operation}
    (hop : op.failsCleanly = true) : FailsTaking (op.execute site ins) := by
  cases op with
  | pushOperands => exact failsTaking_pushAll _
  | dup => exact failsTaking_dup
  | pop => exact failsTaking_popMany 1
  | clear => exact failsTaking_clear
  | swap => exact failsTaking_swap
  | depth =>
      intro w
      exact failsTaking_push (Int32.ofNat w.stack.depth) w
  | copyIndexed => exact failsTaking_copyIndexed
  | moveIndexed => exact failsTaking_moveIndexed
  | roll => exact failsTaking_roll
  | unary op => exact .bind .get fun w => failsTaking_applyUnary _
  | binary op => exact failsTaking_applyBinary _
  | readStorage => exact failsTaking_loadStorage
  | writeStorage => exact failsTaking_storeStorage
  | readCvt => exact failsTaking_loadCvt
  | writeCvtPixels => exact failsTaking_storeCvt _
  | writeCvtUnits => exact failsTaking_storeCvt _
  | setRoundMode mode => exact .modify _
  | configureRound mode gridPeriod => exact failsTaking_configureRound mode gridPeriod
  | setLoop => exact failsTaking_setLoop
  | jump test => exact failsTaking_jump site test
  | pixelsPerEm => exact failsTaking_push _
  | pointSize => exact failsTaking_push _
  | getInfo => exact failsTaking_applyUnary _
  | getVariation => cases hop
  | getData => exact failsTaking_push _
  | debug => exact failsTaking_popMany 1
  | pushAxis => cases hop
  | discardPairs => exact failsTaking_discardPairs
  | discardPoints pops => cases hop
  | neutral pops pushes =>
      exact .onStack_bind (OperandStack.pops_popMany pops) fun _ =>
        failsTaking_pushTimes _ (of_decide_eq_true hop)

/-- The opcodes that push several values one after the other. -/
def Opcode.pushesSeverally (op : Opcode) : Bool :=
  op ∈ [gpv, gfv, getvariation]

/-- What a failing instruction leaves of a workspace. -/
inductive Instruction.Damages (ins : Instruction) (w : Workspace) : Fault → Workspace → Prop
  /-- Operands are gone. -/
  | taken (fault : Fault) (n : Nat) (hop : ins.opcode.pushesSeverally = false) :
      Damages ins w fault (w.popped n)
  /-- Operands are gone, and the loop counter is used up. -/
  | counted (n : Nat) (hpoints : ins.opcode.takesPoints = true) :
      Damages ins w .stackUnderflow { w.popped n with graphics.loopCounter := 1 }
  /-- Some values have been pushed before there was no room left. -/
  | pushed (vs : List Value) (hop : ins.opcode.pushesSeverally = true) :
      Damages ins w .stackOverflow { w with stack := w.stack.append vs }

namespace Opcode

theorem pushesSeverally_of_failsCleanly {op : Opcode} (h : op.operation.failsCleanly = true) :
    op.pushesSeverally = false := by
  cases op <;> first | rfl | cases h

theorem pushesSeverally_of_takesPoints {op : Opcode} (h : op.takesPoints = true) :
    op.pushesSeverally = false := by
  cases op <;> first | rfl | cases h

/-- The opcodes whose operations leave more behind than a stack without some operands. -/
theorem cases_of_not_failsCleanly {op : Opcode} (h : op.operation.failsCleanly = false) :
    op.takesPoints = true ∧ op.operation = .discardPoints op.stackEffect.pops ∨
      op.pushesSeverally = true ∧ (op.operation = .pushAxis ∨ op.operation = .getVariation) := by
  cases op <;>
    first
    | exact .inl ⟨rfl, rfl⟩
    | exact .inr ⟨rfl, .inl rfl⟩
    | exact .inr ⟨rfl, .inr rfl⟩
    | cases h

end Opcode

namespace Operation

variable {site : Site} {ins : Instruction} {w w' : Workspace} {fault : Fault}

/-- The loop counter is used up before points are missed. -/
theorem error_of_discardPoints {pops : Nat}
    (h : (discardPoints pops).execute site ins w = .error fault w') :
    w' = w ∨ fault = .stackUnderflow ∧ w' = { w.popped pops with graphics.loopCounter := 1 } := by
  simp only [execute, bind_apply, Workspace.onStack_popMany] at h
  by_cases hpops : pops ≤ w.stack.values.length
  · simp only [if_pos hpops, Workspace.discardPoints_eq] at h
    split at h <;> cases h
    exact .inr ⟨rfl, rfl⟩
  · simp only [if_neg hpops] at h
    cases h
    exact .inl rfl

/-- The first coordinate of an axis may have been pushed when there is no room for the second. -/
theorem error_of_pushAxis (h : pushAxis.execute site ins w = .error fault w') :
    fault = .stackOverflow ∧ ∃ vs, w' = { w with stack := w.stack.append vs } := by
  obtain ⟨t, ht, rfl⟩ := Workspace.error_of_onStack h
  have hlast {s : OperandStack} (h : OperandStack.push 0 s = .error fault t) :
      fault = .stackOverflow ∧ ∃ vs : List Value, vs.length < 1 ∧ t = s.append vs := by
    obtain ⟨hfault, rfl⟩ := OperandStack.error_of_push h
    exact ⟨hfault, [], Nat.one_pos, t.append_nil.symm⟩
  obtain ⟨hfault, vs, -, rfl⟩ := OperandStack.error_of_push_bind hlast ht
  exact ⟨hfault, vs, rfl⟩

/-- Some coordinates may have been pushed when there is no room for the next one. -/
theorem error_of_getVariation (h : getVariation.execute site ins w = .error fault w') :
    fault = .stackOverflow ∧ ∃ vs, w' = { w with stack := w.stack.append vs } := by
  obtain ⟨s, hs, rfl⟩ := Workspace.error_of_onStack h
  obtain ⟨hfault, vs, -, rfl⟩ := OperandStack.error_of_pushTimes hs
  exact ⟨hfault, vs, rfl⟩

end Operation

/-- A failing instruction damages nothing but operands and the loop counter. -/
theorem Instruction.damages_of_execute_error {site : Site} {ins : Instruction}
    {w w' : Workspace} {fault : Fault} (h : ins.execute site w = .error fault w') :
    ins.Damages w fault w' := by
  cases hclean : ins.opcode.operation.failsCleanly with
  | true =>
      obtain ⟨n, rfl⟩ := Operation.failsTaking_execute site ins hclean _ _ _ h
      exact .taken fault n (Opcode.pushesSeverally_of_failsCleanly hclean)
  | false =>
      unfold execute at h
      rcases Opcode.cases_of_not_failsCleanly hclean with
        ⟨hpoints, hop⟩ | ⟨hseveral, hop | hop⟩
      · rw [hop] at h
        rcases Operation.error_of_discardPoints h with rfl | ⟨rfl, rfl⟩
        · exact w'.popped_zero ▸ .taken fault 0 (Opcode.pushesSeverally_of_takesPoints hpoints)
        · exact .counted _ hpoints
      · rw [hop] at h
        obtain ⟨rfl, vs, rfl⟩ := Operation.error_of_pushAxis h
        exact .pushed vs hseveral
      · rw [hop] at h
        obtain ⟨rfl, vs, rfl⟩ := Operation.error_of_getVariation h
        exact .pushed vs hseveral

end GridFit
