import GridFit.Proofs.Operation.Room

/-!
# Replacing operands

Most operations take some values from the stack and leave others in their place, and how many is
fixed beforehand. `Replaces` says this of a computation: that it leaves what lies below its
operands alone, that it leaves as many values as it says, and that it misses operands exactly
where there are too few. Computations that only pop come first, since what follows them sees a
stack that is less deep.

## Implementation notes

A computation that pops one value after the other fails when it is halfway through, and then
some operands are gone. A computation that fails for another reason has had its operands.
-/

namespace GridFit

variable {σ α β : Type}

namespace OperandStack

@[simp] theorem values_drop (s : OperandStack) (n : Nat) :
    (s.drop n).values = s.values.drop n := rfl

@[simp] theorem drop_zero (s : OperandStack) : s.drop 0 = s :=
  ext rfl rfl

@[simp] theorem drop_drop (s : OperandStack) (n k : Nat) :
    (s.drop n).drop k = s.drop (n + k) :=
  ext List.drop_drop rfl

end OperandStack

/-! ## Popping -/

/-- A computation on states with an operand stack that pops `n` values and does nothing else to
the stack. It only fails where there are fewer values, and then some of them are gone. -/
def Pops (stack : σ → OperandStack) (n : Nat) (x : EStateM Fault σ α) : Prop :=
  ∀ s, match x s with
    | .ok _ t => n ≤ (stack s).values.length ∧ stack t = (stack s).drop n
    | .error fault t => fault = .stackUnderflow ∧ (stack s).values.length < n ∧
        ∃ k, stack t = (stack s).drop k

namespace Pops

variable {stack : σ → OperandStack} {n k : Nat}

theorem pure (a : α) : Pops stack 0 (Pure.pure a : EStateM Fault σ α) :=
  fun s => ⟨Nat.zero_le _, (stack s).drop_zero.symm⟩

theorem get : Pops stack 0 (MonadState.get : EStateM Fault σ σ) :=
  fun s => ⟨Nat.zero_le _, (stack s).drop_zero.symm⟩

theorem modify {f : σ → σ} (hf : ∀ s, stack (f s) = stack s) :
    Pops stack 0 (modify f : EStateM Fault σ Unit) :=
  fun s => ⟨Nat.zero_le _, (hf s).trans (stack s).drop_zero.symm⟩

theorem bind {x : EStateM Fault σ α} {f : α → EStateM Fault σ β} (hx : Pops stack n x)
    (hf : ∀ a, Pops stack k (f a)) : Pops stack (n + k) (x >>= f) := by
  intro s
  have hxs := hx s
  rw [bind_apply]
  cases hr : x s with
  | error fault t =>
      rw [hr] at hxs
      obtain ⟨hfault, hshort, hdrop⟩ := hxs
      exact ⟨hfault, Nat.lt_add_right k hshort, hdrop⟩
  | ok a t =>
      rw [hr] at hxs
      obtain ⟨hn, ht⟩ := hxs
      have hfs := hf a t
      simp only
      cases hr' : f a t with
      | error fault u =>
          rw [hr', ht] at hfs
          obtain ⟨hfault, hshort, d, hu⟩ := hfs
          rw [OperandStack.values_drop, List.length_drop] at hshort
          refine ⟨hfault, by omega, n + d, ?_⟩
          rw [hu, OperandStack.drop_drop]
      | ok b u =>
          rw [hr', ht] at hfs
          obtain ⟨hk, hu⟩ := hfs
          rw [OperandStack.values_drop, List.length_drop] at hk
          exact ⟨by omega, hu.trans (OperandStack.drop_drop _ _ _)⟩

end Pops

/-! ## Replacing -/

/-- A computation on states with an operand stack that replaces the topmost `n` values by `k`
others. It misses operands if there are fewer than `n` values, and otherwise never. -/
def Replaces (stack : σ → OperandStack) (n k : Nat) (x : EStateM Fault σ α) : Prop :=
  ∀ s, match x s with
    | .ok _ t => n ≤ (stack s).values.length ∧
        ∃ pushed : List Value, pushed.length = k ∧
          (stack t).values = pushed ++ (stack s).values.drop n
    | .error fault _ => fault = .stackUnderflow ↔ (stack s).values.length < n

namespace Replaces

variable {stack : σ → OperandStack} {n k l : Nat}

/-- What pops replaces values by none. -/
theorem of_pops {x : EStateM Fault σ α} (hx : Pops stack n x) : Replaces stack n 0 x := by
  intro s
  have hxs := hx s
  cases hr : x s with
  | error fault t =>
      rw [hr] at hxs
      exact ⟨fun _ => hxs.2.1, fun _ => hxs.1⟩
  | ok a t =>
      rw [hr] at hxs
      exact ⟨hxs.1, [], rfl, congrArg OperandStack.values hxs.2⟩

/-- What leaves the stack alone and never misses operands replaces none. -/
theorem of_keeps {x : EStateM Fault σ α} (hkeeps : Keeps stack x)
    (hraises : Raises (· ≠ .stackUnderflow) x) : Replaces stack 0 0 x := by
  intro s
  have hstack := hkeeps s
  cases hr : x s with
  | error fault t =>
      have hfault := hraises s fault t hr
      exact ⟨fun heq => absurd heq hfault, fun hshort => absurd hshort (Nat.not_lt_zero _)⟩
  | ok a t =>
      rw [hr, finalState_ok] at hstack
      exact ⟨Nat.zero_le _, [], rfl, congrArg OperandStack.values hstack⟩

theorem attempt {r : Except Fault α} (hr : r ≠ .error .stackUnderflow) :
    Replaces stack 0 0 (GridFit.attempt r) :=
  of_keeps (.attempt r) (.attempt fun _ hfault heq => hr (heq ▸ hfault))

/-- After some values have been popped, more of them are replaced. -/
theorem pops_bind {x : EStateM Fault σ α} {f : α → EStateM Fault σ β} (hx : Pops stack n x)
    (hf : ∀ a, Replaces stack k l (f a)) : Replaces stack (n + k) l (x >>= f) := by
  intro s
  have hxs := hx s
  rw [bind_apply]
  cases hr : x s with
  | error fault t =>
      rw [hr] at hxs
      exact ⟨fun _ => Nat.lt_add_right k hxs.2.1, fun _ => hxs.1⟩
  | ok a t =>
      rw [hr] at hxs
      obtain ⟨hn, ht⟩ := hxs
      have hfs := hf a t
      simp only
      cases hr' : f a t with
      | error fault u =>
          simp only [hr', ht, OperandStack.values_drop, List.length_drop] at hfs
          simp only [hfs]
          omega
      | ok b u =>
          simp only [hr', ht, OperandStack.values_drop, List.length_drop, List.drop_drop] at hfs
          exact ⟨by omega, hfs.2⟩

/-- After some values have been replaced, more of them are pushed. -/
theorem bind_pushes {x : EStateM Fault σ α} {f : α → EStateM Fault σ β}
    (hx : Replaces stack n k x) (hf : ∀ a, Replaces stack 0 l (f a)) :
    Replaces stack n (l + k) (x >>= f) := by
  intro s
  have hxs := hx s
  rw [bind_apply]
  cases hr : x s with
  | error fault t =>
      rw [hr] at hxs
      exact hxs
  | ok a t =>
      rw [hr] at hxs
      obtain ⟨hn, pushed, hpushed, ht⟩ := hxs
      have hfs := hf a t
      simp only
      cases hr' : f a t with
      | error fault u =>
          rw [hr'] at hfs
          exact ⟨fun heq => absurd (hfs.1 heq) (Nat.not_lt_zero _),
            fun hshort => absurd hshort (Nat.not_lt.2 hn)⟩
      | ok b u =>
          rw [hr'] at hfs
          obtain ⟨-, more, hmore, hu⟩ := hfs
          refine ⟨hn, more ++ pushed, by rw [List.length_append, hmore, hpushed], ?_⟩
          rw [hu, ht, List.drop_zero, List.append_assoc]

end Replaces

/-! ## The operand stack -/

namespace OperandStack

theorem pops_pop : Pops id 1 pop := by
  intro s
  unfold pop top?
  cases hvalues : s.values with
  | nil =>
      rw [List.head?_nil]
      exact ⟨rfl, by simp [hvalues], 0, s.drop_zero.symm⟩
  | cons v rest => exact ⟨by simp [hvalues], rfl⟩

theorem pops_popLocation : Pops id 1 popLocation :=
  pops_pop.bind fun v => .pure v.location

theorem pops_popMany (n : Nat) : Pops id n (popMany n) := by
  intro s
  unfold popMany
  rw [s.depth_eq]
  by_cases hn : n ≤ s.values.length
  · rw [if_pos hn]
    exact ⟨hn, rfl⟩
  · rw [if_neg hn]
    exact ⟨rfl, Nat.lt_of_not_le hn, 0, s.drop_zero.symm⟩

theorem replaces_push (v : Value) : Replaces id 0 1 (push v) := by
  intro s
  unfold push
  by_cases hroom : s.hasRoom 1 = true
  · simp only [if_pos hroom]
    exact ⟨Nat.zero_le _, [v], rfl, rfl⟩
  · simp only [if_neg hroom]
    exact ⟨nofun, nofun⟩

theorem replaces_pushAll (vs : List Value) : Replaces id 0 vs.length (pushAll vs) := by
  intro s
  unfold pushAll
  by_cases hroom : s.hasRoom vs.length = true
  · simp only [if_pos hroom]
    exact ⟨Nat.zero_le _, vs.reverse, List.length_reverse, List.reverseAux_eq⟩
  · simp only [if_neg hroom]
    exact ⟨nofun, nofun⟩

theorem replaces_pushTimes (v : Value) (n : Nat) : Replaces id 0 n (pushTimes v n) := by
  induction n with
  | zero => exact .of_pops (.pure ())
  | succ n ih => exact (replaces_push v).bind_pushes fun _ => ih

theorem replaces_applyUnary {f : Value → Except Fault Value}
    (hf : ∀ a, f a ≠ .error .stackUnderflow) : Replaces id 1 1 (applyUnary f) :=
  .pops_bind pops_pop fun a => (Replaces.attempt (hf a)).bind_pushes replaces_push

theorem replaces_applyBinary {f : Value → Value → Except Fault Value}
    (hf : ∀ a b, f a b ≠ .error .stackUnderflow) : Replaces id 2 1 (applyBinary f) :=
  .pops_bind pops_pop fun b => .pops_bind pops_pop fun a =>
    (Replaces.attempt (hf a b)).bind_pushes replaces_push

theorem replaces_dup : Replaces id 1 2 dup := by
  intro s
  unfold dup top?
  cases hvalues : s.values with
  | nil => simp [hvalues]
  | cons v rest =>
      have hpush := replaces_push v s
      simp only [List.head?_cons]
      cases hr : push v s with
      | error fault t =>
          rw [hr] at hpush
          exact ⟨fun heq => absurd (hpush.1 heq) (Nat.not_lt_zero _),
            fun hshort => absurd hshort (by simp [hvalues])⟩
      | ok _ t =>
          rw [hr] at hpush
          obtain ⟨-, pushed, hpushed, ht⟩ := hpush
          refine ⟨by simp [hvalues], pushed ++ [v], by simp [hpushed], ?_⟩
          simpa [hvalues] using ht

theorem replaces_swap : Replaces id 2 2 swap := by
  intro s
  unfold swap
  rcases hvalues : s.values with _ | ⟨b, _ | ⟨a, rest⟩⟩
  · simp [hvalues]
  · simp [hvalues]
  · exact ⟨by simp [hvalues], [a, b], rfl, rfl⟩

theorem replaces_roll : Replaces id 3 3 roll := by
  intro s
  unfold roll
  rcases hvalues : s.values with _ | ⟨c, _ | ⟨b, _ | ⟨a, rest⟩⟩⟩
  · simp [hvalues]
  · simp [hvalues]
  · simp [hvalues]
  · exact ⟨by simp [hvalues], [a, c, b], rfl, rfl⟩

end OperandStack

/-! ## The workspace -/

namespace Workspace

variable {n k : Nat} {w w' : Workspace}

theorem ok_of_onStack {x : StackM α} {a : α} (h : onStack x w = .ok a w') :
    x w.stack = .ok a w'.stack := by
  unfold onStack at h
  split at h <;> cases h
  assumption

theorem error_of_onStack {x : StackM α} {fault : Fault} (h : onStack x w = .error fault w') :
    ∃ s, x w.stack = .error fault s ∧ w' = { w with stack := s } := by
  unfold onStack at h
  split at h <;> cases h
  next s hs => exact ⟨s, hs, rfl⟩

/-- What pops on the stack pops on the stack of a workspace. -/
theorem pops_onStack {x : StackM α} (hx : Pops id n x) :
    Pops Workspace.stack n (onStack x) := by
  intro w
  have hxs := hx w.stack
  unfold onStack
  cases hr : x w.stack with
  | ok a s =>
      rw [hr] at hxs
      exact hxs
  | error fault s =>
      rw [hr] at hxs
      exact hxs

/-- What replaces values on the stack replaces them on the stack of a workspace. -/
theorem replaces_onStack {x : StackM α} (hx : Replaces id n k x) :
    Replaces Workspace.stack n k (onStack x) := by
  intro w
  have hxs := hx w.stack
  unfold onStack
  cases hr : x w.stack with
  | ok a s =>
      rw [hr] at hxs
      exact hxs
  | error fault s =>
      rw [hr] at hxs
      exact hxs

theorem onStack_popMany (n : Nat) (w : Workspace) :
    onStack (OperandStack.popMany n) w =
      if n ≤ w.stack.values.length then .ok () (w.popped n) else .error .stackUnderflow w := by
  simp only [onStack, OperandStack.popMany, w.stack.depth_eq]
  by_cases hn : n ≤ w.stack.values.length
  · simp only [if_pos hn]
    rfl
  · simp only [if_neg hn]

/-- The loop counter is one again whether or not there are as many points as it asks for. -/
theorem discardPoints_eq (w : Workspace) :
    discardPoints w =
      if w.graphics.loopCounter ≤ w.stack.values.length then
        .ok () { w.popped w.graphics.loopCounter with graphics.loopCounter := 1 }
      else .error .stackUnderflow { w with graphics.loopCounter := 1 } := by
  simp only [discardPoints, putLoop, bind_apply, get_apply, modify_apply, onStack_popMany]
  rfl

theorem replaces_loadStorage : Replaces Workspace.stack 1 1 loadStorage :=
  .pops_bind (pops_onStack OperandStack.pops_popLocation) fun location =>
    .pops_bind .get fun w =>
      (Replaces.attempt (Cells.get_ne_error (by nofun))).bind_pushes fun v =>
        replaces_onStack (OperandStack.replaces_push v)

theorem replaces_loadCvt : Replaces Workspace.stack 1 1 loadCvt :=
  .pops_bind (pops_onStack OperandStack.pops_popLocation) fun location =>
    .pops_bind .get fun w =>
      (Replaces.attempt (Cells.get_ne_error (by nofun))).bind_pushes fun v =>
        replaces_onStack (OperandStack.replaces_push v)

theorem replaces_storeStorage : Replaces Workspace.stack 2 0 storeStorage :=
  .pops_bind (pops_onStack OperandStack.pops_pop) fun v =>
    .pops_bind (pops_onStack OperandStack.pops_popLocation) fun location =>
      .of_keeps (keeps_onStorage (fun _ _ => rfl) _)
        (raises_onStorage (Cells.raises_put (by nofun) v))

theorem replaces_storeCvt (f : Value → Value) : Replaces Workspace.stack 2 0 (storeCvt f) :=
  .pops_bind (pops_onStack OperandStack.pops_pop) fun v =>
    .pops_bind (pops_onStack OperandStack.pops_popLocation) fun location =>
      .of_keeps (keeps_onCvt (fun _ _ => rfl) _) (raises_onCvt (Cells.raises_put (by nofun) (f v)))

theorem replaces_configureRound (mode : RoundMode) (gridPeriod : Value) :
    Replaces Workspace.stack 1 0 (configureRound mode gridPeriod) := by
  refine .pops_bind (k := 0) (pops_onStack OperandStack.pops_pop) fun selector => ?_
  exact .of_pops (.modify fun _ => rfl)

theorem replaces_setLoop : Replaces Workspace.stack 1 0 setLoop := by
  refine .pops_bind (k := 0) (pops_onStack OperandStack.pops_pop) fun n => ?_
  split
  · exact .of_keeps (.throw _) (.throw (by nofun))
  · exact .of_pops (.modify fun _ => rfl)

/-- What looks at the topmost value pops it. -/
theorem pops_tested (holds : Value → Bool) :
    Pops id 1 (do return holds (← OperandStack.pop)) :=
  OperandStack.pops_pop.bind fun v => .pure (holds v)

theorem replaces_jumpBy (site : Site) (offset : Value) :
    Replaces Workspace.stack 0 0 (jumpBy site offset) := by
  unfold jumpBy
  split
  · exact .of_pops (.modify fun _ => rfl)
  · split
    · exact .of_pops (.modify fun _ => rfl)
    · exact .of_keeps (.throw _) (.throw (by nofun))

/-- A jump pops what its test looks at and its offset. -/
theorem replaces_jump (site : Site) {test : JumpTest} (htest : Pops id n test.isTaken) :
    Replaces Workspace.stack (n + 1) 0 (jump site test) := by
  refine .pops_bind (k := 1) (pops_onStack htest) fun taken =>
    .pops_bind (k := 0) (pops_onStack OperandStack.pops_pop) fun offset => ?_
  split
  · exact replaces_jumpBy site offset
  · exact .of_pops (.pure ())

end Workspace

/-! ## Operations -/

/-- Whether the number of values that an operation takes and leaves is fixed beforehand, and too
few of them is all that it can miss. -/
def Operation.isRegular : Operation → Bool
  | .clear | .copyIndexed | .moveIndexed | .discardPairs | .discardPoints _ => false
  | _ => true

open Workspace in
/-- An operation replaces as many values by as many others as its stack effect says. -/
theorem Operation.replaces_execute (site : Site) (ins : Instruction) {op : Operation}
    (hop : op.isRegular = true) :
    Replaces Workspace.stack (op.stackEffect site.font ins).pops
      (op.stackEffect site.font ins).pushes (op.execute site ins) := by
  cases op with
  | pushOperands => exact replaces_onStack (OperandStack.replaces_pushAll _)
  | dup => exact replaces_onStack OperandStack.replaces_dup
  | pop => exact replaces_onStack (.of_pops (OperandStack.pops_popMany 1))
  | swap => exact replaces_onStack OperandStack.replaces_swap
  | depth =>
      exact replaces_onStack fun s => OperandStack.replaces_push (Int32.ofNat s.depth) s
  | roll => exact replaces_onStack OperandStack.replaces_roll
  | unary op =>
      exact .pops_bind .get fun w => replaces_onStack (OperandStack.replaces_applyUnary (by nofun))
  | binary op =>
      exact replaces_onStack
        (OperandStack.replaces_applyBinary (BinaryOp.apply_ne_error (by nofun) op))
  | readStorage => exact replaces_loadStorage
  | writeStorage => exact replaces_storeStorage
  | readCvt => exact replaces_loadCvt
  | writeCvtPixels => exact replaces_storeCvt _
  | writeCvtUnits => exact replaces_storeCvt _
  | setRoundMode mode => exact .of_pops (.modify fun _ => rfl)
  | configureRound mode gridPeriod => exact replaces_configureRound mode gridPeriod
  | setLoop => exact replaces_setLoop
  | jump test =>
      cases test with
      | always => exact replaces_jump site (.pure true)
      | onTrue => exact replaces_jump site (pops_tested _)
      | onFalse => exact replaces_jump site (pops_tested _)
  | pixelsPerEm => exact replaces_onStack (OperandStack.replaces_push _)
  | pointSize => exact replaces_onStack (OperandStack.replaces_push _)
  | getInfo => exact replaces_onStack (OperandStack.replaces_applyUnary (by nofun))
  | getVariation => exact replaces_onStack (OperandStack.replaces_pushTimes _ _)
  | getData => exact replaces_onStack (OperandStack.replaces_push _)
  | debug => exact replaces_onStack (.of_pops (OperandStack.pops_popMany 1))
  | pushAxis =>
      exact replaces_onStack ((OperandStack.replaces_push _).bind_pushes fun _ =>
        OperandStack.replaces_push _)
  | neutral pops pushes =>
      exact replaces_onStack (.pops_bind (OperandStack.pops_popMany pops) fun _ =>
        OperandStack.replaces_pushTimes _ _)
  | clear => cases hop
  | copyIndexed => cases hop
  | moveIndexed => cases hop
  | discardPairs => cases hop
  | discardPoints pops => cases hop

end GridFit
