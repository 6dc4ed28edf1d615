import GridFit.Proofs.Operation.Faults
import GridFit.Proofs.Operation.Jump

/-!
# Room on the operand stack

Pushes respect the limit of the stack, but some operations put values there without
looking at it, or push only after they have popped. `Fits` counts for how many more values
there is room before and after a computation: popping makes room, and pushing uses it up.
So every operation keeps the stack within its limit, and only one that leaves more values
than it takes can find too little room.

## Implementation notes

The room is counted on a stack that is a part of some state, so that the same rules apply to
operations on the stack itself and on the workspace.
-/

namespace GridFit

variable {σ α β : Type}

namespace OperandStack

variable {s : OperandStack} {n k : Nat}

/-- There is room for `n` more values if the limit, where there is one, allows for them. -/
theorem hasRoom_iff :
    s.hasRoom n = true ↔ ∀ max, s.limit = some max → s.values.length + n ≤ max := by
  unfold hasRoom
  rw [← s.depth_eq]
  cases s.limit with
  | none => simp
  | some max => simp

theorem hasRoom_of_le (h : s.hasRoom n = true) (hk : k ≤ n) : s.hasRoom k = true := by
  rw [hasRoom_iff] at h ⊢
  intro max hmax
  have hroom := h max hmax
  omega

theorem hasRoom_drop (h : s.hasRoom n = true) (hk : k ≤ s.depth) :
    (s.drop k).hasRoom (n + k) = true := by
  rw [hasRoom_iff] at h ⊢
  intro max hmax
  have hroom := h max hmax
  have hdepth := s.depth_eq
  have hlength : (s.drop k).values.length = s.values.length - k := List.length_drop
  omega

theorem hasRoom_cons {v : Value} (h : s.hasRoom (n + 1) = true) :
    (s.cons v).hasRoom n = true := by
  rw [hasRoom_iff] at h ⊢
  intro max hmax
  have hroom := h max hmax
  have hlength : (s.cons v).values.length = s.values.length + 1 := List.length_cons
  omega

/-- Values fit behind others if all of them fit. -/
theorem hasRoom_append_iff {vs : List Value} :
    (s.append vs).hasRoom n = true ↔ s.hasRoom (vs.length + n) = true := by
  have hlength : (s.append vs).values.length + n = s.values.length + (vs.length + n) := by
    simp only [append, List.reverseAux_eq, List.length_append, List.length_reverse]
    omega
  rw [hasRoom_iff, hasRoom_iff, hlength]
  rfl

/-- Moving a value to the top does not change the depth. -/
theorem hasRoom_raise {i : Nat} (h : s.hasRoom n = true) : (s.raise i).hasRoom n = true := by
  unfold raise
  split
  · exact h
  · exact h

end OperandStack

open OperandStack

/-- A computation on states with an operand stack that finds room for `n` more values and
leaves room for `k` more. If it fails, it leaves the stack within its limit, and it fails for
want of room only if that is allowed for. -/
def Fits (mayOverflow : Prop) (stack : σ → OperandStack) (n k : Nat)
    (x : EStateM Fault σ α) : Prop :=
  ∀ s, (stack s).hasRoom n = true →
    match x s with
    | .ok _ t => (stack t).hasRoom k = true
    | .error fault t =>
        (fault = .stackOverflow → mayOverflow) ∧ (stack t).hasRoom 0 = true

namespace Fits

variable {mayOverflow : Prop} {stack : σ → OperandStack} {n k l : Nat}

theorem pure (a : α) : Fits mayOverflow stack n n (Pure.pure a : EStateM Fault σ α) :=
  fun _ h => h

theorem get : Fits mayOverflow stack n n (MonadState.get : EStateM Fault σ σ) :=
  fun _ h => h

theorem modify {f : σ → σ} (hf : ∀ s, stack (f s) = stack s) :
    Fits mayOverflow stack n n (modify f : EStateM Fault σ Unit) := by
  intro s h
  rw [modify_apply]
  simp only [hf]
  exact h

theorem throw {fault : Fault} (hfault : fault ≠ .stackOverflow) :
    Fits mayOverflow stack n k (MonadExcept.throw fault : EStateM Fault σ α) :=
  fun _ h => ⟨fun hoverflow => absurd hoverflow hfault, hasRoom_of_le h (Nat.zero_le n)⟩

theorem attempt {r : Except Fault α} (hr : r ≠ .error .stackOverflow) :
    Fits mayOverflow stack n n (GridFit.attempt r : EStateM Fault σ α) := by
  cases r with
  | ok a => exact .pure a
  | error fault => exact .throw fun hfault => hr (congrArg Except.error hfault)

theorem bind {x : EStateM Fault σ α} {f : α → EStateM Fault σ β}
    (hx : Fits mayOverflow stack n k x) (hf : ∀ a, Fits mayOverflow stack k l (f a)) :
    Fits mayOverflow stack n l (x >>= f) := by
  intro s h
  have hxs := hx s h
  rw [bind_apply]
  cases hr : x s with
  | ok a t =>
      rw [hr] at hxs
      exact hf a t hxs
  | error fault t =>
      rw [hr] at hxs
      exact hxs

/-- Room that is left can be given up. -/
theorem weaken {x : EStateM Fault σ α} (h : Fits mayOverflow stack n k x) (hl : l ≤ k) :
    Fits mayOverflow stack n l x := by
  intro s hroom
  have hxs := h s hroom
  cases hr : x s with
  | ok a t =>
      rw [hr] at hxs
      exact hasRoom_of_le hxs hl
  | error fault t =>
      rw [hr] at hxs
      exact hxs

/-- What leaves the stack alone and never fails for want of room needs none. -/
theorem of_keeps {x : EStateM Fault σ α} (hkeeps : Keeps stack x)
    (hraises : Raises (· ≠ .stackOverflow) x) : Fits mayOverflow stack n n x := by
  intro s h
  have hstack := hkeeps s
  cases hr : x s with
  | ok a t =>
      rw [hr, finalState_ok] at hstack
      simp only [hstack]
      exact h
  | error fault t =>
      rw [hr, finalState_error] at hstack
      simp only [hstack]
      exact ⟨fun hoverflow => absurd hoverflow (hraises s fault t hr),
        hasRoom_of_le h (Nat.zero_le n)⟩

end Fits

/-! ## The operand stack -/

namespace OperandStack

variable {mayOverflow : Prop} {n : Nat}

theorem fits_pop : Fits mayOverflow id n (n + 1) pop := by
  intro s h
  unfold pop top?
  cases hvalues : s.values with
  | nil => exact ⟨nofun, hasRoom_of_le h (Nat.zero_le n)⟩
  | cons v rest =>
      have hdepth : 1 ≤ s.depth := by
        rw [s.depth_eq, hvalues]
        exact Nat.le_add_left 1 _
      exact hasRoom_drop h hdepth

theorem fits_popLocation : Fits mayOverflow id n (n + 1) popLocation :=
  fits_pop.bind fun v => .pure v.location

theorem fits_popMany (k : Nat) : Fits mayOverflow id n (n + k) (popMany k) := by
  intro s h
  unfold popMany
  by_cases hk : k ≤ s.depth
  · simp only [if_pos hk]
    exact hasRoom_drop h hk
  · simp only [if_neg hk]
    exact ⟨nofun, hasRoom_of_le h (Nat.zero_le n)⟩

theorem fits_push (v : Value) (hroom : 0 < n ∨ mayOverflow) :
    Fits mayOverflow id n (n - 1) (push v) := by
  intro s h
  unfold push
  by_cases hone : s.hasRoom 1 = true
  · simp only [if_pos hone]
    refine hasRoom_cons ?_
    rcases Nat.eq_zero_or_pos n with rfl | hn
    · exact hone
    · rw [Nat.sub_add_cancel hn]
      exact h
  · simp only [if_neg hone]
    refine ⟨fun _ => hroom.resolve_left ?_, hasRoom_of_le h (Nat.zero_le n)⟩
    intro hn
    exact hone (hasRoom_of_le h hn)

theorem fits_pushAll (vs : List Value) (hroom : vs.length = 0 ∨ mayOverflow) :
    Fits mayOverflow id 0 0 (pushAll vs) := by
  intro s h
  unfold pushAll
  by_cases hall : s.hasRoom vs.length = true
  · simp only [if_pos hall]
    exact hasRoom_append_iff.2 hall
  · simp only [if_neg hall]
    refine ⟨fun _ => hroom.resolve_left ?_, h⟩
    intro hnone
    rw [hnone] at hall
    exact hall h

/-- Of several pushes, all find room if the first of them leaves enough. -/
theorem fits_pushTimes (v : Value) (k : Nat) (hroom : k ≤ n ∨ mayOverflow) :
    Fits mayOverflow id n 0 (pushTimes v k) := by
  induction k generalizing n with
  | zero => exact (Fits.pure ()).weaken (Nat.zero_le n)
  | succ k ih =>
      refine (fits_push v ?_).bind fun _ => ih ?_
      · exact hroom.imp_left fun hle => by omega
      · exact hroom.imp_left fun hle => by omega

theorem fits_discardPairs : Fits mayOverflow id 0 0 discardPairs :=
  fits_popLocation.bind fun k => (fits_popMany (2 * k)).weaken (Nat.zero_le _)

theorem fits_applyUnary {f : Value → Except Fault Value}
    (hf : ∀ a, f a ≠ .error .stackOverflow) : Fits mayOverflow id 0 0 (applyUnary f) :=
  fits_pop.bind fun a => (Fits.attempt (hf a)).bind fun v => fits_push v (.inl Nat.one_pos)

theorem fits_applyBinary {f : Value → Value → Except Fault Value}
    (hf : ∀ a b, f a b ≠ .error .stackOverflow) : Fits mayOverflow id 0 0 (applyBinary f) := by
  have hfits : Fits mayOverflow id 0 1 (applyBinary f) :=
    fits_pop.bind fun b => fits_pop.bind fun a => (Fits.attempt (hf a b)).bind fun v =>
      fits_push v (.inl Nat.two_pos)
  exact hfits.weaken (Nat.zero_le 1)

theorem fits_clear : Fits mayOverflow id 0 0 clear := by
  intro s h
  rw [hasRoom_iff] at h
  refine hasRoom_iff.2 fun max hmax => ?_
  exact Nat.le_trans (Nat.zero_le _) (h max hmax)

theorem fits_dup (hroom : mayOverflow) : Fits mayOverflow id 0 0 dup := by
  intro s h
  unfold dup
  cases s.top? with
  | some v => exact fits_push v (.inr hroom) s h
  | none => exact ⟨nofun, h⟩

theorem fits_swap : Fits mayOverflow id 0 0 swap := by
  intro s h
  unfold swap
  rcases hvalues : s.values with _ | ⟨b, _ | ⟨a, rest⟩⟩
  · exact ⟨nofun, h⟩
  · exact ⟨nofun, h⟩
  · have hdepth : 2 ≤ s.depth := by simp [s.depth_eq, hvalues]
    exact hasRoom_cons (hasRoom_cons (hasRoom_drop h hdepth))

theorem fits_roll : Fits mayOverflow id 0 0 roll := by
  intro s h
  unfold roll
  rcases hvalues : s.values with _ | ⟨c, _ | ⟨b, _ | ⟨a, rest⟩⟩⟩
  · exact ⟨nofun, h⟩
  · exact ⟨nofun, h⟩
  · exact ⟨nofun, h⟩
  · have hdepth : 3 ≤ s.depth := by simp [s.depth_eq, hvalues]
    exact hasRoom_cons (hasRoom_cons (hasRoom_cons (hasRoom_drop h hdepth)))

/-- The copy takes the place of the index, so that no room is needed. -/
theorem fits_copyIndexed : Fits mayOverflow id 0 0 copyIndexed := by
  intro s h
  unfold copyIndexed
  cases hvalues : s.values with
  | nil => exact ⟨nofun, h⟩
  | cons k rest =>
      have hdepth : 1 ≤ s.depth := by simp [s.depth_eq, hvalues]
      simp only
      cases k.location with
      | zero => exact ⟨nofun, h⟩
      | succ i =>
          simp only
          cases rest[i]? with
          | none => exact ⟨nofun, h⟩
          | some v => exact hasRoom_cons (hasRoom_drop h hdepth)

/-- The value that is moved is taken away where it was, so that no room is needed. -/
theorem fits_moveIndexed : Fits mayOverflow id 0 0 moveIndexed := by
  refine Fits.bind (k := 1) fits_popLocation fun position => ?_
  intro s h
  have hzero := hasRoom_of_le h (Nat.zero_le 1)
  cases position with
  | zero => exact ⟨nofun, hzero⟩
  | succ i =>
      by_cases hi : i < s.depth
      · simp only [if_pos hi]
        exact hasRoom_raise hzero
      · simp only [if_neg hi]
        exact ⟨nofun, hzero⟩

end OperandStack

/-! ## The workspace -/

namespace Workspace

variable {mayOverflow : Prop} {n k : Nat}

/-- What fits on the stack fits on the stack of a workspace. -/
theorem fits_onStack {x : StackM α} (hx : Fits mayOverflow id n k x) :
    Fits mayOverflow Workspace.stack n k (onStack x) := by
  intro w h
  have hxs := hx w.stack h
  unfold onStack
  cases hr : x w.stack with
  | ok a s =>
      rw [hr] at hxs
      exact hxs
  | error fault s =>
      rw [hr] at hxs
      exact hxs

theorem fits_loadStorage : Fits mayOverflow Workspace.stack 0 0 loadStorage :=
  (fits_onStack fits_popLocation).bind fun location => Fits.get.bind fun w =>
    (Fits.attempt (Cells.get_ne_error (by nofun))).bind fun v =>
      fits_onStack (fits_push v (.inl Nat.one_pos))

theorem fits_loadCvt : Fits mayOverflow Workspace.stack 0 0 loadCvt :=
  (fits_onStack fits_popLocation).bind fun location => Fits.get.bind fun w =>
    (Fits.attempt (Cells.get_ne_error (by nofun))).bind fun v =>
      fits_onStack (fits_push v (.inl Nat.one_pos))

theorem fits_storeStorage : Fits mayOverflow Workspace.stack 0 0 storeStorage := by
  refine (fits_onStack fits_pop).bind fun v => (fits_onStack fits_popLocation).bind
    fun location => Fits.weaken (k := 2) ?_ (Nat.zero_le 2)
  exact .of_keeps (keeps_onStorage (fun _ _ => rfl) _)
    (raises_onStorage (Cells.raises_put nofun v))

theorem fits_storeCvt (f : Value → Value) :
    Fits mayOverflow Workspace.stack 0 0 (storeCvt f) := by
  refine (fits_onStack fits_pop).bind fun v => (fits_onStack fits_popLocation).bind
    fun location => Fits.weaken (k := 2) ?_ (Nat.zero_le 2)
  exact .of_keeps (keeps_onCvt (fun _ _ => rfl) _)
    (raises_onCvt (Cells.raises_put nofun (f v)))

theorem fits_configureRound (mode : RoundMode) (gridPeriod : Value) :
    Fits mayOverflow Workspace.stack 0 0 (configureRound mode gridPeriod) := by
  refine (fits_onStack fits_pop).bind fun selector => Fits.weaken (k := 1) ?_ (Nat.zero_le 1)
  exact .modify fun _ => rfl

theorem fits_putLoop (count : Nat) : Fits mayOverflow Workspace.stack n n (putLoop count) :=
  .modify fun _ => rfl

theorem fits_setLoop : Fits mayOverflow Workspace.stack 0 0 setLoop := by
  refine (fits_onStack fits_pop).bind fun n => ?_
  split
  · exact .throw nofun
  · exact (fits_putLoop _).weaken (Nat.zero_le 1)

theorem fits_discardPoints : Fits mayOverflow Workspace.stack n 0 discardPoints :=
  Fits.get.bind fun w => (fits_putLoop 1).bind fun _ =>
    (fits_onStack (fits_popMany w.graphics.loopCounter)).weaken (Nat.zero_le _)

theorem fits_isTaken (test : JumpTest) : Fits mayOverflow id 0 0 test.isTaken := by
  have htested (f : Value → Bool) :
      Fits mayOverflow id 0 0 (do return f (← pop)) :=
    fits_pop.bind fun v => (Fits.pure (f v)).weaken (Nat.zero_le 1)
  cases test with
  | always => exact .pure true
  | onTrue => exact htested _
  | onFalse => exact htested _

theorem fits_jump (site : Site) (test : JumpTest) :
    Fits mayOverflow Workspace.stack 0 0 (jump site test) := by
  refine (fits_onStack (fits_isTaken test)).bind fun taken =>
    (fits_onStack fits_pop).bind fun offset => Fits.weaken (k := 1) ?_ (Nat.zero_le 1)
  split
  · unfold jumpBy
    split
    · exact .modify fun _ => rfl
    · split
      · exact .modify fun _ => rfl
      · exact .throw nofun
  · exact .pure ()

end Workspace

/-! ## Operations -/

/-- How many values an operation pops and how many it then pushes, apart from what depends on
the loop counter or on the values themselves. -/
def Operation.stackEffect (font : FontInstance) (ins : Instruction) : Operation → StackEffect
  | .pushOperands => ⟨0, ins.operandValues.length⟩
  | .getVariation => ⟨0, font.axisCount.toNat⟩
  | .clear => ⟨0, 0⟩
  | .setRoundMode _ => ⟨0, 0⟩
  | .depth | .pixelsPerEm | .pointSize | .getData => ⟨0, 1⟩
  | .pushAxis => ⟨0, 2⟩
  | .jump .always => ⟨1, 0⟩
  | .jump .onTrue | .jump .onFalse => ⟨2, 0⟩
  | .pop | .moveIndexed | .configureRound _ _ | .setLoop | .debug | .discardPairs => ⟨1, 0⟩
  | .unary _ | .copyIndexed | .readStorage | .readCvt | .getInfo => ⟨1, 1⟩
  | .dup => ⟨1, 2⟩
  | .writeStorage | .writeCvtPixels | .writeCvtUnits => ⟨2, 0⟩
  | .binary _ => ⟨2, 1⟩
  | .swap => ⟨2, 2⟩
  | .roll => ⟨3, 3⟩
  | .discardPoints pops => ⟨pops, 0⟩
  | .neutral pops pushes => ⟨pops, pushes⟩

/-- The number of values that an instruction pushes, inline operands and variation
coordinates included. -/
def Instruction.pushCount (ins : Instruction) (font : FontInstance) : Nat :=
  match ins.opcode.operation with
  | .pushOperands => ins.operandValues.length
  | .getVariation => font.axisCount.toNat
  | _ => ins.opcode.stackEffect.pushes

/-- The operation of an instruction pops and pushes as many values as its opcode says. -/
theorem Instruction.stackEffect_operation (font : FontInstance) (ins : Instruction) :
    ins.opcode.operation.stackEffect font ins =
      ⟨ins.opcode.stackEffect.pops, ins.pushCount font⟩ := by
  obtain ⟨op, operands, pc⟩ := ins
  cases op <;> rfl

open Workspace in
/-- Every operation keeps the stack within its limit, and only one that leaves more values
than it takes can fail for want of room. -/
theorem Operation.fits_execute (site : Site) (ins : Instruction) (op : Operation) :
    Fits ((op.stackEffect site.font ins).pops < (op.stackEffect site.font ins).pushes)
      Workspace.stack 0 0 (op.execute site ins) := by
  cases op with
  | pushOperands => exact fits_onStack (fits_pushAll _ (Nat.eq_zero_or_pos _))
  | dup => exact fits_onStack (fits_dup (Nat.lt_succ_self 1))
  | pop => exact fits_onStack ((fits_popMany 1).weaken (Nat.zero_le _))
  | clear => exact fits_onStack fits_clear
  | swap => exact fits_onStack fits_swap
  | depth => exact fits_onStack fun s => fits_push (Int32.ofNat s.depth) (.inr Nat.one_pos) s
  | copyIndexed => exact fits_onStack fits_copyIndexed
  | moveIndexed => exact fits_onStack fits_moveIndexed
  | roll => exact fits_onStack fits_roll
  | unary op => exact Fits.get.bind fun w => fits_onStack (fits_applyUnary fun _ => nofun)
  | binary op => exact fits_onStack (fits_applyBinary (BinaryOp.apply_ne_error (by nofun) op))
  | readStorage => exact fits_loadStorage
  | writeStorage => exact fits_storeStorage
  | readCvt => exact fits_loadCvt
  | writeCvtPixels => exact fits_storeCvt _
  | writeCvtUnits => exact fits_storeCvt _
  | setRoundMode mode => exact .modify fun _ => rfl
  | configureRound mode gridPeriod => exact fits_configureRound mode gridPeriod
  | setLoop => exact fits_setLoop
  | jump test => exact fits_jump site test
  | pixelsPerEm => exact fits_onStack (fits_push _ (.inr Nat.one_pos))
  | pointSize => exact fits_onStack (fits_push _ (.inr Nat.one_pos))
  | getInfo => exact fits_onStack (fits_applyUnary fun _ => nofun)
  | getVariation =>
      exact fits_onStack (fits_pushTimes _ _ ((Nat.eq_zero_or_pos _).imp_left Nat.le_of_eq))
  | getData => exact fits_onStack (fits_push _ (.inr Nat.one_pos))
  | debug => exact fits_onStack ((fits_popMany 1).weaken (Nat.zero_le _))
  | pushAxis =>
      exact fits_onStack ((fits_push _ (.inr Nat.two_pos)).bind fun _ =>
        fits_push _ (.inr Nat.two_pos))
  | discardPairs => exact fits_onStack fits_discardPairs
  | discardPoints pops => exact (fits_onStack (fits_popMany pops)).bind fun _ => fits_discardPoints
  | neutral pops pushes =>
      refine fits_onStack ((fits_popMany pops).bind fun _ => fits_pushTimes _ _ ?_)
      rw [Nat.zero_add]
      exact (Nat.lt_or_ge pops pushes).symm

/-- The workspace with some operands replaced by one value, whatever the limit of the stack. -/
def Workspace.replaced (w : Workspace) (n : Nat) (v : Value) : Workspace :=
  { w.popped n with stack := (w.popped n).stack.cons v }

/-- A function of one operand replaces it by its image. -/
theorem Instruction.execute_unary {ins : Instruction} {op : UnaryOp} {w : Workspace} {a : Value}
    {rest : List Value} (hop : ins.opcode.operation = .unary op)
    (hvalues : w.stack.values = a :: rest) (hroom : w.stack.hasRoom 0 = true) (site : Site) :
    ins.execute site w = .ok () (w.replaced 1 (op.apply w.graphics.round a)) := by
  have hdepth : 1 ≤ w.stack.depth := by simp [w.stack.depth_eq, hvalues]
  have hfits : (w.popped 1).stack.hasRoom 1 = true := OperandStack.hasRoom_drop hroom hdepth
  rw [execute, hop]
  simp only [Operation.execute, OperandStack.applyUnary, bind_apply, get_apply,
    Workspace.onStack_bind, Workspace.onStack_pop_cons hvalues]
  simp [Workspace.onStack, OperandStack.push, hfits, Workspace.replaced]

/-- A function of two operands replaces them by their image, for which there is room then, or
it fails and they are gone. -/
theorem Instruction.execute_binary {ins : Instruction} {op : BinaryOp} {w : Workspace}
    {a b : Value} {rest : List Value} (hop : ins.opcode.operation = .binary op)
    (hvalues : w.stack.values = b :: a :: rest) (hroom : w.stack.hasRoom 0 = true) (site : Site) :
    ins.execute site w = match op.apply a b with
      | .ok v => .ok () { w.popped 2 with stack := (w.popped 2).stack.cons v }
      | .error fault => .error fault (w.popped 2) := by
  have hnext : (w.popped 1).stack.values = a :: rest := by simp [hvalues]
  have hdepth : 2 ≤ w.stack.depth := by simp [w.stack.depth_eq, hvalues]
  have hfits : (w.popped 2).stack.hasRoom 1 = true :=
    OperandStack.hasRoom_of_le (OperandStack.hasRoom_drop hroom hdepth) (by decide)
  rw [execute, hop]
  simp only [Operation.execute, OperandStack.applyBinary, Workspace.onStack_bind, bind_apply,
    Workspace.onStack_pop_cons hvalues, Workspace.onStack_pop_cons hnext, Workspace.popped_popped]
  cases op.apply a b with
  | error fault => rfl
  | ok v => simp [Workspace.onStack, OperandStack.push, hfits]

end GridFit
