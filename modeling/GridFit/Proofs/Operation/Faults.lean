import GridFit.Operation.Execute
import GridFit.Proofs.Computation

/-!
# Faults of operations

An operation can find too few operands or no room for its results, divide by zero, address a
location beyond the end of a memory, ask for a negative loop counter or jump to no
instruction. Whatever else can go wrong in a run goes wrong elsewhere.

## Implementation notes

The statements are made up as the operations are: of those on the stack first, then of
those on the workspace.
-/

namespace GridFit

/-- Whether an operation can report a fault. -/
def Fault.IsOperational : Fault → Prop
  | .stackUnderflow | .stackOverflow | .divideByZero | .outOfBounds _ _
  | .negativeLoopCounter | .invalidJump => True
  | _ => False

variable {α : Type}

/-! ## The operand stack -/

namespace OperandStack

theorem raises_pop : Raises Fault.IsOperational pop := by
  intro s fault s' h
  unfold pop at h
  split at h <;> cases h
  trivial

theorem raises_popLocation : Raises Fault.IsOperational popLocation :=
  raises_pop.bind fun v => .pure v.location

theorem raises_popMany (n : Nat) : Raises Fault.IsOperational (popMany n) := by
  intro s fault s' h
  unfold popMany at h
  split at h <;> cases h
  trivial

theorem raises_push (v : Value) : Raises Fault.IsOperational (push v) := by
  intro s fault s' h
  unfold push at h
  split at h <;> cases h
  trivial

theorem raises_pushAll (vs : List Value) : Raises Fault.IsOperational (pushAll vs) := by
  intro s fault s' h
  unfold pushAll at h
  split at h <;> cases h
  trivial

theorem raises_pushTimes (v : Value) (n : Nat) :
    Raises Fault.IsOperational (pushTimes v n) := by
  induction n with
  | zero => exact .pure ()
  | succ n ih => exact (raises_push v).bind fun _ => ih

theorem raises_pushDepth :
    Raises Fault.IsOperational (fun s => push (Int32.ofNat s.depth) s) :=
  fun _ _ _ h => raises_push _ _ _ _ h

theorem raises_discardPairs : Raises Fault.IsOperational discardPairs :=
  raises_popLocation.bind fun n => raises_popMany (2 * n)

theorem raises_applyUnary {f : Value → Except Fault Value}
    (hf : ∀ a fault, f a = .error fault → fault.IsOperational) :
    Raises Fault.IsOperational (applyUnary f) :=
  raises_pop.bind fun a => (Raises.attempt (hf a)).bind fun v => raises_push v

theorem raises_applyBinary {f : Value → Value → Except Fault Value}
    (hf : ∀ a b fault, f a b = .error fault → fault.IsOperational) :
    Raises Fault.IsOperational (applyBinary f) :=
  raises_pop.bind fun b => raises_pop.bind fun a =>
    (Raises.attempt (hf a b)).bind fun v => raises_push v

theorem raises_clear : Raises Fault.IsOperational clear := fun _ _ _ h => nomatch h

theorem raises_dup : Raises Fault.IsOperational dup := by
  intro s fault s' h
  unfold dup at h
  split at h
  · exact raises_push _ _ _ _ h
  · cases h
    trivial

theorem raises_swap : Raises Fault.IsOperational swap := by
  intro s fault s' h
  unfold swap at h
  split at h <;> cases h
  trivial

theorem raises_roll : Raises Fault.IsOperational roll := by
  intro s fault s' h
  unfold roll at h
  split at h <;> cases h
  trivial

theorem raises_copyIndexed : Raises Fault.IsOperational copyIndexed := by
  intro s fault s' h
  unfold copyIndexed at h
  split at h
  · split at h
    · cases h
      trivial
    · split at h <;> cases h
      trivial
  · cases h
    trivial

theorem raises_moveIndexed : Raises Fault.IsOperational moveIndexed := by
  apply raises_popLocation.bind
  intro position s fault s' h
  cases position with
  | zero =>
      cases h
      trivial
  | succ i =>
      simp only at h
      split at h <;> cases h
      trivial

end OperandStack

/-- A function of two operands fails only for a divisor that is zero. -/
theorem BinaryOp.eq_of_apply_error {op : BinaryOp} {a b : Value} {fault : Fault}
    (h : op.apply a b = .error fault) : fault = .divideByZero := by
  cases op with
  | div =>
      simp only [apply] at h
      split at h <;> cases h
      rfl
  | _ => cases h

theorem BinaryOp.apply_ne_error {fault : Fault} (hfault : fault ≠ .divideByZero) (op : BinaryOp)
    (a b : Value) : op.apply a b ≠ .error fault :=
  fun h => hfault (eq_of_apply_error h)

/-! ## The workspace -/

namespace Cells

variable {area : Area} {c : Cells area} {location : Nat}

/-- Reading fails only where there is no such location. -/
theorem eq_of_get_error {fault : Fault} (h : c.get location = .error fault) :
    fault = .outOfBounds area location := by
  unfold get at h
  split at h <;> cases h
  rfl

theorem get_ne_error {fault : Fault} (hfault : fault ≠ .outOfBounds area location) :
    c.get location ≠ .error fault :=
  fun h => hfault (eq_of_get_error h)

theorem isOperational_of_get {fault : Fault} (h : c.get location = .error fault) :
    fault.IsOperational := by
  rw [eq_of_get_error h]
  trivial

/-- Writing fails only where there is no such location. -/
theorem raises_put {possible : Fault → Prop} (hpossible : possible (.outOfBounds area location))
    (v : Value) : Raises possible (put location v : EStateM Fault (Cells area) Unit) := by
  intro s fault s' h
  unfold put at h
  split at h <;> cases h
  exact hpossible

end Cells

namespace Workspace

variable {possible : Fault → Prop}

theorem raises_onStack {x : StackM α} (hx : Raises possible x) : Raises possible (onStack x) := by
  intro w fault w' h
  unfold onStack at h
  split at h
  · cases h
  · next hstack =>
      cases h
      exact hx _ _ _ hstack

theorem raises_onStorage {x : EStateM Fault (Cells .storage) α} (hx : Raises possible x) :
    Raises possible (onStorage x) := by
  intro w fault w' h
  unfold onStorage at h
  split at h
  · cases h
  · next hstorage =>
      cases h
      exact hx _ _ _ hstorage

theorem raises_onCvt {x : EStateM Fault (Cells .cvt) α} (hx : Raises possible x) :
    Raises possible (onCvt x) := by
  intro w fault w' h
  unfold onCvt at h
  split at h
  · cases h
  · next hcvt =>
      cases h
      exact hx _ _ _ hcvt

theorem raises_loadStorage : Raises Fault.IsOperational loadStorage :=
  (raises_onStack OperandStack.raises_popLocation).bind fun _ => Raises.get.bind fun _ =>
    (Raises.attempt fun _ => Cells.isOperational_of_get).bind fun v =>
      raises_onStack (OperandStack.raises_push v)

theorem raises_loadCvt : Raises Fault.IsOperational loadCvt :=
  (raises_onStack OperandStack.raises_popLocation).bind fun _ => Raises.get.bind fun _ =>
    (Raises.attempt fun _ => Cells.isOperational_of_get).bind fun v =>
      raises_onStack (OperandStack.raises_push v)

theorem raises_storeStorage : Raises Fault.IsOperational storeStorage :=
  (raises_onStack OperandStack.raises_pop).bind fun v =>
    (raises_onStack OperandStack.raises_popLocation).bind fun _ =>
      raises_onStorage (Cells.raises_put trivial v)

theorem raises_storeCvt (f : Value → Value) : Raises Fault.IsOperational (storeCvt f) :=
  (raises_onStack OperandStack.raises_pop).bind fun v =>
    (raises_onStack OperandStack.raises_popLocation).bind fun _ =>
      raises_onCvt (Cells.raises_put trivial (f v))

theorem raises_configureRound (mode : RoundMode) (gridPeriod : Value) :
    Raises Fault.IsOperational (configureRound mode gridPeriod) :=
  (raises_onStack OperandStack.raises_pop).bind fun _ => .modify _

theorem raises_setLoop : Raises Fault.IsOperational setLoop := by
  apply (raises_onStack OperandStack.raises_pop).bind
  intro n
  split
  · exact .throw trivial
  · exact .modify _

theorem raises_discardPoints : Raises Fault.IsOperational discardPoints :=
  Raises.get.bind fun w => (Raises.modify _).bind fun _ =>
    raises_onStack (OperandStack.raises_popMany w.graphics.loopCounter)

theorem raises_isTaken (test : JumpTest) : Raises Fault.IsOperational test.isTaken := by
  cases test with
  | always => exact .pure true
  | onTrue => exact OperandStack.raises_pop.bind fun _ => .pure _
  | onFalse => exact OperandStack.raises_pop.bind fun _ => .pure _

theorem raises_jumpBy (site : Site) (offset : Value) :
    Raises Fault.IsOperational (jumpBy site offset) := by
  unfold jumpBy
  split
  · exact .modify _
  · split
    · exact .modify _
    · exact .throw trivial

theorem raises_jump (site : Site) (test : JumpTest) :
    Raises Fault.IsOperational (jump site test) := by
  apply (raises_onStack (raises_isTaken test)).bind
  intro taken
  apply (raises_onStack OperandStack.raises_pop).bind
  intro offset
  split
  · exact raises_jumpBy site offset
  · exact .pure ()

end Workspace

open Workspace in
/-- Every fault of an operation is one that operations can report. -/
theorem Operation.raises_execute (site : Site) (ins : Instruction) (op : Operation) :
    Raises Fault.IsOperational (op.execute site ins) := by
  cases op with
  | pushOperands => exact raises_onStack (OperandStack.raises_pushAll _)
  | dup => exact raises_onStack OperandStack.raises_dup
  | pop => exact raises_onStack (OperandStack.raises_popMany 1)
  | clear => exact raises_onStack OperandStack.raises_clear
  | swap => exact raises_onStack OperandStack.raises_swap
  | depth => exact raises_onStack OperandStack.raises_pushDepth
  | copyIndexed => exact raises_onStack OperandStack.raises_copyIndexed
  | moveIndexed => exact raises_onStack OperandStack.raises_moveIndexed
  | roll => exact raises_onStack OperandStack.raises_roll
  | unary op =>
      exact Raises.get.bind fun w => raises_onStack
        (OperandStack.raises_applyUnary fun _ _ h => nomatch h)
  | binary op =>
      refine raises_onStack (OperandStack.raises_applyBinary fun a b fault h => ?_)
      rw [BinaryOp.eq_of_apply_error h]
      trivial
  | readStorage => exact raises_loadStorage
  | writeStorage => exact raises_storeStorage
  | readCvt => exact raises_loadCvt
  | writeCvtPixels => exact raises_storeCvt _
  | writeCvtUnits => exact raises_storeCvt _
  | setRoundMode mode => exact .modify _
  | configureRound mode gridPeriod => exact raises_configureRound mode gridPeriod
  | setLoop => exact raises_setLoop
  | jump test => exact raises_jump site test
  | pixelsPerEm => exact raises_onStack (OperandStack.raises_push _)
  | pointSize => exact raises_onStack (OperandStack.raises_push _)
  | getInfo => exact raises_onStack (OperandStack.raises_applyUnary fun _ _ h => nomatch h)
  | getVariation => exact raises_onStack (OperandStack.raises_pushTimes _ _)
  | getData => exact raises_onStack (OperandStack.raises_push _)
  | debug => exact raises_onStack (OperandStack.raises_popMany 1)
  | pushAxis =>
      exact raises_onStack ((OperandStack.raises_push _).bind fun _ =>
        OperandStack.raises_push _)
  | discardPairs => exact raises_onStack OperandStack.raises_discardPairs
  | discardPoints pops =>
      exact (raises_onStack (OperandStack.raises_popMany pops)).bind fun _ =>
        raises_discardPoints
  | neutral pops pushes =>
      exact raises_onStack ((OperandStack.raises_popMany pops).bind fun _ =>
        OperandStack.raises_pushTimes _ _)

end GridFit
