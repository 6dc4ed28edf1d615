import GridFit.Cells
import GridFit.Options
import GridFit.Rounding
import GridFit.OperandStack

/-!
# The workspace of an instruction

Everything that an instruction can change by itself: the operand stack, the two
memories, the graphics state, and the jump that it asks for.
-/

namespace GridFit

/-- The part of the graphics state that operands depend on. -/
structure GraphicsState where
  /-- The parameters of rounding. -/
  round : RoundState := {}
  /-- How often the next instruction that takes points repeats. -/
  loopCounter : Nat := 1
deriving DecidableEq, Repr

/-- What an instruction works on. -/
structure Workspace where
  /-- The operand stack. -/
  stack : OperandStack
  /-- The graphics state. -/
  graphics : GraphicsState := {}
  /-- The storage area. -/
  storage : Cells .storage
  /-- The control value table, in 26.6 pixels. -/
  cvt : Cells .cvt
  /-- The jump asked for: a number of instructions if it is positive, nothing if it
  is zero, and otherwise a number of bytes that nobody acts on. -/
  requestedJump : Value := 0
deriving DecidableEq, Repr

/-- Work on a workspace that may fail. -/
abbrev WorkM := EStateM Fault Workspace

namespace Workspace

open OperandStack

/-- The workspace with which a machine starts. -/
def ofOptions (o : Options) : Workspace :=
  { stack := .empty o.stackLimit
    storage := .zeros o.storageSize
    cvt := { values := o.cvt.toArray } }

/-- Does something to the operand stack of a workspace. -/
def onStack {α : Type} (x : StackM α) : WorkM α := fun w =>
  match x w.stack with
  | .ok a s => .ok a { w with stack := s }
  | .error fault s => .error fault { w with stack := s }

/-- Does something to the storage area of a workspace. -/
def onStorage {α : Type} (x : EStateM Fault (Cells .storage) α) : WorkM α := fun w =>
  match x w.storage with
  | .ok a c => .ok a { w with storage := c }
  | .error fault c => .error fault { w with storage := c }

/-- Does something to the control value table of a workspace. -/
def onCvt {α : Type} (x : EStateM Fault (Cells .cvt) α) : WorkM α := fun w =>
  match x w.cvt with
  | .ok a c => .ok a { w with cvt := c }
  | .error fault c => .error fault { w with cvt := c }

/-- Replaces a location by the value that the storage area holds there. -/
def loadStorage : WorkM Unit := do
  let location ← onStack popLocation
  let v ← attempt ((← get).storage.get location)
  onStack (push v)

/-- Replaces a location by the value that the control value table holds there. -/
def loadCvt : WorkM Unit := do
  let location ← onStack popLocation
  let v ← attempt ((← get).cvt.get location)
  onStack (push v)

/-- Writes the topmost value to the storage location below it. -/
def storeStorage : WorkM Unit := do
  let v ← onStack pop
  let location ← onStack popLocation
  onStorage (Cells.put location v)

/-- Writes the image of the topmost value to the control value location below it. -/
def storeCvt (f : Value → Value) : WorkM Unit := do
  let v ← onStack pop
  let location ← onStack popLocation
  onCvt (Cells.put location (f v))

/-- Chooses a fixed way to round and keeps the configured grid. -/
def setRoundMode (mode : RoundMode) : WorkM Unit :=
  modify fun w =>
    { w with graphics := { w.graphics with round := { w.graphics.round with mode } } }

/-- Configures a grid from the topmost value. -/
def configureRound (mode : RoundMode) (gridPeriod : Value) : WorkM Unit := do
  let selector ← onStack pop
  modify fun w =>
    { w with graphics := { w.graphics with round := .configure mode gridPeriod selector } }

/-- Replaces the loop counter. -/
def putLoop (n : Nat) : WorkM Unit :=
  modify fun w => { w with graphics := { w.graphics with loopCounter := n } }

/-- Sets the loop counter to the topmost value, but to no more than 16 bits hold. -/
def setLoop : WorkM Unit := do
  let n ← onStack pop
  if n < 0 then throw .negativeLoopCounter
  else putLoop (min n.toInt.toNat 0xFFFF)

/-- Discards as many values as the loop counter says, which then is one again. -/
def discardPoints : WorkM Unit := do
  let count := (← get).graphics.loopCounter
  putLoop 1
  onStack (popMany count)

end Workspace

end GridFit
