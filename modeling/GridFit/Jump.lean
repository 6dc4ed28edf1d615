import GridFit.Site
import GridFit.Workspace

/-!
# Jumps

A jump only asks for a new position. Whoever drives the sequence moves there.
-/

namespace GridFit

/-- The condition under which a jump is taken. -/
inductive JumpTest where
  /-- Always, without an operand for it. -/
  | always
  /-- If the topmost value is not zero. -/
  | onTrue
  /-- If the topmost value is zero. -/
  | onFalse
deriving DecidableEq, Repr

/-- Whether a jump is to be taken, by the operand that its test needs. -/
def JumpTest.isTaken : JumpTest → StackM Bool
  | .always => return true
  | .onTrue => return (← OperandStack.pop) != 0
  | .onFalse => return (← OperandStack.pop) == 0

namespace Workspace

/-- Asks for a jump. -/
def requestJump (jump : Value) : WorkM Unit :=
  modify fun w => { w with requestedJump := jump }

/-- Asks for a jump by a number of bytes. A forward jump is asked for as a number of
instructions, and any other one as it stands. -/
def jumpBy (site : Site) (offset : Value) : WorkM Unit :=
  if offset ≤ 0 then requestJump offset
  else
    match site.target? offset.toInt.toNat with
    | some target => requestJump (Int32.ofNat target - Int32.ofNat site.index)
    | none => throw .invalidJump

/-- Pops the operands of a jump, and asks for it if it is taken. -/
def jump (site : Site) (test : JumpTest) : WorkM Unit := do
  let taken ← onStack test.isTaken
  let offset ← onStack OperandStack.pop
  if taken then jumpBy site offset else return ()

end Workspace

end GridFit
