import GridFit.Operation.Basic

/-!
# Executing operations

Each operation pops its operands, checks them and only then writes, so a fault
leaves everything but the operands as it was.
-/

namespace GridFit

open Workspace (onStack)

/-- The version that the machine reports for itself. -/
def Operation.version : Value := 40

/-- The answer to a request for information. Bit 0 asks for the version, and bit 3
whether the font has variations, which bit 10 answers. -/
def Operation.info (font : FontInstance) (selector : Value) : Value :=
  (if selector &&& 1 != 0 then version else 0) |||
    (if selector &&& 8 != 0 && font.axisCount != 0 then 1024 else 0)

/-- Executes the operation of an instruction. -/
def Operation.execute (site : Site) (ins : Instruction) : Operation → WorkM Unit
  | .pushOperands => onStack (OperandStack.pushAll ins.operandValues)
  | .dup => onStack OperandStack.dup
  | .pop => onStack (OperandStack.popMany 1)
  | .clear => onStack OperandStack.clear
  | .swap => onStack OperandStack.swap
  | .depth => onStack fun s => OperandStack.push (Int32.ofNat s.depth) s
  | .copyIndexed => onStack OperandStack.copyIndexed
  | .moveIndexed => onStack OperandStack.moveIndexed
  | .roll => onStack OperandStack.roll
  | .unary op => do
      let round := (← get).graphics.round
      onStack (OperandStack.applyUnary fun a => .ok (op.apply round a))
  | .binary op => onStack (OperandStack.applyBinary op.apply)
  | .readStorage => Workspace.loadStorage
  | .writeStorage => Workspace.storeStorage
  | .readCvt => Workspace.loadCvt
  | .writeCvtPixels => Workspace.storeCvt id
  | .writeCvtUnits => Workspace.storeCvt fun v => Fixed.mul v site.font.scale
  | .setRoundMode mode => Workspace.setRoundMode mode
  | .configureRound mode gridPeriod => Workspace.configureRound mode gridPeriod
  | .setLoop => Workspace.setLoop
  | .jump test => Workspace.jump site test
  | .pixelsPerEm => onStack (OperandStack.push (Int32.ofNat site.font.ppem.toNat))
  | .pointSize => onStack (OperandStack.push site.font.pointSize)
  | .getInfo => onStack (OperandStack.applyUnary fun a => .ok (info site.font a))
  | .getVariation => onStack (OperandStack.pushTimes 0 site.font.axisCount.toNat)
  | .getData => onStack (OperandStack.push 17)
  | .debug => onStack (OperandStack.popMany 1)
  | .pushAxis => onStack do
      OperandStack.push 0x4000
      OperandStack.push 0
  | .discardPairs => onStack OperandStack.discardPairs
  | .discardPoints pops => do
      onStack (OperandStack.popMany pops)
      Workspace.discardPoints
  | .neutral pops pushes => onStack do
      OperandStack.popMany pops
      OperandStack.pushTimes 0 pushes

/-- Executes an instruction apart from branching, defining and calling. -/
def Instruction.execute (ins : Instruction) (site : Site) : WorkM Unit :=
  ins.opcode.operation.execute site ins

end GridFit
