import GridFit.Machine.Event
import GridFit.Operation.Execute

/-!
# Dispatch

The meaning of an instruction to the machine. Branch and definition markers always
have their effect. Anything else is skipped in a branch that does not execute, is
recorded while a definition is open, and is executed otherwise.
-/

namespace GridFit

/-- What is to be done after an instruction. -/
structure Effect where
  /-- What the instruction reports. -/
  events : List Event := []
  /-- The body to replay before going on, and how often. -/
  replay : Option (Array Instruction × Nat) := none

namespace Machine

/-- Opens a branch. Where instructions are skipped, the test is only counted and its
operand stays on the stack. -/
def beginIf : MachineM Effect := do
  if (← get).isExecuting then
    let e ← pop
    modify fun m => { m with branches := (e != 0) :: m.branches }
  else
    modify fun m => { m with skippedIfs := m.skippedIfs + 1 }
  return {}

/-- Turns the innermost branch around, even if the marker belongs to a test that was
only counted. -/
def turnElse : MachineM Effect := fun m =>
  match m.branches with
  | [] => .error (.unmatched .elseMark) m
  | innermost :: rest => .ok {} { m with branches := (!innermost) :: rest }

/-- Ends a test that was only counted, or else the innermost branch. -/
def finishIf : MachineM Effect := fun m =>
  match m.skippedIfs, m.branches with
  | depth + 1, _ => .ok {} { m with skippedIfs := depth }
  | 0, _ :: rest => .ok {} { m with branches := rest }
  | 0, [] => .error (.unmatched .endIf) m

/-- Opens a definition, whatever the branches say. A definition that is open already
is left open. -/
def beginDefinition (kind : DefinitionKind) : MachineM Effect := do
  let key ← pop
  updateRegistry kind fun r => r.insert key
  let previous := (← get).recording
  modify fun m => { m with recording := some { kind, key } }
  return { events := (previous.map Event.leftOpen).toList ++ [.opened { kind, key }] }

/-- Closes the open definition. -/
def finishDefinition : MachineM Effect := do
  match (← get).recording with
  | none => throw (.unmatched .endDef)
  | some name =>
      modify fun m => { m with recording := none }
      updateRegistry name.kind fun r => r.close name.key
      return { events := [.closed name] }

/-- Skips, records or performs an instruction. -/
def unlessPassive (ins : Instruction) (perform : MachineM Effect) : MachineM Effect := do
  let m ← get
  if m.isExecuting then
    match m.recording with
    | some name =>
        updateRegistry name.kind fun r => r.record name.key ins
        return {}
    | none => perform
  else return {}

/-- What an instruction reports of its operands if it succeeds. -/
def reportOf (ins : Instruction) (m : Machine) : List Event :=
  if ins.opcode.operation = .debug then (m.stack.top?.map Event.reported).toList else []

/-- Executes an instruction that neither branches, nor defines, nor calls. -/
def executeGeneric (sequence : Array Instruction) (index : Nat) (ins : Instruction) :
    MachineM Effect := do
  let m ← get
  let events := reportOf ins m
  onWorkspace (ins.execute { font := m.font, sequence, index })
  return { events }

/-- Looks up the body that a call replays `count` times. A count that is not positive
asks for nothing, so that the function need not exist. -/
def enter (function count : Value) : MachineM Effect := do
  if count ≤ 0 then return {}
  else
    let m ← get
    let d ← attempt (m.functions.get function)
    if m.callLimit ≤ m.callDepth then throw .callStackOverflow
    else
      return {
        events := [.calling function count m.callDepth]
        replay := some (d.body, count.toInt.toNat) }

/-- Calls a function once. -/
def call : MachineM Effect := do
  let function ← pop
  enter function 1

/-- Calls a function as often as an operand says. -/
def loopCall : MachineM Effect := do
  let function ← pop
  let count ← pop
  enter function count

/-- Carries out the instruction at a position of the running sequence. -/
def dispatch (sequence : Array Instruction) (index : Nat) (ins : Instruction) :
    MachineM Effect :=
  match ins.kind with
  | .generic => unlessPassive ins (executeGeneric sequence index ins)
  | .ifTest => beginIf
  | .elseMark => turnElse
  | .endIf => finishIf
  | .functionDef => beginDefinition .function
  | .instructionDef => beginDefinition .instruction
  | .endDef => finishDefinition
  | .call => unlessPassive ins call
  | .loopCall => unlessPassive ins loopCall

end Machine

end GridFit
