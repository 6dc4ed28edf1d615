import GridFit.Registry
import GridFit.Workspace

/-!
# The machine

A machine runs several programs in turn, typically the font program, the control
value program and the programs of glyphs. Its state carries over from one to the
next: operands, memories, graphics state, definitions, and also branches and
definitions that a program leaves open.
-/

namespace GridFit

/-- The name of a definition. -/
structure DefinitionName where
  /-- The family. -/
  kind : DefinitionKind
  /-- The function number or opcode. -/
  key : Value
deriving DecidableEq, Repr

/-- The state of a machine. -/
structure Machine extends Workspace where
  /-- The font instance. -/
  font : FontInstance
  /-- Whether each open branch executes, innermost first. -/
  branches : List Bool := []
  /-- The number of open tests inside a region that is skipped. -/
  skippedIfs : Nat := 0
  /-- The definition that is being recorded. -/
  recording : Option DefinitionName := none
  /-- The functions. -/
  functions : Registry
  /-- The instruction definitions. -/
  instructionDefs : Registry
  /-- The number of calls that are under way. -/
  callDepth : Nat := 0
  /-- The greatest number of calls that may be under way. -/
  callLimit : Nat
  /-- The execution budget of one run. -/
  budget : Nat
deriving DecidableEq, Repr

/-- Work on a machine that may fail. -/
abbrev MachineM := EStateM Fault Machine

namespace Machine

/-- A fresh machine. -/
def ofOptions (o : Options) : Machine :=
  { Workspace.ofOptions o with
    font := o.toFontInstance
    functions := { limit := o.functionLimit }
    instructionDefs := { limit := o.instructionLimit }
    callLimit := o.callLimit
    budget := o.budget }

/-- Whether instructions run at the current position. Only the innermost branch
counts. -/
def isExecuting (m : Machine) : Bool :=
  match m.branches with
  | [] => true
  | innermost :: _ => innermost

/-- The registry of a family of definitions. -/
def registry (m : Machine) : DefinitionKind → Registry
  | .function => m.functions
  | .instruction => m.instructionDefs

/-- The machine with another registry for a family of definitions. -/
def withRegistry (m : Machine) (kind : DefinitionKind) (r : Registry) : Machine :=
  match kind with
  | .function => { m with functions := r }
  | .instruction => { m with instructionDefs := r }

/-- Does something to the workspace of a machine. -/
def onWorkspace {α : Type} (x : WorkM α) : MachineM α := fun m =>
  match x m.toWorkspace with
  | .ok a w => .ok a { m with toWorkspace := w }
  | .error fault w => .error fault { m with toWorkspace := w }

/-- Pops an operand. -/
def pop : MachineM Value :=
  onWorkspace (Workspace.onStack OperandStack.pop)

/-- Changes the registry of a family of definitions, if the change succeeds. -/
def updateRegistry (kind : DefinitionKind) (f : Registry → Except Fault Registry) :
    MachineM Unit := fun m =>
  match f (m.registry kind) with
  | .ok r => .ok () (m.withRegistry kind r)
  | .error fault => .error fault m

end Machine

end GridFit
