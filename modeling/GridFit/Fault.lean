import GridFit.Program.Decode

/-!
# Execution faults

Every way in which running a program can go wrong, with its text, and a failure:
the fault together with the instruction at which it arose.
-/

namespace GridFit

/-- The two memories that instructions address by location. -/
inductive Area where
  /-- The storage area. -/
  | storage
  /-- The control value table. -/
  | cvt
deriving DecidableEq, Repr

/-- A marker that closes or divides something that was never opened. -/
inductive Unmatched where
  | elseMark
  | endIf
  | endDef
deriving DecidableEq, Repr

/-- Why an instruction could not be executed. -/
inductive Fault where
  /-- The program does not decode. -/
  | malformedProgram (cause : DecodeFault)
  /-- An operand is missing. -/
  | stackUnderflow
  /-- The operand stack has no room left. -/
  | stackOverflow
  /-- A branch or definition marker stands alone. -/
  | unmatched (marker : Unmatched)
  /-- No closed definition has this key. -/
  | undefinedFunction (key : Value)
  /-- A new key would exceed the number of definitions allowed. -/
  | tooManyDefinitions
  /-- Calls are nested too deeply. -/
  | callStackOverflow
  /-- A divisor is zero. -/
  | divideByZero
  /-- A location lies beyond the end of a memory. -/
  | outOfBounds (area : Area) (location : Nat)
  /-- The loop counter would become negative. -/
  | negativeLoopCounter
  /-- A jump does not lead to an instruction. -/
  | invalidJump
  /-- The execution budget is used up. -/
  | budgetExceeded
deriving DecidableEq, Repr

/-- The text for a marker that stands alone. -/
def Unmatched.message : Unmatched → String
  | .elseMark => "Else with no matching If"
  | .endIf => "End If with no matching If"
  | .endDef => "End function with no matching function-definition start"

/-- The name of a memory in messages. -/
def Area.name : Area → String
  | .storage => "storage area"
  | .cvt => "cvt"

/-- The text of a fault. -/
def Fault.message : Fault → String
  | .malformedProgram cause => "malformed program: " ++ cause.message
  | .stackUnderflow => "value stack underflow"
  | .stackOverflow => "value stack overflow"
  | .unmatched marker => marker.message
  | .undefinedFunction key =>
      "function or instruction definition " ++ toString key.toInt ++ " not found"
  | .tooManyDefinitions => "too many function or instruction definitions"
  | .callStackOverflow => "call stack overflow"
  | .divideByZero => "attempt to divide by 0"
  | .outOfBounds area location =>
      area.name ++ " index " ++ toString location ++ " was out of bounds"
  | .negativeLoopCounter => "attempt to set the loop counter to a negative value"
  | .invalidJump => "the target of a jump instruction was invalid"
  | .budgetExceeded => "too many instructions executed"

/-- The value of a computation, or its fault with the state left alone. -/
def attempt {σ α : Type} (x : Except Fault α) : EStateM Fault σ α := fun s =>
  match x with
  | .ok a => .ok a s
  | .error fault => .error fault s

/-- A fault and where it arose. -/
structure Failure where
  /-- The offset of the failing instruction. -/
  pc : Nat
  /-- The failing opcode, if one was decoded. -/
  opcode : Option Opcode
  /-- The cause. -/
  fault : Fault
deriving DecidableEq, Repr

namespace Failure

/-- A fault of the given instruction. -/
def ofInstruction (ins : Instruction) (fault : Fault) : Failure :=
  { pc := ins.pc, opcode := some ins.opcode, fault }

/-- A program that does not decode. -/
def ofDecodeError (e : DecodeError) : Failure :=
  { pc := e.pc, opcode := none, fault := .malformedProgram e.fault }

/-- The text of a failure: its offset, the opcode if there is one, and the cause. -/
def message (f : Failure) : String :=
  let opcode := match f.opcode with
    | some op => op.name ++ ":"
    | none => ""
  "@" ++ toString f.pc ++ ":" ++ opcode ++ " " ++ f.fault.message

end Failure

end GridFit
