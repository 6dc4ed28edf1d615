import GridFit.Machine.Basic

/-!
# Events

What a run reports while it goes on, as data. An event has a level of detail and a
text.
-/

namespace GridFit

/-- The levels of detail of events. -/
inductive EventLevel where
  /-- Notable changes of state. -/
  | debug
  /-- Every instruction. -/
  | trace
deriving DecidableEq, Repr

/-- Something that happens in a run. -/
inductive Event where
  /-- The instruction at a position of the running sequence has its turn. -/
  | dispatched (index : Nat) (ins : Instruction)
  /-- A jump moves on by a number of instructions. -/
  | jumped (index : Nat) (count : Value)
  /-- A jump by a number of bytes that is not positive goes nowhere. -/
  | jumpIgnored (index : Nat) (offset : Value)
  /-- A definition is opened inside another one, which stays open. -/
  | leftOpen (name : DefinitionName)
  /-- A definition is opened. -/
  | opened (name : DefinitionName)
  /-- A definition is closed. -/
  | closed (name : DefinitionName)
  /-- The body of a function is about to be replayed. -/
  | calling (function : Value) (count : Value) (depth : Nat)
  /-- A program reports a value. -/
  | reported (v : Value)
  /-- The run ends with a failure. -/
  | stopped (failure : Failure)
deriving DecidableEq, Repr

/-- The text that names a definition. -/
def DefinitionName.text (name : DefinitionName) : String :=
  name.kind.name ++ " " ++ toString name.key.toInt

/-- The name of a level. -/
def EventLevel.name : EventLevel → String
  | debug => "DEBUG"
  | trace => "TRACE"

/-- Whether a listener at this level hears events of the other level. -/
def EventLevel.hears : EventLevel → EventLevel → Bool
  | trace, _ => true
  | debug, level => level == debug

namespace Event

/-- The level of an event. -/
def level : Event → EventLevel
  | dispatched .. => .trace
  | _ => .debug

/-- The text of an event. -/
def text : Event → String
  | dispatched index ins => toString index ++ ": " ++ ins.text
  | jumped index count =>
      "jump from " ++ toString index ++ " by " ++ toString count.toInt ++ " instructions"
  | jumpIgnored index offset =>
      "ignored backward jump from " ++ toString index ++ " by " ++ toString offset.toInt
        ++ " bytes"
  | leftOpen name => name.text ++ " left open by nested definition"
  | opened name => "opened " ++ name.text
  | closed name => "closed " ++ name.text
  | calling function count depth =>
      "calling function " ++ toString function.toInt ++ " x" ++ toString count.toInt
        ++ " at depth " ++ toString depth
  | reported v => "DEBUG[] " ++ toString v.toInt
  | stopped failure => "execution stopped: " ++ failure.message

/-- The line that reports an event: its level and its text. -/
def line (e : Event) : String :=
  e.level.name ++ " " ++ e.text

/-- The lines for the events that a listener at the given level hears. -/
def log (level : EventLevel) (events : List Event) : List String :=
  (events.filter fun e => level.hears e.level).map line

end Event

end GridFit
