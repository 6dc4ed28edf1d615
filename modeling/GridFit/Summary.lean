import GridFit.Json
import GridFit.Machine.Basic

/-!
# Summaries

A snapshot of what programs leave behind on a machine, as text and as JSON.
-/

namespace GridFit

/-- The size and state of a definition. -/
structure DefinitionSummary where
  /-- The function number or opcode. -/
  key : Value
  /-- The number of recorded instructions. -/
  length : Nat
  /-- Whether recording has ended. -/
  isClosed : Bool
deriving DecidableEq, Repr

/-- A snapshot of a machine. -/
@[ext] structure Summary where
  /-- The operands, bottom first. -/
  stack : List Value
  /-- The functions by ascending key. -/
  functions : List DefinitionSummary
  /-- The instruction definitions by ascending key. -/
  instructionDefs : List DefinitionSummary
  /-- The storage area. -/
  storage : List Value
  /-- The control values. -/
  cvt : List Value
deriving DecidableEq, Repr

/-- The summaries of all definitions of a registry. -/
def Registry.summary (r : Registry) : List DefinitionSummary :=
  r.iter.map fun (key, d) => { key, length := d.body.size, isClosed := d.isClosed }

/-- The snapshot of a machine. -/
def Machine.summary (m : Machine) : Summary :=
  { stack := m.stack.toList
    functions := m.functions.summary
    instructionDefs := m.instructionDefs.summary
    storage := m.storage.values.toList
    cvt := m.cvt.values.toList }

/-- The text of a list of values, in brackets and separated by commas. -/
def valuesText (vs : List Value) : String :=
  "[" ++ ", ".intercalate (vs.map fun v => toString v.toInt) ++ "]"

namespace DefinitionSummary

/-- The line for a definition. -/
def line (d : DefinitionSummary) : String :=
  "  " ++ toString d.key.toInt ++ ": " ++ toString d.length ++ " instructions"
    ++ (if d.isClosed then "" else " (open)") ++ "\n"

/-- The lines for all definitions of a family. -/
def lines (label : String) (ds : List DefinitionSummary) : String :=
  label ++ ": " ++ toString ds.length ++ "\n" ++ String.join (ds.map line)

/-- The document for a definition. -/
def toJson (d : DefinitionSummary) : Json :=
  .object
    [({ text := "key" }, .int d.key.toInt), ({ text := "len" }, .int d.length),
      ({ text := "is_closed" }, .bool d.isClosed)]

end DefinitionSummary

namespace Summary

/-- The text of a snapshot, a line for each part of it. -/
def text (s : Summary) : String :=
  "stack: " ++ valuesText s.stack ++ "\n"
    ++ DefinitionSummary.lines "functions" s.functions
    ++ DefinitionSummary.lines "instruction definitions" s.instructionDefs
    ++ "storage: " ++ valuesText s.storage ++ "\n"
    ++ "cvt: " ++ valuesText s.cvt ++ "\n"

/-- The document for a list of values. -/
def valuesJson (vs : List Value) : Json :=
  .array (vs.map fun v => .int v.toInt)

/-- The document for a snapshot. -/
def toJson (s : Summary) : Json :=
  .object
    [({ text := "stack" }, valuesJson s.stack),
      ({ text := "functions" }, .array (s.functions.map DefinitionSummary.toJson)),
      ({ text := "instruction_defs" }, .array (s.instructionDefs.map DefinitionSummary.toJson)),
      ({ text := "storage" }, valuesJson s.storage),
      ({ text := "cvt" }, valuesJson s.cvt)]

end Summary

end GridFit
