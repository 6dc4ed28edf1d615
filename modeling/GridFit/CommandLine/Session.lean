import GridFit.Bytes.Hex
import GridFit.CommandLine.Arguments
import GridFit.Machine.Run
import GridFit.Program.Listing
import GridFit.Summary

/-!
# Sessions

A session loads all programs, decodes them in order, and executes them in order on one
machine. The state of the machine is reported even after a failure, since it shows how
far the programs got. A machine whose storage area is larger than any memory can be is not
made: the session breaks off instead.
-/

namespace GridFit.CommandLine

/-- Why a file could not be read. -/
inductive ReadFault where
  /-- There is no such file. -/
  | notFound
  /-- The file is a directory. -/
  | isDirectory
  /-- Something else, in words. -/
  | other (text : String)
deriving DecidableEq, Repr

/-- The text of a reading fault, with the error number of the system. -/
def ReadFault.message : ReadFault → String
  | notFound => "No such file or directory (os error 2)"
  | isDirectory => "Is a directory (os error 21)"
  | other text => text

/-- The contents of files by path. -/
abbrev Files := String → Except ReadFault (List UInt8)

/-- Why a session ends early. -/
inductive SessionError where
  /-- A file could not be read. -/
  | unreadable (path : String) (fault : ReadFault)
  /-- The program argument is not hexadecimal. -/
  | invalidHex (e : Hex.HexError)
  /-- A program does not decode. -/
  | malformed (name : String) (e : DecodeError)
  /-- A program fails. -/
  | failed (name : String) (failure : Failure)
deriving DecidableEq, Repr

/-- The text of a session error. -/
def SessionError.message : SessionError → String
  | unreadable path fault => "could not read '" ++ path ++ "': " ++ fault.message
  | invalidHex e => "invalid hex input: " ++ e.message
  | malformed name e => name ++ ": " ++ e.message
  | failed name failure => name ++ ": " ++ failure.message

/-- What a command prints and returns. -/
structure Output where
  /-- The exit code. -/
  exitCode : UInt32
  /-- The text on the standard output. -/
  stdout : String
  /-- The text on the standard error output. -/
  stderr : String
deriving DecidableEq, Repr

/-- A program in bytes, and its name. -/
structure Input where
  /-- The path of the file, or a name for the program argument. -/
  name : String
  /-- The program. -/
  bytes : List UInt8
deriving DecidableEq, Repr

/-- A decoded program, and its name. -/
structure Program where
  /-- The name of the input. -/
  name : String
  /-- The instructions. -/
  instructions : Array Instruction
deriving DecidableEq, Repr

/-- Loads files in order. -/
def loadFiles (files : Files) : List String → Except SessionError (List Input)
  | [] => .ok []
  | path :: rest =>
      match files path with
      | .error fault => .error (.unreadable path fault)
      | .ok bytes =>
          match loadFiles files rest with
          | .error e => .error e
          | .ok inputs => .ok ({ name := path, bytes } :: inputs)

/-- Loads the program argument, if there is one. -/
def loadHex : Option String → Except SessionError (List Input)
  | none => .ok []
  | some text =>
      match Hex.decode text with
      | .error e => .error (.invalidHex e)
      | .ok bytes => .ok [{ name := "<hex>", bytes }]

/-- Loads all inputs, the program argument last. -/
def loadInputs (files : Files) (a : Arguments) : Except SessionError (List Input) :=
  match loadFiles files a.files with
  | .error e => .error e
  | .ok inputs =>
      match loadHex a.hex with
      | .error e => .error e
      | .ok more => .ok (inputs ++ more)

/-- Decodes inputs in order. Those before the first one that does not decode count as
decoded. -/
def decodeInputs : List Input → List Program × Option SessionError
  | [] => ([], none)
  | input :: rest =>
      match parse input.bytes with
      | .error e => ([], some (.malformed input.name e))
      | .ok instructions =>
          let (programs, failure) := decodeInputs rest
          ({ name := input.name, instructions } :: programs, failure)

/-- Executes programs in order up to the first that fails. -/
def executePrograms (m : Machine) : List Program → Machine × Option SessionError
  | [] => (m, none)
  | program :: rest =>
      let outcome := m.execute program.instructions
      match outcome.failure with
      | some failure => (outcome.machine, some (.failed program.name failure))
      | none => executePrograms outcome.machine rest

/-- The report of a machine in the form asked for. -/
def report (a : Arguments) (m : Machine) : String :=
  if a.json then m.summary.toJson.pretty ++ "\n" else m.summary.text

/-- The listings of programs, if they are asked for. -/
def listings (a : Arguments) (programs : List Program) : String :=
  if a.disassemble then
    String.join (programs.map fun p => listing p.name p.instructions)
  else ""

/-- The output of a session that printed a text and ended early or not. -/
def Output.ofResult (stdout : String) : Option SessionError → Output
  | none => { exitCode := 0, stdout, stderr := "" }
  | some e => { exitCode := 1, stdout, stderr := e.message ++ "\n" }

/-- The output of a session that printed a text and then asked for a larger memory than there
can be. -/
def Output.ofCapacityOverflow (stdout : String) : Output :=
  { exitCode := 101, stdout, stderr := "capacity overflow\n" }

/-- Carries out what a command line asks for. -/
def session (files : Files) (a : Arguments) : Output :=
  match loadInputs files a with
  | .error e => .ofResult "" (some e)
  | .ok inputs =>
      match decodeInputs inputs with
      | (programs, some e) => .ofResult (listings a programs) (some e)
      | (programs, none) =>
          if a.noRun then .ofResult (listings a programs) none
          else if Cells.capacity < a.options.storageSize then
            .ofCapacityOverflow (listings a programs)
          else
            let (m, failure) := executePrograms (.ofOptions a.options) programs
            .ofResult (listings a programs ++ report a m) failure

/-- The output for a command line that asks for nothing that can be done. -/
def Output.ofUsageError (e : UsageError) : Output :=
  { exitCode := 2, stdout := "", stderr := "error: " ++ e.message ++ "\n" }

/-- Runs a command line. -/
def run (files : Files) (args : List String) : Output :=
  match Arguments.ofList args with
  | .ok a => session files a
  | .error e => .ofUsageError e

end GridFit.CommandLine
