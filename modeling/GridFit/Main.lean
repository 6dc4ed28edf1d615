import GridFit.CommandLine.Session

/-!
# The command

Reads the files that the arguments name and prints the output of the session.
-/

namespace GridFit.CommandLine

/-- The reading fault behind a system error. -/
def ReadFault.ofSystem : IO.Error → ReadFault
  | .noFileOrDirectory .. => .notFound
  | .inappropriateType .. => .isDirectory
  | e => .other (toString e)

/-- The contents of a file, or the reason why there are none. -/
def readFile (path : String) : IO (Except ReadFault (List UInt8)) := do
  try
    return .ok (← IO.FS.readBinFile path).toList
  catch e =>
    return .error (.ofSystem e)

/-- The contents of all files that a command line names. -/
def readFiles (a : Arguments) : IO Files := do
  let contents ← a.files.mapM fun path => return (path, ← readFile path)
  return fun path => (contents.lookup path).getD (.error .notFound)

end GridFit.CommandLine

open GridFit.CommandLine in
/-- Disassembles and runs hinting programs. -/
def main (args : List String) : IO UInt32 := do
  let output ← match Arguments.ofList args with
    | .ok a => pure (session (← readFiles a) a)
    | .error e => pure (.ofUsageError e)
  (← IO.getStdout).putStr output.stdout
  (← IO.getStderr).putStr output.stderr
  return output.exitCode
