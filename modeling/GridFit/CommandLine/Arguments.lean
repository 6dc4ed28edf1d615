import GridFit.CommandLine.Numeral
import GridFit.Options

/-!
# Arguments

What a command line asks for. Arguments are first told apart as files, switches and
settings with their values. These are then put together, each switch and each setting
but the list of control values at most once.
-/

namespace GridFit.CommandLine

/-- A flag without a value. -/
inductive Switch where
  /-- List the decoded instructions. -/
  | disassemble
  /-- Decode only. -/
  | noRun
  /-- Report the final state as JSON. -/
  | json
deriving DecidableEq, Repr

/-- A flag with a value. -/
inductive Setting where
  /-- A program in hexadecimal digits. -/
  | hex
  | ppem
  | pointSize
  | scale
  | axisCount
  | maxStorage
  | maxStack
  | maxInstructions
  /-- Control values, separated by commas. -/
  | cvt
deriving DecidableEq, Repr

/-- Why a command line asks for nothing that can be done. -/
inductive UsageError where
  /-- There is no such flag. -/
  | unknownFlag (arg : String)
  /-- A setting has no value. -/
  | missingValue (setting : Setting)
  /-- A switch has a value. -/
  | unexpectedValue (switch : Switch)
  /-- A value is not of the type of its setting. -/
  | invalidValue (setting : Setting) (value : String)
  /-- A switch stands more than once. -/
  | repeatedSwitch (switch : Switch)
  /-- A setting stands more than once. -/
  | repeatedSetting (setting : Setting)
  /-- A file has no name. -/
  | emptyFileName
  /-- There is no program. -/
  | noProgram
deriving DecidableEq, Repr

/-- A part of a command line. -/
inductive Item where
  | file (path : String)
  | switch (s : Switch)
  | setting (s : Setting) (value : String)
deriving DecidableEq, Repr

namespace Switch

/-- The long name of a switch. -/
def name : Switch → String
  | disassemble => "disassemble"
  | noRun => "no-run"
  | json => "json"

/-- The switch with the given long name. -/
def ofName? (name : String) : Option Switch :=
  [disassemble, noRun, json].find? fun s => s.name == name

/-- The switch with the given letter. -/
def ofLetter? : Char → Option Switch
  | 'd' => some disassemble
  | _ => none

end Switch

namespace Setting

/-- The name of a setting. -/
def name : Setting → String
  | hex => "hex"
  | ppem => "ppem"
  | pointSize => "point-size"
  | scale => "scale"
  | axisCount => "axis-count"
  | maxStorage => "max-storage"
  | maxStack => "max-stack"
  | maxInstructions => "max-instructions"
  | cvt => "cvt"

/-- The setting with the given name. -/
def ofName? (name : String) : Option Setting :=
  [hex, ppem, pointSize, scale, axisCount, maxStorage, maxStack, maxInstructions, cvt].find?
    fun s => s.name == name

/-- Whether an argument can be the value of the setting in front of it. What looks like
a flag cannot, except that a control value may be negative. -/
def acceptsNext (s : Setting) (arg : String) : Bool :=
  match arg.toList with
  | '-' :: c :: cs => s == cvt && (c :: cs).all fun c => '0' ≤ c && c ≤ '9'
  | _ => true

end Setting

/-- The switches that a group of letters stands for. -/
def lettered (arg : String) : List Char → Except UsageError (List Item)
  | [] => .ok []
  | c :: cs =>
      match Switch.ofLetter? c with
      | none => .error (.unknownFlag arg)
      | some s =>
          match lettered arg cs with
          | .ok items => .ok (.switch s :: items)
          | .error e => .error e

/-- Puts items in front of others that may have failed. -/
def prepend (items : List Item) : Except UsageError (List Item) → Except UsageError (List Item)
  | .ok rest => .ok (items ++ rest)
  | .error e => .error e

/-- The name of a flag, and the value behind the equals sign if there is one. -/
def nameAndValue (flag : List Char) : String × Option String :=
  match flag.dropWhile fun c => c != '=' with
  | [] => (String.ofList flag, none)
  | _ :: value =>
      (String.ofList (flag.takeWhile fun c => c != '='), some (String.ofList value))

/-- Tells the arguments apart. A double dash makes everything after it a file. -/
def items : List String → Except UsageError (List Item)
  | [] => .ok []
  | arg :: rest =>
      match arg.toList with
      | ['-', '-'] => .ok (rest.map .file)
      | '-' :: '-' :: flag =>
          let (name, value?) := nameAndValue flag
          match Switch.ofName? name, Setting.ofName? name, value? with
          | some s, _, none => prepend [.switch s] (items rest)
          | some s, _, some _ => .error (.unexpectedValue s)
          | none, some s, some value => prepend [.setting s value] (items rest)
          | none, some s, none =>
              match rest with
              | [] => .error (.missingValue s)
              | value :: rest =>
                  if s.acceptsNext value then prepend [.setting s value] (items rest)
                  else .error (.missingValue s)
          | none, none, _ => .error (.unknownFlag arg)
      | '-' :: c :: cs =>
          match lettered arg (c :: cs) with
          | .ok switches => prepend switches (items rest)
          | .error e => .error e
      | _ => prepend [.file arg] (items rest)

/-- What a command line asks for. -/
structure Arguments where
  /-- The files that hold programs, in order. -/
  files : List String := []
  /-- A program in hexadecimal digits, run after the files. -/
  hex : Option String := none
  /-- Whether to list the instructions. -/
  disassemble : Bool := false
  /-- Whether to decode only. -/
  noRun : Bool := false
  /-- Whether to report as JSON. -/
  json : Bool := false
  /-- The number of pixels per em. -/
  ppem : UInt16 := 16
  /-- The point size, if it is not that of the pixels per em. -/
  pointSize : Option Value := none
  /-- The factor from font units to pixels. -/
  scale : Value := 0x10000
  /-- The number of variation axes. -/
  axisCount : UInt16 := 0
  /-- The number of storage cells. -/
  maxStorage : Nat := 64
  /-- The greatest depth of the operand stack. -/
  maxStack : Option Nat := none
  /-- The execution budget, if it is not the default one. -/
  maxInstructions : Option Nat := none
  /-- The initial control values. -/
  cvt : List Value := []
deriving DecidableEq, Repr

/-- The parts of a text between its commas. -/
def betweenCommas (text : String) : List String :=
  (text.toList.splitOn ',').map String.ofList

namespace Arguments

/-- Throws a switch. -/
def throwSwitch (a : Arguments) : Switch → Arguments
  | .disassemble => { a with disassemble := true }
  | .noRun => { a with noRun := true }
  | .json => { a with json := true }

/-- Gives a setting a value, if the value is of its type. -/
def assign? (a : Arguments) (s : Setting) (text : String) : Option Arguments :=
  match s with
  | .hex => some { a with hex := some text }
  | .ppem => (Numeral.uint16? text).map fun n => { a with ppem := n }
  | .pointSize => (Numeral.value? text).map fun v => { a with pointSize := some v }
  | .scale => (Numeral.value? text).map fun v => { a with scale := v }
  | .axisCount => (Numeral.uint16? text).map fun n => { a with axisCount := n }
  | .maxStorage => (Numeral.size? text).map fun n => { a with maxStorage := n }
  | .maxStack => (Numeral.size? text).map fun n => { a with maxStack := some n }
  | .maxInstructions => (Numeral.size? text).map fun n => { a with maxInstructions := some n }
  | .cvt => ((betweenCommas text).mapM Numeral.value?).map fun vs => { a with cvt := a.cvt ++ vs }

/-- Adds an item to what a command line asks for, after the items before it. -/
def add (before : List Item) (a : Arguments) : Item → Except UsageError Arguments
  | .file path =>
      if path.isEmpty then .error .emptyFileName
      else .ok { a with files := a.files ++ [path] }
  | .switch s =>
      if before.contains (.switch s) then .error (.repeatedSwitch s)
      else .ok (a.throwSwitch s)
  | .setting s text =>
      let isRepeated := before.any fun
        | .setting t _ => t == s
        | _ => false
      if isRepeated && s != .cvt then .error (.repeatedSetting s)
      else
        match a.assign? s text with
        | some a => .ok a
        | none => .error (.invalidValue s text)

/-- Adds all items to what a command line asks for, after the items before them. -/
def addAll (before : List Item) (a : Arguments) : List Item → Except UsageError Arguments
  | [] => .ok a
  | item :: rest =>
      match a.add before item with
      | .ok a => a.addAll (item :: before) rest
      | .error e => .error e

/-- Reads a command line. It has to name a program. -/
def ofList (args : List String) : Except UsageError Arguments :=
  match items args with
  | .error e => .error e
  | .ok items =>
      match addAll [] {} items with
      | .error e => .error e
      | .ok a => if a.files.isEmpty && a.hex.isNone then .error .noProgram else .ok a

/-- The options for the machine. The point size is that of the pixels per em if nothing
else is said. -/
def options (a : Arguments) : Options :=
  { ppem := a.ppem
    pointSize := a.pointSize.getD (Int32.ofNat a.ppem.toNat * 64)
    scale := a.scale
    axisCount := a.axisCount
    storageSize := a.maxStorage
    stackLimit := a.maxStack
    budget := a.maxInstructions.getD ({} : Options).budget
    cvt := a.cvt }

end Arguments

/-- The text of a usage error. -/
def UsageError.message : UsageError → String
  | unknownFlag arg => "unexpected argument '" ++ arg ++ "'"
  | missingValue s => "a value is required for '--" ++ s.name ++ "'"
  | unexpectedValue s => "no value is expected for '--" ++ s.name ++ "'"
  | invalidValue s value => "invalid value '" ++ value ++ "' for '--" ++ s.name ++ "'"
  | repeatedSwitch s => "the argument '--" ++ s.name ++ "' cannot be used more than once"
  | repeatedSetting s => "the argument '--" ++ s.name ++ "' cannot be used more than once"
  | emptyFileName => "a file name is empty"
  | noProgram => "a program file or '--hex' is required"

end GridFit.CommandLine
