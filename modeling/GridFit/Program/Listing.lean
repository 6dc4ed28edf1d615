import GridFit.Instruction

/-!
# Program listings

A listing names the program, counts its instructions, and gives each of them a line
with its offset.
-/

namespace GridFit

/-- The text set flush right in a column of the given width. -/
def padLeft (width : Nat) (text : String) : String :=
  String.ofList (List.replicate (width - text.length) ' ') ++ text

/-- The line of an instruction in a listing. -/
def Instruction.line (ins : Instruction) : String :=
  padLeft 6 (toString ins.pc) ++ ": " ++ ins.text ++ "\n"

/-- The listing of a program. -/
def listing (name : String) (program : Array Instruction) : String :=
  name ++ ": " ++ toString program.size ++ " instructions\n"
    ++ String.join (program.toList.map Instruction.line)

end GridFit
