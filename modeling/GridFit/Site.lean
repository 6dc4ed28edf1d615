import GridFit.Instruction
import GridFit.Options

/-!
# Positions in a running sequence

Jumps are given in bytes and carried out in instructions. The site of an instruction
is what it takes to get from the one to the other.
-/

namespace GridFit

/-- Where an instruction stands: the sequence that is being driven, the position in
it, and the font instance. -/
structure Site where
  /-- The font instance. -/
  font : FontInstance
  /-- The running sequence. -/
  sequence : Array Instruction
  /-- The position of the instruction in the sequence. -/
  index : Nat

namespace Site

/-- The offset just past the last instruction of a sequence. -/
def endOffset (sequence : Array Instruction) : Nat :=
  match sequence.back? with
  | some ins => ins.endOffset
  | none => 0

/-- The position that lies `offset` bytes after the instruction: the end of the
sequence or the first instruction that starts there. -/
def target? (site : Site) (offset : Nat) : Option Nat :=
  match site.sequence[site.index]? with
  | none => none
  | some ins =>
      if ins.pc + offset = endOffset site.sequence then some site.sequence.size
      else site.sequence.findIdx? fun other => other.pc == ins.pc + offset

end Site

end GridFit
