import GridFit.Opcode.Basic

/-!
# Properties of opcodes

How many inline operand bytes follow an opcode, how control flow classifies it,
and how many values it takes from the operand stack and leaves there.
-/

namespace GridFit

/-- How the operands that follow an opcode in the instruction stream are measured. -/
inductive InlineForm where
  /-- So many operand bytes follow. -/
  | fixed (size : Nat)
  /-- The next byte counts the operands, which have the given width. -/
  | counted (width : Nat)
deriving DecidableEq, Repr

/-- The category of an instruction with respect to control flow. -/
inductive Kind where
  /-- Neither branches, nor defines, nor calls. -/
  | generic
  | ifTest
  | elseMark
  | endIf
  | functionDef
  | instructionDef
  | endDef
  | call
  | loopCall
deriving DecidableEq, Repr

/-- How many values an opcode pops and how many it then pushes, apart from what
depends on the loop counter or on the values themselves. -/
structure StackEffect where
  /-- The number of values popped. -/
  pops : Nat
  /-- The number of values pushed. -/
  pushes : Nat
deriving DecidableEq, Repr

namespace Opcode

/-- Whether the opcode pushes inline operands that are 16-bit words. -/
def pushesWords : Opcode → Bool
  | npushw | pushw _ => true
  | _ => false

/-- Whether the opcode pushes inline operands. -/
def isPush : Opcode → Bool
  | npushb | npushw | pushb _ | pushw _ => true
  | _ => false

/-- Whether the opcode takes one point number for each turn of the loop counter. -/
def takesPoints : Opcode → Bool
  | shp _ | shpix | ip | flippt | alignrp => true
  | _ => false

/-- The operands that follow an opcode. -/
def inlineForm : Opcode → InlineForm
  | npushb => .counted 1
  | npushw => .counted 2
  | pushb n => .fixed (n.val + 1)
  | pushw n => .fixed (2 * (n.val + 1))
  | _ => .fixed 0

/-- The encoded length in bytes, or the negated operand width if a byte in the
stream counts the operands. -/
def encodedLength (op : Opcode) : Int :=
  match op.inlineForm with
  | .fixed size => size + 1
  | .counted width => -width

/-- The control flow category of an opcode. -/
def kind : Opcode → Kind
  | ifTest => .ifTest
  | elseMark => .elseMark
  | endIf => .endIf
  | fdef => .functionDef
  | idef => .instructionDef
  | endf => .endDef
  | call => .call
  | loopcall => .loopCall
  | _ => .generic

/-- The values that an opcode pops and pushes. -/
def stackEffect : Opcode → StackEffect
  | svtca _ | spvtca _ | sfvtca _ | sfvtpv | rtg | rthg | elseMark | clear | endf | iup _ |
    shp _ | ip | alignrp | rtdg | npushb | npushw | flipon | flipoff | endIf | roff | rutg |
    rdtg | flippt | getvariation => ⟨0, 0⟩
  | depth | mppem | mps | getdata => ⟨0, 1⟩
  | gpv | gfv => ⟨0, 2⟩
  | srp0 | srp1 | srp2 | szp0 | szp1 | szp2 | szps | sloop | smd | jmpr | scvtci | sswci | ssw
    | pop | mindex | utp | call | fdef | mdap _ | shc _ | shz _ | shpix | debug | ifTest |
    deltap1 | sdb | sds | deltap2 | deltap3 | deltac1 | deltac2 | deltac3 | sround | s45round
    | sangw | aa | scanctrl | idef | scantype | mdrp _ => ⟨1, 0⟩
  | cindex | rs | rcvt | gc _ | odd | even | not | abs | neg | floor | ceiling | round _ |
    nround _ | getinfo => ⟨1, 1⟩
  | dup => ⟨1, 2⟩
  | spvtl _ | sfvtl _ | spvfs | sfvfs | alignpts | loopcall | msirp _ | miap _ | ws | wcvtp |
    scfs | wcvtf | jrot | jrof | fliprgon | fliprgoff | sdpvtl _ | instctrl | mirp _ => ⟨2, 0⟩
  | md _ | lt | lteq | gt | gteq | eq | neq | and | or | add | sub | div | mul | max | min => ⟨2, 1⟩
  | swap => ⟨2, 2⟩
  | roll => ⟨3, 3⟩
  | isect => ⟨5, 0⟩
  | pushb n | pushw n => ⟨0, n.val + 1⟩

end Opcode

end GridFit
