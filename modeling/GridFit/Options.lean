import GridFit.Value

/-!
# Options

The limits under which a machine runs and the parameters of the font instance
that its programs can ask for.
-/

namespace GridFit

/-- The font instance being fitted. -/
structure FontInstance where
  /-- The number of pixels per em. -/
  ppem : UInt16 := 0
  /-- The point size, a 26.6 number. -/
  pointSize : Value := 0
  /-- The factor from font units to 26.6 pixels, a 16.16 number. -/
  scale : Value := 0x10000
  /-- The number of variation axes, zero for a font without variations. -/
  axisCount : UInt16 := 0
deriving DecidableEq, Repr

/-- The limits that a font declares for itself. -/
structure MaximumProfile where
  /-- The number of storage cells. -/
  storage : UInt16 := 0
  /-- The number of function definitions. -/
  functionDefs : UInt16 := 0
  /-- The number of instruction definitions. -/
  instructionDefs : UInt16 := 0
  /-- The depth of the operand stack. -/
  stackElements : UInt16 := 0
deriving DecidableEq, Repr

/-- The configuration of a machine. A limit of `none` is no limit. -/
structure Options extends FontInstance where
  /-- The greatest depth of the operand stack. -/
  stackLimit : Option Nat := none
  /-- The number of storage cells. -/
  storageSize : Nat := 64
  /-- The greatest number of function keys. -/
  functionLimit : Option Nat := none
  /-- The greatest number of instruction keys. -/
  instructionLimit : Option Nat := none
  /-- The greatest number of nested calls. -/
  callLimit : Nat := 32
  /-- The execution budget of one run. -/
  budget : Nat := 1000000
  /-- The initial control values. -/
  cvt : List Value := []
deriving DecidableEq, Repr

/-- Takes over the limits that a font declares. The stack gets some headroom, since
fonts tend to underestimate their own use of it. -/
def Options.withProfile (o : Options) (p : MaximumProfile) : Options :=
  { o with
    storageSize := p.storage.toNat
    functionLimit := some p.functionDefs.toNat
    instructionLimit := some p.instructionDefs.toNat
    stackLimit := some (p.stackElements.toNat + 32) }

end GridFit
