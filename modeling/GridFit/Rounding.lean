import GridFit.Fixed

/-!
# The round state

Distances are rounded by magnitude, so that rounding never changes a sign. Besides
the fixed grids there are two freely configured modes, whose period, phase and
threshold are packed into one selector.
-/

namespace GridFit

/-- The ways to round a distance. -/
inductive RoundMode where
  /-- To the nearest pixel. -/
  | grid
  /-- To the nearest pixel centre. -/
  | halfGrid
  /-- To the nearest half pixel. -/
  | doubleGrid
  /-- To the pixel nearer to zero. -/
  | downToGrid
  /-- To the pixel farther from zero. -/
  | upToGrid
  /-- Not at all. -/
  | off
  /-- To the configured grid, whose period is a power of two. -/
  | super
  /-- To the configured grid along a diagonal. -/
  | super45
deriving DecidableEq, Repr

/-- The parameters of rounding. The last three only matter to configured grids. -/
structure RoundState where
  /-- The way to round. -/
  mode : RoundMode := .grid
  /-- The amount added to a distance before it is cut down to a period. -/
  threshold : Value := 0
  /-- The offset of the grid from zero. -/
  phase : Value := 0
  /-- The distance between grid lines. -/
  period : Value := 64
deriving DecidableEq, Repr

namespace RoundState

/-- A magnitude on the configured grid. Rounding that would turn the sign gives the phase. -/
def atLeastPhase (r : RoundState) (v : Value) : Value :=
  if v < 0 then r.phase else v

/-- Rounds a magnitude. -/
def roundMagnitude (r : RoundState) (m : Value) : Value :=
  match r.mode with
  | .grid => max (Fixed.nearest m) 0
  | .halfGrid => max (Fixed.floor m + 32) 0
  | .doubleGrid => max (Fixed.nearestHalf m) 0
  | .downToGrid => max (Fixed.floor m) 0
  | .upToGrid => max (Fixed.ceiling m) 0
  | .off => m
  | .super =>
      r.atLeastPhase (((m + (r.threshold - r.phase)) &&& -r.period) + r.phase)
  | .super45 =>
      r.atLeastPhase
        (if r.period = 0 then r.phase
          else (m + (r.threshold - r.phase)) / r.period * r.period + r.phase)

/-- Rounds a distance and keeps its sign. -/
def round (r : RoundState) (distance : Value) : Value :=
  if 0 ≤ distance then r.roundMagnitude distance else -r.roundMagnitude (-distance)

/-- The period that the two highest bits of a selector choose. -/
def selectedPeriod (gridPeriod selector : Value) : Value :=
  let bits := selector &&& 0xC0
  if bits = 0 then gridPeriod / 2
  else if bits = 0x80 then gridPeriod * 2
  else gridPeriod

/-- The phase that the two middle bits of a selector choose. -/
def selectedPhase (period selector : Value) : Value :=
  let bits := selector &&& 0x30
  if bits = 0 then 0
  else if bits = 0x10 then period / 4
  else if bits = 0x20 then period / 2
  else period * 3 / 4

/-- The threshold that the four lowest bits of a selector choose. -/
def selectedThreshold (period selector : Value) : Value :=
  let bits := selector &&& 0x0F
  if bits = 0 then period - 1 else (bits - 4) * period / 8

/-- Configures a grid from a selector. The grid period and all that is derived from
it are 2.14 numbers, which are then cut down to 26.6. -/
def configure (mode : RoundMode) (gridPeriod selector : Value) : RoundState :=
  let period := selectedPeriod gridPeriod selector
  { mode
    period := period >>> 8
    phase := selectedPhase period selector >>> 8
    threshold := selectedThreshold period selector >>> 8 }

end RoundState

end GridFit
