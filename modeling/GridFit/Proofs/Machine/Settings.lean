import GridFit.Machine.Basic
import GridFit.Proofs.Agreement

/-!
# What can be seen of a machine

A machine has a part that programs change and that can be seen from outside, and a part
that its options settle: the font instance, the limits and the execution budget. Between
runs nothing else is left, and these two parts tell any two machines apart.

## Implementation notes

`Machine.under` puts other settings in the place of those of a machine. What a machine does
under other settings is compared with what it does under its own by `Machine.IsUnder`.
-/

namespace GridFit

/-- The limits that a program can run into, apart from the execution budget. A limit of
`none` is no limit. -/
structure Limits where
  /-- The greatest depth of the operand stack. -/
  stack : Option Nat
  /-- The greatest number of function keys. -/
  functions : Option Nat
  /-- The greatest number of instruction keys. -/
  instructionDefs : Option Nat
  /-- The greatest number of calls that may be under way. -/
  calls : Nat
deriving DecidableEq, Repr

/-- What options settle of a machine once and for all. -/
structure Settings where
  /-- The font instance. -/
  font : FontInstance
  /-- The limits. -/
  limits : Limits
  /-- The execution budget of one run. -/
  budget : Nat
deriving DecidableEq, Repr

/-- What can be seen of a machine, and what its programs change. -/
structure Visible where
  /-- The operands, top first. -/
  stack : List Value
  /-- The graphics state. -/
  graphics : GraphicsState
  /-- The storage area. -/
  storage : Cells .storage
  /-- The control value table. -/
  cvt : Cells .cvt
  /-- Whether each open branch executes, innermost first. -/
  branches : List Bool
  /-- The number of open tests inside a region that is skipped. -/
  skippedIfs : Nat
  /-- The definition that is being recorded. -/
  recording : Option DefinitionName
  /-- The functions, with their bodies. -/
  functions : List (Value × Definition)
  /-- The instruction definitions, with their bodies. -/
  instructionDefs : List (Value × Definition)
deriving DecidableEq, Repr

/-- A limit that is at least as high as another one. No limit at all is the highest. -/
def IsLooser : Option Nat → Option Nat → Prop
  | _, none => True
  | none, some _ => False
  | some max, some max' => max ≤ max'

theorem IsLooser.refl (limit : Option Nat) : IsLooser limit limit := by
  cases limit with
  | none => trivial
  | some max => exact Nat.le_refl max

namespace Limits

/-- Limits that are all at least as high as others. -/
structure AreLooser (l l' : Limits) : Prop where
  /-- The stack may be as deep. -/
  stack : IsLooser l.stack l'.stack
  /-- There may be as many functions. -/
  functions : IsLooser l.functions l'.functions
  /-- There may be as many instruction definitions. -/
  instructionDefs : IsLooser l.instructionDefs l'.instructionDefs
  /-- Calls may be nested as deeply. -/
  calls : l.calls ≤ l'.calls

theorem AreLooser.refl (l : Limits) : l.AreLooser l where
  stack := .refl _
  functions := .refl _
  instructionDefs := .refl _
  calls := Nat.le_refl _

end Limits

/-- Whether a fault says that a limit other than the execution budget was run into. -/
def Fault.IsLimit : Fault → Prop
  | .stackOverflow | .tooManyDefinitions | .callStackOverflow => True
  | _ => False

/-- The limits of options. -/
def Options.limits (o : Options) : Limits :=
  { stack := o.stackLimit
    functions := o.functionLimit
    instructionDefs := o.instructionLimit
    calls := o.callLimit }

/-- What options settle. -/
def Options.settings (o : Options) : Settings :=
  { font := o.toFontInstance, limits := o.limits, budget := o.budget }

namespace OperandStack

/-- The stack with another limit, whether or not it is kept. -/
def withLimit (s : OperandStack) (limit : Option Nat) : OperandStack :=
  { s with limit }

@[simp] theorem values_withLimit (s : OperandStack) (limit : Option Nat) :
    (s.withLimit limit).values = s.values := rfl

@[simp] theorem depth_withLimit (s : OperandStack) (limit : Option Nat) :
    (s.withLimit limit).depth = s.depth := rfl

@[simp] theorem withLimit_limit (s : OperandStack) : s.withLimit s.limit = s := rfl

end OperandStack

/-- The registry with another limit, whether or not it is kept. -/
def Registry.withLimit (r : Registry) (limit : Option Nat) : Registry :=
  { r with limit }

namespace Machine

/-- The limits of a machine. -/
def limits (m : Machine) : Limits :=
  { stack := m.stack.limit
    functions := m.functions.limit
    instructionDefs := m.instructionDefs.limit
    calls := m.callLimit }

/-- The settings of a machine. -/
def settings (m : Machine) : Settings :=
  { font := m.font, limits := m.limits, budget := m.budget }

/-- What can be seen of a machine. -/
def visible (m : Machine) : Visible :=
  { stack := m.stack.values
    graphics := m.graphics
    storage := m.storage
    cvt := m.cvt
    branches := m.branches
    skippedIfs := m.skippedIfs
    recording := m.recording
    functions := m.functions.entries
    instructionDefs := m.instructionDefs.entries }

/-- The machine with other settings. -/
def under (m : Machine) (settings : Settings) : Machine :=
  { m with
    stack := m.stack.withLimit settings.limits.stack
    functions := m.functions.withLimit settings.limits.functions
    instructionDefs := m.instructionDefs.withLimit settings.limits.instructionDefs
    font := settings.font
    callLimit := settings.limits.calls
    budget := settings.budget }

@[simp] theorem visible_under (m : Machine) (settings : Settings) :
    (m.under settings).visible = m.visible := rfl

@[simp] theorem settings_under (m : Machine) (settings : Settings) :
    (m.under settings).settings = settings := rfl

@[simp] theorem under_settings (m : Machine) : m.under m.settings = m := rfl

theorem settings_ofOptions (o : Options) : (ofOptions o).settings = o.settings := rfl

/-- What can be seen, the settings, the number of calls and the jump that is asked for make
up a machine. -/
theorem eq_of_visible {m m' : Machine} (hvisible : m.visible = m'.visible)
    (hsettings : m.settings = m'.settings) (hdepth : m.callDepth = m'.callDepth)
    (hjump : m.requestedJump = m'.requestedJump) : m = m' := by
  obtain ⟨⟨stack, graphics, storage, cvt, jump⟩, font, branches, skipped, recording, functions,
    defs, depth, calls, budget⟩ := m
  obtain ⟨⟨stack', graphics', storage', cvt', jump'⟩, font', branches', skipped', recording',
    functions', defs', depth', calls', budget'⟩ := m'
  simp only [visible, Visible.mk.injEq] at hvisible
  simp only [settings, limits, Settings.mk.injEq, Limits.mk.injEq] at hsettings
  obtain ⟨hvalues, rfl, rfl, rfl, rfl, rfl, rfl, hfunctions, hdefs⟩ := hvisible
  obtain ⟨rfl, ⟨hstack, hlimit, hlimit', rfl⟩, rfl⟩ := hsettings
  obtain rfl : stack = stack' := OperandStack.ext hvalues hstack
  obtain rfl : functions = functions' := by
    cases functions
    cases functions'
    cases hfunctions
    cases hlimit
    rfl
  obtain rfl : defs = defs' := by
    cases defs
    cases defs'
    cases hdefs
    cases hlimit'
    rfl
  cases hdepth
  cases hjump
  rfl

/-- A machine that has the settings `S`, and the same machine with the settings `S'`. -/
structure IsUnder (S S' : Settings) (m m' : Machine) : Prop where
  /-- The first machine has the settings `S`. -/
  settings : m.settings = S
  /-- The second one differs from it by its settings only. -/
  eq_under : m' = m.under S'

end Machine

end GridFit
