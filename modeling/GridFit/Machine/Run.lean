import GridFit.Machine.Effect

/-!
# Runs

A run drives one instruction sequence to its end or to the first fault. A call
interrupts the sequence that it stands in, and the body of the function is driven in
its place as often as the call says.

## Implementation notes

`Run.step` does one thing at a time: it carries out an instruction, starts a replay of
a body, or returns from a call. The first two use up a unit of the execution budget
and the last one closes a call. So the pair of the budget left and the number of open
calls decreases in the lexicographic order, and every run ends.
-/

namespace GridFit

/-- A position in a sequence that is being driven. -/
structure Position where
  /-- The sequence. -/
  sequence : Array Instruction
  /-- The position of the next instruction, possibly past the end. -/
  index : Nat := 0
deriving DecidableEq, Repr

/-- A call that is under way. -/
structure OpenCall where
  /-- The calling instruction. -/
  ins : Instruction
  /-- The body that is replayed. -/
  body : Array Instruction
  /-- The number of replays that have not begun. -/
  remaining : Nat
  /-- The position of the calling instruction. -/
  caller : Position
deriving DecidableEq, Repr

/-- A run that is under way. -/
structure Run where
  /-- The machine. -/
  machine : Machine
  /-- The units of the execution budget that are left. -/
  budget : Nat
  /-- The current position. -/
  position : Position
  /-- The calls under way, innermost first. -/
  calls : List OpenCall := []
  /-- What has been reported, latest first. -/
  events : List Event := []
deriving DecidableEq, Repr

/-- A run that has ended. -/
structure Outcome where
  /-- The machine afterwards. -/
  machine : Machine
  /-- The failure that ended the run, if one did. -/
  failure : Option Failure
  /-- The units of the execution budget that were left. -/
  budget : Nat
  /-- What was reported, in order. -/
  events : List Event
deriving DecidableEq, Repr

/-- What one step of a run leads to. -/
inductive Progress where
  /-- The run goes on. -/
  | running (r : Run)
  /-- The run has ended. -/
  | ended (o : Outcome)
deriving DecidableEq, Repr

namespace Run

/-- A run of a sequence from its first instruction, with the given budget. -/
def start (m : Machine) (budget : Nat) (sequence : Array Instruction) : Run :=
  { machine := { m with requestedJump := 0 }, budget, position := { sequence } }

/-- Ends a run at a fault of an instruction. All calls under way are abandoned. -/
def fail (r : Run) (ins : Instruction) (fault : Fault) : Outcome :=
  let failure := Failure.ofInstruction ins fault
  { machine := { r.machine with callDepth := r.machine.callDepth - r.calls.length }
    failure := some failure
    budget := r.budget
    events := (.stopped failure :: r.events).reverse }

/-- Ends a run at the end of its sequence. -/
def succeed (r : Run) : Outcome :=
  { machine := r.machine
    failure := none
    budget := r.budget
    events := r.events.reverse }

/-- The index at which a sequence goes on after the instruction at `index`. A jump that
was asked for is taken if it leads forward. -/
def nextIndex (index : Nat) (jump : Value) : Nat :=
  if 0 < jump then index + jump.toInt.toNat else index + 1

/-- What is reported of the jump that the instruction at `index` asked for. -/
def jumpEvents (index : Nat) (jump : Value) : List Event :=
  if 0 < jump then [.jumped index jump]
  else if jump < 0 then [.jumpIgnored index jump]
  else []

/-- Goes on after the instruction at a position. -/
def advance (r : Run) (p : Position) : Run :=
  let jump := r.machine.requestedJump
  { r with
    machine := { r.machine with requestedJump := 0 }
    position := { p with index := nextIndex p.index jump }
    events := jumpEvents p.index jump ++ r.events }

/-- Opens a call. Its first replay begins at the next step. -/
def openCall (r : Run) (ins : Instruction) (body : Array Instruction) (count : Nat) : Run :=
  { r with
    machine := { r.machine with callDepth := r.machine.callDepth + 1 }
    position := { sequence := body, index := body.size }
    calls := { ins, body, remaining := count, caller := r.position } :: r.calls }

/-- Carries out the instruction at the current position. -/
def perform (r : Run) (ins : Instruction) : Progress :=
  match r.budget with
  | 0 => .ended (r.fail ins .budgetExceeded)
  | budget + 1 =>
      let r := { r with
        budget := budget
        events := .dispatched r.position.index ins :: r.events }
      match Machine.dispatch r.position.sequence r.position.index ins r.machine with
      | .error fault machine => .ended ({ r with machine }.fail ins fault)
      | .ok effect machine =>
          let r := { r with machine, events := effect.events.reverse ++ r.events }
          match effect.replay with
          | none => .running (r.advance r.position)
          | some (body, count) => .running (r.openCall ins body count)

/-- Goes on at the end of a sequence: with the next replay of the innermost call, after
that call, or not at all. -/
def resume (r : Run) : Progress :=
  match r.calls with
  | [] => .ended r.succeed
  | c :: calls =>
      match c.remaining, r.budget with
      | 0, _ =>
          let r := { r with
            machine := { r.machine with callDepth := r.machine.callDepth - 1 }
            calls := calls }
          .running (r.advance c.caller)
      | _ + 1, 0 => .ended (r.fail c.ins .budgetExceeded)
      | remaining + 1, budget + 1 =>
          .running { r with
            budget := budget
            position := { sequence := c.body }
            calls := { c with remaining := remaining } :: calls }

/-- One step of a run. -/
def step (r : Run) : Progress :=
  match r.position.sequence[r.position.index]? with
  | some ins => r.perform ins
  | none => r.resume

theorem budget_advance (r : Run) (p : Position) : (r.advance p).budget = r.budget := rfl

theorem calls_advance (r : Run) (p : Position) : (r.advance p).calls = r.calls := rfl

theorem budget_openCall (r : Run) (ins : Instruction) (body : Array Instruction)
    (count : Nat) : (r.openCall ins body count).budget = r.budget := rfl

/-- Carrying out an instruction uses up a unit of the budget. -/
theorem budget_perform {r next : Run} {ins : Instruction}
    (h : r.perform ins = .running next) : next.budget < r.budget := by
  unfold perform at h
  split at h
  · simp at h
  · next budget hbudget =>
      simp only at h
      split at h
      · simp at h
      · split at h
        · simp only [Progress.running.injEq] at h
          rw [← h, budget_advance, hbudget]
          exact Nat.lt_succ_self budget
        · simp only [Progress.running.injEq] at h
          rw [← h, budget_openCall, hbudget]
          exact Nat.lt_succ_self budget

/-- Every step uses up a unit of the budget, or closes a call and uses up none. -/
theorem lt_of_step {r next : Run} (h : r.step = .running next) :
    next.budget < r.budget ∨
      next.budget = r.budget ∧ next.calls.length < r.calls.length := by
  unfold step at h
  split at h
  · exact Or.inl (budget_perform h)
  · unfold resume at h
    split at h
    · simp at h
    · next c calls hcalls =>
        split at h
        · simp only [Progress.running.injEq] at h
          rw [← h, budget_advance, calls_advance, hcalls]
          exact Or.inr ⟨rfl, Nat.lt_succ_self _⟩
        · simp at h
        · next hbudget =>
            simp only [Progress.running.injEq] at h
            rw [← h, hbudget]
            exact Or.inl (Nat.lt_succ_self _)

/-- Drives a run to its end. -/
def finish (r : Run) : Outcome :=
  match _h : r.step with
  | .running next => next.finish
  | .ended o => o
termination_by (r.budget, r.calls.length)
decreasing_by
  rcases lt_of_step ‹_› with h | ⟨hbudget, hcalls⟩
  · exact Prod.Lex.left _ _ h
  · rw [hbudget]
    exact Prod.Lex.right _ hcalls

end Run

namespace Machine

/-- Runs a sequence with the full budget. -/
def execute (m : Machine) (sequence : Array Instruction) : Outcome :=
  (Run.start m m.budget sequence).finish

/-- Runs a program on a fresh machine. -/
def ofProgram (bytes : List UInt8) (o : Options) : Except Failure Machine :=
  match parse bytes with
  | .error e => .error (.ofDecodeError e)
  | .ok program =>
      match (ofOptions o).execute program with
      | { machine, failure := none, .. } => .ok machine
      | { failure := some failure, .. } => .error failure

end Machine

end GridFit
