import GridFit.Proofs.Machine.Dispatch
import GridFit.Machine.Run

/-!
# Structured programs

A program that is built of blocks: of instructions that are performed in turn, and of
tests with one or two arms. Its instructions can be laid out in a row with the markers of
the tests between them, or it can be evaluated arm by arm, where an arm that is not
selected is left out.

## Implementation notes

Every block is followed by the rest of its program, so that a program is one inductive
type and its arms are programs, too. The evaluation has no branches to keep track of. It
leaves those of the machine alone.
-/

namespace GridFit

/-- A program that is built of blocks. -/
inductive Structured where
  /-- The end. -/
  | done
  /-- An instruction. -/
  | perform (ins : Instruction) (rest : Structured)
  /-- A test with one arm. -/
  | test (ifTest : Instruction) (arm : Structured) (endIf : Instruction) (rest : Structured)
  /-- A test with an arm for either outcome. -/
  | choice (ifTest : Instruction) (arm : Structured) (elseMark : Instruction)
      (otherwise : Structured) (endIf : Instruction) (rest : Structured)

namespace Structured

/-- The instructions of a program in a row. -/
def flatten : Structured → List Instruction
  | done => []
  | perform ins rest => ins :: rest.flatten
  | test ifTest arm endIf rest => ifTest :: (arm.flatten ++ endIf :: rest.flatten)
  | choice ifTest arm elseMark otherwise endIf rest =>
      ifTest :: (arm.flatten ++
        elseMark :: (otherwise.flatten ++ endIf :: rest.flatten))

/-! ### Where the parts of a program end -/

section

variable (i : Nat) (ins ifTest elseMark endIf : Instruction) (arm otherwise rest : Structured)

theorem add_length_perform :
    i + (perform ins rest).flatten.length = i + 1 + rest.flatten.length := by
  simp only [flatten, List.length_cons]
  omega

theorem add_length_test : i + (test ifTest arm endIf rest).flatten.length =
    i + 1 + arm.flatten.length + 1 + rest.flatten.length := by
  simp only [flatten, List.length_cons, List.length_append]
  omega

theorem add_length_choice :
    i + (choice ifTest arm elseMark otherwise endIf rest).flatten.length =
      i + 1 + arm.flatten.length + 1 + otherwise.flatten.length + 1 + rest.flatten.length := by
  simp only [flatten, List.length_cons, List.length_append]
  omega

end

/-- Whether no test of a program has two arms. -/
def HasNoElse : Structured → Prop
  | done => True
  | perform _ rest => rest.HasNoElse
  | test _ arm _ rest => arm.HasNoElse ∧ rest.HasNoElse
  | choice .. => False

/-- Whether the instructions of a program have the kinds that their places ask for, and no
test inside of an arm has two arms itself. -/
def IsWellFormed : Structured → Prop
  | done => True
  | perform ins rest => ins.IsStraight ∧ rest.IsWellFormed
  | test ifTest arm endIf rest =>
      ifTest.kind = .ifTest ∧ (arm.IsWellFormed ∧ arm.HasNoElse) ∧ endIf.kind = .endIf ∧
        rest.IsWellFormed
  | choice ifTest arm elseMark otherwise endIf rest =>
      ifTest.kind = .ifTest ∧ (arm.IsWellFormed ∧ arm.HasNoElse) ∧ elseMark.kind = .elseMark ∧
        (otherwise.IsWellFormed ∧ otherwise.HasNoElse) ∧ endIf.kind = .endIf ∧
        rest.IsWellFormed

/-- Performs an instruction on its own. -/
def performAlone (ins : Instruction) : EStateM Failure Machine Unit := fun m =>
  match m.execute #[ins] with
  | { machine, failure := none, .. } => .ok () machine
  | { machine, failure := some failure, .. } => .error failure machine

/-- Pops the operand of a test. -/
def popTest (ifTest : Instruction) : EStateM Failure Machine Bool := fun m =>
  match Machine.pop m with
  | .ok e m => .ok (e != 0) m
  | .error fault m => .error (.ofInstruction ifTest fault) m

/-- Evaluates a program. Of a test only the arm that its operand selects is evaluated. -/
def eval : Structured → EStateM Failure Machine Unit
  | done => return ()
  | perform ins rest => do
      performAlone ins
      rest.eval
  | test ifTest arm _ rest => do
      let holds ← popTest ifTest
      bif holds then arm.eval else pure ()
      rest.eval
  | choice ifTest arm _ otherwise _ rest => do
      let holds ← popTest ifTest
      bif holds then arm.eval else otherwise.eval
      rest.eval

end Structured

end GridFit
