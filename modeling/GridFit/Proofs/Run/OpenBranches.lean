import GridFit.Proofs.Machine.Branches
import GridFit.Proofs.Run.History

/-!
# Open branches

A machine keeps a list of branches and a number of tests that it only counted. Neither of
them follows the nesting of tests in a program, since a turn of branches takes effect even if
it belongs to a counted test, and an end of a test serves the counted ones first. Their sum
does: it is the number of tests begun minus the number of tests ended. And although
only the innermost branch decides whether instructions run, it decides as all of them would.
-/

namespace GridFit

/-- How many tests deeper an instruction of some kind leads. -/
def Kind.nesting : Kind → Int
  | .ifTest => 1
  | .endIf => -1
  | _ => 0

/-- Only tests and their ends lead deeper or back. -/
theorem Kind.nesting_eq_zero {kind : Kind} (htest : kind ≠ .ifTest) (hend : kind ≠ .endIf) :
    kind.nesting = 0 := by
  cases kind with
  | ifTest => exact absurd rfl htest
  | endIf => exact absurd rfl hend
  | _ => rfl

/-- The number of tests that were carried out minus the number of ends of tests that were. -/
def openTests (done : List Deed) : Int :=
  done.countP (fun deed => deed.ins.kind = .ifTest) -
    done.countP (fun deed => deed.ins.kind = .endIf)

theorem openTests_concat (done : List Deed) (deed : Deed) :
    openTests (done ++ [deed]) = openTests done + deed.ins.kind.nesting := by
  simp only [openTests, List.countP_append, List.countP_singleton]
  cases deed.ins.kind <;> simp only [Kind.nesting] <;> simp <;> omega

namespace Machine

variable {done : List Deed} {m : Machine}

/-! ## Tests begun and ended -/

/-- A list of branches and a number of counted tests that make up the tests that are open
after what has been carried out. -/
structure BranchesMatch (done : List Deed) (branches : List Bool) (skippedIfs : Nat) : Prop where
  /-- There are as many of both as there are open tests. -/
  length_add : (branches.length : Int) + skippedIfs = openTests done
  /-- Tests are only counted inside of a branch. -/
  ne_nil : 0 < skippedIfs → branches ≠ []

/-- A machine that skips instructions is inside of a branch. -/
theorem branches_ne_nil_of_skipping (hexec : m.isExecuting = false) : m.branches ≠ [] := by
  intro hbranches
  simp [isExecuting, hbranches] at hexec

namespace BranchesMatch

variable {branches : List Bool} {skippedIfs : Nat}

/-- No test is open just if there is no branch and no counted test. -/
theorem openTests_eq_zero_iff (h : BranchesMatch done branches skippedIfs) :
    openTests done = 0 ↔ branches = [] ∧ skippedIfs = 0 := by
  rw [← h.length_add, ← List.length_eq_zero_iff]
  omega

/-- No test is open just if there is no branch. -/
theorem openTests_eq_zero_iff_branches (h : BranchesMatch done branches skippedIfs) :
    openTests done = 0 ↔ branches = [] := by
  rw [h.openTests_eq_zero_iff]
  constructor
  · intro hnone
    exact hnone.1
  · intro hbranches
    exact ⟨hbranches, Nat.eq_zero_of_not_pos fun hpos => h.ne_nil hpos hbranches⟩

/-- What is carried out changes the branches and the open tests alike. -/
theorem concat (h : BranchesMatch done m.branches m.skippedIfs) {ins : Instruction}
    (hbranching : Branching m ins.kind branches skippedIfs) :
    BranchesMatch (done ++ [{ ins, before := m }]) branches skippedIfs := by
  have hconcat := openTests_concat done { ins, before := m }
  have hlength := h.length_add
  generalize done ++ [{ ins, before := m }] = done' at hconcat ⊢
  simp only at hconcat
  generalize ins.kind = kind at hbranching hconcat
  cases hbranching with
  | counted hexec =>
      rw [Kind.nesting] at hconcat
      refine ⟨by omega, fun _ => branches_ne_nil_of_skipping hexec⟩
  | begun hexec executes =>
      rw [Kind.nesting] at hconcat
      refine ⟨?_, fun _ => List.cons_ne_nil _ _⟩
      rw [List.length_cons]
      omega
  | turned hbranches =>
      rw [Kind.nesting_eq_zero (by decide) (by decide)] at hconcat
      rw [hbranches, List.length_cons] at hlength
      refine ⟨?_, fun _ => List.cons_ne_nil _ _⟩
      rw [List.length_cons]
      omega
  | uncounted hskipped =>
      rw [Kind.nesting] at hconcat
      exact ⟨by omega, fun _ => h.ne_nil (by omega)⟩
  | closed hskipped hbranches =>
      rw [Kind.nesting] at hconcat
      rw [hbranches, List.length_cons] at hlength
      exact ⟨by omega, fun hpos => absurd hpos (Nat.lt_irrefl 0)⟩
  | kept hkind =>
      simp only [List.mem_cons, not_or] at hkind
      rw [Kind.nesting_eq_zero hkind.1 hkind.2.2.1] at hconcat
      exact ⟨by omega, h.ne_nil⟩

end BranchesMatch

/-- Branches and counted tests match whatever is carried out. -/
theorem invariant_branchesMatch :
    Deed.Invariant fun done m => BranchesMatch done m.branches m.skippedIfs where
  done h hrule := h.concat (branching_of_dispatched hrule)
  failed h hrule := by
    obtain ⟨hbranches, hskipped⟩ := branches_of_failed hrule
    rw [hbranches, hskipped]
    exact h
  requestedJump _ h := h
  callDepth _ h := h

/-- Open tests are conserved. At every moment of the life of a machine, whatever it ran, the
branches and the counted tests together are as many as the tests that were begun minus those
that were ended, and tests are only counted inside of a branch. So as long as the budget lasts,
the end of a test and the turn of a branch fail for want of a test just when these numbers are
the same. -/
theorem open_tests_conserved {o : Options} {now : Moment}
    (hnow : (Moment.between (ofOptions o)).Leads done now) :
    (now.machine.branches.length : Int) + now.machine.skippedIfs = openTests done ∧
      (0 < now.machine.skippedIfs → now.machine.branches ≠ []) ∧
      ∀ r ins, now = .during r → r.current? = some ins → 0 < r.budget →
        (ins.kind = .endIf → (r.FailsBy (.unmatched .endIf) ↔ openTests done = 0)) ∧
        (ins.kind = .elseMark → (r.FailsBy (.unmatched .elseMark) ↔ openTests done = 0)) := by
  have hfresh : BranchesMatch [] (ofOptions o).branches (ofOptions o).skippedIfs :=
    ⟨rfl, fun hpos => absurd hpos (Nat.lt_irrefl 0)⟩
  have hmatch := invariant_branchesMatch.leads hnow hfresh
  refine ⟨hmatch.length_add, hmatch.ne_nil, ?_⟩
  rintro r ins rfl hins hbudget
  constructor
  · intro hkind
    rw [Run.failsBy_iff hins hbudget, endIf_unmatched_iff hkind, hmatch.openTests_eq_zero_iff]
    rfl
  · intro hkind
    rw [Run.failsBy_iff hins hbudget, elseMark_unmatched_iff hkind,
      hmatch.openTests_eq_zero_iff_branches]
    rfl

/-- A program with a turn of branches that belongs to a counted test, and with one end of a
test too many. -/
def unbalancedProgram : Array Instruction :=
  #[⟨.npushb, [0], 0⟩, ⟨.ifTest, [], 3⟩, ⟨.ifTest, [], 4⟩, ⟨.elseMark, [], 5⟩, ⟨.endIf, [], 6⟩,
    ⟨.endIf, [], 7⟩, ⟨.endIf, [], 8⟩]

/-- A run of `unbalancedProgram` on a fresh machine, after some steps. -/
def unbalancedRun (n : Nat) : Run :=
  (Run.start (ofOptions {}) 1000000 unbalancedProgram).after n

/-- A run of a program that turns a branch around, on the machine that `unbalancedProgram`
leaves. -/
def turningRun : Run :=
  Run.start (unbalancedRun 6).machine 1000000 #[⟨.elseMark, [], 0⟩]

/-- In `unbalancedProgram` two tests are open before the first one is ended, and none before
the last end of a test, which fails. The next run cannot turn a branch around either. -/
theorem open_tests_conserved_unbalanced :
    ((unbalancedRun 4).machine.branches.length : Int) + (unbalancedRun 4).machine.skippedIfs = 2 ∧
      (unbalancedRun 6).FailsBy (.unmatched .endIf) ∧
      turningRun.FailsBy (.unmatched .elseMark) := by
  have hstart := Moment.Leads.start (ofOptions {}) unbalancedProgram
  have hfour := hstart.after 4
  have hsix := hstart.after 6
  have hended : (unbalancedRun 6).step = .ended
      (((unbalancedRun 6).charged ⟨.endIf, [], 8⟩ 999993).fail ⟨.endIf, [], 8⟩
        (.unmatched .endIf)) := by
    decide +kernel
  have hturning := (hsix.ended hended).begun #[⟨.elseMark, [], 0⟩]
  refine ⟨?_, ?_, ?_⟩
  · refine (open_tests_conserved hfour).1.trans ?_
    decide +kernel
  · apply (((open_tests_conserved hsix).2.2 _ ⟨.endIf, [], 8⟩ rfl (by decide +kernel)
      (by decide +kernel)).1 rfl).2
    decide +kernel
  · apply (((open_tests_conserved hturning).2.2 turningRun ⟨.elseMark, [], 0⟩ rfl
      (by decide +kernel) (by decide +kernel)).2 rfl).2
    decide +kernel

/-! ## The innermost branch decides -/

/-- All branches execute but for the innermost one. -/
def OuterBranchesExecute (m : Machine) : Prop :=
  ∀ executes ∈ m.branches.tail, executes = true

/-- Where only the innermost branch may not execute, it decides as all branches together. -/
theorem OuterBranchesExecute.isExecuting_iff (h : m.OuterBranchesExecute) :
    m.isExecuting = true ↔ ∀ executes ∈ m.branches, executes = true := by
  unfold OuterBranchesExecute at h
  unfold isExecuting
  cases hbranches : m.branches with
  | nil => simp
  | cons innermost rest =>
      rw [hbranches, List.tail_cons] at h
      rw [List.forall_mem_cons]
      constructor
      · intro hinnermost
        exact ⟨hinnermost, h⟩
      · intro hall
        exact hall.1

/-- What is carried out opens a branch only inside of branches that all execute, and turns
around none but the innermost. -/
theorem OuterBranchesExecute.of_branching (h : m.OuterBranchesExecute) {m' : Machine}
    {kind : Kind} (hbranching : Branching m kind m'.branches m'.skippedIfs) :
    m'.OuterBranchesExecute := by
  unfold OuterBranchesExecute
  generalize m'.branches = branches at hbranching
  generalize m'.skippedIfs = skippedIfs at hbranching
  cases hbranching with
  | counted hexec => exact h
  | begun hexec executes => exact h.isExecuting_iff.1 hexec
  | turned hbranches =>
      unfold OuterBranchesExecute at h
      rw [hbranches] at h
      exact h
  | uncounted hskipped => exact h
  | closed hskipped hbranches =>
      unfold OuterBranchesExecute at h
      rw [hbranches, List.tail_cons] at h
      exact fun executes hmem => h executes (List.mem_of_mem_tail hmem)
  | kept hkind => exact h

/-- No rule of dispatch buries a branch that does not execute. -/
theorem invariant_outerBranchesExecute : Invariant OuterBranchesExecute where
  requestedJump _ h := h
  callDepth _ h := h
  dispatched := by
    intro sequence index ins m result h hrule
    cases result with
    | ok effect m' => exact h.of_branching (branching_of_dispatched hrule)
    | error fault m' =>
        obtain ⟨hbranches, -⟩ := branches_of_failed hrule
        unfold OuterBranchesExecute
        rw [finalState_error, hbranches]
        exact h

/-- It is sound to look at the innermost branch only. At every moment of the life of a
machine, whatever it ran, all other branches execute, so that it executes instructions just if
all branches do. -/
theorem innermost_branch_decides {o : Options} {now : Moment}
    (hnow : (Moment.between (ofOptions o)).Leads done now) :
    (∀ executes ∈ now.machine.branches.tail, executes = true) ∧
      (now.machine.isExecuting = true ↔
        ∀ executes ∈ now.machine.branches, executes = true) := by
  have hfresh : (ofOptions o).OuterBranchesExecute := fun _ hmem => nomatch hmem
  have houter := invariant_outerBranchesExecute.leads hnow hfresh
  exact ⟨houter, houter.isExecuting_iff⟩

/-- A program that begins a test inside of another one, and turns the branch around twice. -/
def turningTwiceProgram : Array Instruction :=
  #[⟨.npushb, [0, 1], 0⟩, ⟨.ifTest, [], 4⟩, ⟨.ifTest, [], 5⟩, ⟨.elseMark, [], 6⟩,
    ⟨.elseMark, [], 7⟩]

/-- After the second turn, the inner branch does not execute, and the outer one does. -/
theorem innermost_branch_decides_twice_turned :
    let m := ((Run.start (ofOptions {}) 1000000 turningTwiceProgram).after 5).machine
    m.branches = [false, true] ∧ (∀ executes ∈ m.branches.tail, executes = true) ∧
      m.isExecuting = false := by
  have hstart := Moment.Leads.start (ofOptions {}) turningTwiceProgram
  obtain ⟨houter, hiff⟩ := innermost_branch_decides (hstart.after 5)
  have hbranches :
      ((Run.start (ofOptions {}) 1000000 turningTwiceProgram).after 5).machine.branches =
        [false, true] := by
    decide +kernel
  refine ⟨hbranches, houter, Bool.eq_false_iff.2 ?_⟩
  intro hexec
  have hall := hiff.1 hexec false (hbranches ▸ List.mem_cons_self)
  cases hall

end Machine

end GridFit
