import GridFit.Proofs.Machine.Control

/-!
# Branches and dispatch

What branches do to the instructions between their markers. Which branches are open makes
no difference to an instruction that is performed, and a skipped instruction makes no
difference at all.
-/

namespace GridFit

/-- The machine with other branches. -/
def Machine.withBranches (m : Machine) (branches : List Bool) : Machine :=
  { m with branches }

/-- An outcome with other branches. -/
def withBranches {α : Type} (branches : List Bool) :
    EStateM.Result Fault Machine α → EStateM.Result Fault Machine α
  | .ok a m => .ok a (m.withBranches branches)
  | .error fault m => .error fault (m.withBranches branches)

namespace Machine

@[simp] theorem withBranches_branches (m : Machine) : m.withBranches m.branches = m := rfl

@[simp] theorem withBranches_withBranches (m : Machine) (b b' : List Bool) :
    (m.withBranches b).withBranches b' = m.withBranches b' := rfl

/-! ## Performed instructions -/

/-- Work that neither looks at branches nor changes them. -/
def IsOblivious {α : Type} (x : MachineM α) : Prop :=
  ∀ m branches, x (m.withBranches branches) = GridFit.withBranches branches (x m)

namespace IsOblivious

variable {α β : Type}

theorem bind {x : MachineM α} {f : α → MachineM β} (hx : IsOblivious x)
    (hf : ∀ a, IsOblivious (f a)) : IsOblivious (x >>= f) := by
  intro m branches
  rw [bind_apply, bind_apply, hx m branches]
  cases x m with
  | ok a m' => exact hf a m' branches
  | error fault m' => rfl

theorem pop : IsOblivious pop := by
  intro m branches
  cases hvalues : m.stack.values with
  | nil =>
      rw [pop_nil hvalues, pop_nil (m := m.withBranches branches) hvalues]
      rfl
  | cons v rest =>
      rw [pop_cons hvalues, pop_cons (m := m.withBranches branches) hvalues]
      rfl

theorem enter (function count : Value) : IsOblivious (enter function count) := by
  intro m branches
  unfold Machine.enter
  split
  · rfl
  · have hfunctions : (m.withBranches branches).functions = m.functions := rfl
    have hlimit : (m.withBranches branches).callLimit = m.callLimit := rfl
    have hdepth : (m.withBranches branches).callDepth = m.callDepth := rfl
    simp only [bind_apply, get_apply, hfunctions]
    cases m.functions.get function with
    | error fault => rfl
    | ok d =>
        simp only [attempt_ok, hlimit, hdepth]
        split <;> rfl

theorem call : IsOblivious call :=
  pop.bind fun function => enter function 1

theorem loopCall : IsOblivious loopCall :=
  pop.bind fun function => pop.bind fun count => enter function count

theorem executeGeneric (sequence : Array Instruction) (index : Nat) (ins : Instruction) :
    IsOblivious (executeGeneric sequence index ins) := by
  intro m branches
  have hfont : (m.withBranches branches).font = m.font := rfl
  have hworkspace : (m.withBranches branches).toWorkspace = m.toWorkspace := rfl
  simp only [Machine.executeGeneric, bind_apply, get_apply, onWorkspace, hfont, hworkspace]
  cases ins.execute { font := m.font, sequence, index } m.toWorkspace <;> rfl

end IsOblivious

variable {sequence : Array Instruction} {index : Nat} {ins : Instruction} {m : Machine}
  {branches : List Bool}

/-- Which branches are open makes no difference to a plain instruction that is
performed. -/
theorem dispatch_withBranches (hplain : ins.IsPlain) (hm : m.Performs)
    (hbranches : (m.withBranches branches).Performs) :
    dispatch sequence index ins (m.withBranches branches) =
      GridFit.withBranches branches (dispatch sequence index ins m) := by
  unfold dispatch
  rcases hplain with hkind | hkind | hkind
  · simp only [hkind, unlessPassive_active hm.isExecuting hm.recording,
      unlessPassive_active hbranches.isExecuting hbranches.recording]
    exact IsOblivious.executeGeneric sequence index ins m branches
  · simp only [hkind, unlessPassive_active hm.isExecuting hm.recording,
      unlessPassive_active hbranches.isExecuting hbranches.recording]
    exact IsOblivious.call m branches
  · simp only [hkind, unlessPassive_active hm.isExecuting hm.recording,
      unlessPassive_active hbranches.isExecuting hbranches.recording]
    exact IsOblivious.loopCall m branches

/-- What a straight instruction does depends on no position. -/
theorem dispatch_of_isStraight (h : ins.IsStraight) (sequence other : Array Instruction)
    (index j : Nat) (m : Machine) : dispatch sequence index ins m = dispatch other j ins m := by
  have hop (test : JumpTest) : ins.opcode.operation ≠ .jump test :=
    fun heq => h.not_jump (Opcode.mem_of_operation_eq_jump heq)
  have hsite (font : FontInstance) :
      ins.execute { font, sequence, index } =
        ins.execute { font, sequence := other, index := j } :=
    Operation.execute_congr ⟨font, sequence, index⟩ ⟨font, other, j⟩ rfl ins hop
  unfold dispatch executeGeneric
  simp only [hsite]

/-- A straight instruction asks for no jump. -/
theorem requestedJump_of_isStraight (h : ins.IsStraight) (hm : m.Performs) {effect : Effect}
    {m' : Machine} (hdispatch : dispatch sequence index ins m = .ok effect m') :
    m'.requestedJump = m.requestedJump := by
  have hop (test : JumpTest) : ins.opcode.operation ≠ .jump test :=
    fun heq => h.not_jump (Opcode.mem_of_operation_eq_jump heq)
  have hplain := h.isPlain
  have hrule := dispatched_of_eq hdispatch
  obtain ⟨hexec, hrec⟩ := hm
  cases hrule with
  | executed hkind hexec hrec hrun =>
      have hkeeps := Operation.keeps_requestedJump ⟨m.font, sequence, index⟩ ins hop m.toWorkspace
      rw [← Instruction.execute, hrun] at hkeeps
      exact hkeeps
  | callNothing hops hexec hrec hn => rfl
  | called hops hexec hrec hn hget hdepth => rfl
  | opened hkind hvalues hinsert => exact absurd hkind (hplain.kind_ne_opening _)
  | _ => simp_all [Instruction.IsPlain]

/-! ## Markers and skipped instructions -/

theorem dispatch_skipped (hplain : ins.IsPlain) (hexec : m.isExecuting = false) :
    dispatch sequence index ins m = .ok {} m := by
  unfold dispatch
  rcases hplain with hkind | hkind | hkind <;> rw [hkind] <;> exact unlessPassive_skipped hexec

theorem dispatch_ifTest_counted (hkind : ins.kind = .ifTest) (hexec : m.isExecuting = false) :
    dispatch sequence index ins m = .ok {} { m with skippedIfs := m.skippedIfs + 1 } := by
  simp only [dispatch, hkind, beginIf, bind_apply, get_apply, hexec, Bool.false_eq_true, if_false]
  rfl

theorem dispatch_ifTest_opened (hkind : ins.kind = .ifTest) (hexec : m.isExecuting = true)
    {e : Value} {rest : List Value} (hvalues : m.stack.values = e :: rest) :
    dispatch sequence index ins m =
      .ok {} ((m.popped 1).withBranches ((e != 0) :: m.branches)) := by
  simp only [dispatch, hkind, beginIf, bind_apply, get_apply, hexec, if_true, pop_cons hvalues]
  rfl

theorem dispatch_ifTest_underflow (hkind : ins.kind = .ifTest) (hexec : m.isExecuting = true)
    (hvalues : m.stack.values = []) :
    dispatch sequence index ins m = .error .stackUnderflow m := by
  simp only [dispatch, hkind, beginIf, bind_apply, get_apply, hexec, if_true, pop_nil hvalues]

theorem dispatch_elseMark (hkind : ins.kind = .elseMark) (m : Machine) (executes : Bool)
    (branches : List Bool) :
    dispatch sequence index ins (m.withBranches (executes :: branches)) =
      .ok {} (m.withBranches ((!executes) :: branches)) := by
  rw [dispatch, hkind]
  rfl

theorem dispatch_endIf_counted (hkind : ins.kind = .endIf) {n : Nat}
    (hskipped : m.skippedIfs = n + 1) :
    dispatch sequence index ins m = .ok {} { m with skippedIfs := n } := by
  simp only [dispatch, hkind, finishIf, hskipped]

theorem dispatch_endIf_closed (hkind : ins.kind = .endIf) (hskipped : m.skippedIfs = 0)
    (executes : Bool) (branches : List Bool) :
    dispatch sequence index ins (m.withBranches (executes :: branches)) =
      .ok {} (m.withBranches branches) := by
  have hskipped' : (m.withBranches (executes :: branches)).skippedIfs = 0 := hskipped
  simp only [dispatch, hkind, finishIf]
  split
  · next depth hdepth => simp [hskipped'] at hdepth
  · next innermost rest hdepth hbranches =>
      cases hbranches
      rfl
  · next hdepth hbranches => cases hbranches

/-! ## All changes of branches -/

/-- The branches and the number of counted tests after an instruction of some kind that the
machine carried out. -/
inductive Branching (m : Machine) : Kind → List Bool → Nat → Prop
  | counted (hexec : m.isExecuting = false) : Branching m .ifTest m.branches (m.skippedIfs + 1)
  | begun (hexec : m.isExecuting = true) (executes : Bool) :
      Branching m .ifTest (executes :: m.branches) m.skippedIfs
  | turned {innermost rest} (hbranches : m.branches = innermost :: rest) :
      Branching m .elseMark ((!innermost) :: rest) m.skippedIfs
  | uncounted {depth} (hskipped : m.skippedIfs = depth + 1) :
      Branching m .endIf m.branches depth
  | closed {innermost rest} (hskipped : m.skippedIfs = 0)
      (hbranches : m.branches = innermost :: rest) : Branching m .endIf rest 0
  | kept {kind} (hkind : kind ∉ [Kind.ifTest, .elseMark, .endIf]) :
      Branching m kind m.branches m.skippedIfs

/-- Nothing that is plain is a marker of branches. -/
theorem Branching.of_isPlain (hplain : ins.IsPlain) :
    Branching m ins.kind m.branches m.skippedIfs := by
  apply kept
  rcases hplain with hkind | hkind | hkind <;> rw [hkind] <;> decide

theorem branches_withRegistry (m : Machine) (kind : DefinitionKind) (r : Registry) :
    (m.withRegistry kind r).branches = m.branches := by
  cases kind <;> rfl

theorem skippedIfs_withRegistry (m : Machine) (kind : DefinitionKind) (r : Registry) :
    (m.withRegistry kind r).skippedIfs = m.skippedIfs := by
  cases kind <;> rfl

/-- Every instruction that is carried out changes branches in one of these ways. -/
theorem branching_of_dispatched {effect : Effect} {m' : Machine}
    (hrule : Dispatched sequence index ins m (.ok effect m')) :
    Branching m ins.kind m'.branches m'.skippedIfs := by
  cases hrule with
  | skipped hplain hexec => exact .of_isPlain hplain
  | recorded hplain hexec hrec hrecord =>
      rw [branches_withRegistry, skippedIfs_withRegistry]
      exact .of_isPlain hplain
  | executed hkind hexec hrec hrun => exact .of_isPlain (.inl hkind)
  | callNothing hops hexec hrec hn => exact .of_isPlain (.inr hops.isCall)
  | called hops hexec hrec hn hget hdepth => exact .of_isPlain (.inr hops.isCall)
  | ifCounted hkind hexec =>
      rw [hkind]
      exact .counted hexec
  | ifOpened hkind hexec hvalues =>
      rw [hkind]
      exact .begun hexec _
  | elseTurned hkind hbranches =>
      rw [hkind]
      exact .turned hbranches
  | endIfCounted hkind hskipped =>
      rw [hkind]
      exact .uncounted hskipped
  | endIfClosed hkind hskipped hbranches =>
      rw [hkind, hskipped]
      exact .closed hskipped hbranches
  | @opened kind key rest r hkind hvalues hinsert =>
      simp only [branches_withRegistry, skippedIfs_withRegistry]
      apply Branching.kept
      rw [hkind]
      cases kind <;> decide
  | closed hkind hrec hclose =>
      simp only [branches_withRegistry, skippedIfs_withRegistry]
      apply Branching.kept
      rw [hkind]
      decide

/-- An instruction that fails leaves branches alone. -/
theorem branches_of_failed {fault : Fault} {m' : Machine}
    (hrule : Dispatched sequence index ins m (.error fault m')) :
    m'.branches = m.branches ∧ m'.skippedIfs = m.skippedIfs := by
  cases hrule <;> exact ⟨rfl, rfl⟩

/-- A turn of branches stands alone just if no branch is open. -/
theorem elseMark_unmatched_iff (hkind : ins.kind = .elseMark) :
    (∃ m', dispatch sequence index ins m = .error (.unmatched .elseMark) m') ↔
      m.branches = [] := by
  simp only [dispatch, hkind, turnElse]
  cases m.branches with
  | nil => simp
  | cons innermost rest => simp

/-- An end of a test stands alone just if no test is counted and no branch is open. -/
theorem endIf_unmatched_iff (hkind : ins.kind = .endIf) :
    (∃ m', dispatch sequence index ins m = .error (.unmatched .endIf) m') ↔
      m.branches = [] ∧ m.skippedIfs = 0 := by
  simp only [dispatch, hkind, finishIf]
  cases m.skippedIfs with
  | zero => cases m.branches <;> simp
  | succ depth => simp

end Machine

end GridFit
