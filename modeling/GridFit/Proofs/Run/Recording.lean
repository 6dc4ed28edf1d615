import GridFit.Proofs.Registry
import GridFit.Proofs.Run.Deed
import GridFit.Proofs.Structured.Stretch

/-!
# Recording a function

A function definition goes through the instructions up to its end one after the other. Those
that neither branch nor define are collected into the body while the current branch executes,
and have no effect. The tests and markers of branches do have their effect, and that is how
the branches decide what is collected.

## Implementation notes

`Machine.Collects` compares a machine with the one at the beginning of the definition, by
what has been carried out since. One lemma says that every instruction keeps it, and an
induction over the instructions that are still to come does the rest.
-/

namespace GridFit

/-- Whether an instruction that was carried out is one that an open definition collects. -/
def Deed.isCollected (deed : Deed) : Bool :=
  deed.before.isExecuting && decide (deed.ins.kind ∈ [Kind.generic, Kind.call, Kind.loopCall])

/-- Whether an instruction that was carried out is a test that was decided. -/
def Deed.isDecidedTest (deed : Deed) : Bool :=
  deed.before.isExecuting && decide (deed.ins.kind = .ifTest)

/-- The instructions that an open definition collects of those that were carried out. -/
def collected (done : List Deed) : List Instruction :=
  (done.filter Deed.isCollected).map Deed.ins

/-- The number of tests that were decided. -/
def decidedTests (done : List Deed) : Nat :=
  done.countP Deed.isDecidedTest

section Collected

variable {done : List Deed} {deed : Deed}

theorem collected_concat (done : List Deed) (deed : Deed) : collected (done ++ [deed]) =
    if deed.isCollected then collected done ++ [deed.ins] else collected done := by
  unfold collected
  rw [List.filter_append, List.map_append]
  cases h : deed.isCollected <;> simp [h]

theorem decidedTests_concat (done : List Deed) (deed : Deed) : decidedTests (done ++ [deed]) =
    decidedTests done + if deed.isDecidedTest then 1 else 0 := by
  unfold decidedTests
  rw [List.countP_append, List.countP_singleton]

/-- What is skipped and what only turns or ends a branch is neither collected nor a decided
test. -/
theorem not_isCollected_of_passive
    (h : deed.before.isExecuting = false ∨ deed.ins.kind = .elseMark ∨ deed.ins.kind = .endIf) :
    deed.isCollected = false ∧ deed.isDecidedTest = false := by
  rcases h with h | h | h <;> simp [Deed.isCollected, Deed.isDecidedTest, h]

theorem isCollected_of_isPlain (hexec : deed.before.isExecuting = true)
    (hplain : deed.ins.IsPlain) : deed.isCollected = true ∧ deed.isDecidedTest = false := by
  rcases hplain with h | h | h <;> simp [Deed.isCollected, Deed.isDecidedTest, hexec, h]

theorem isDecidedTest_of_ifTest (hexec : deed.before.isExecuting = true)
    (hkind : deed.ins.kind = .ifTest) : deed.isCollected = false ∧ deed.isDecidedTest = true := by
  simp [Deed.isCollected, Deed.isDecidedTest, hexec, hkind]

end Collected

namespace Machine

/-- The machine `now` after the definition of the function `key` was opened on `m`, which then
had the operands `rest`, the given instructions were carried out and, if it is closed, the
definition ended. -/
structure Collects (m : Machine) (key : Value) (rest : List Value) (done : List Deed)
    (isClosed : Bool) (now : Machine) : Prop where
  /-- The definition is open until it is closed, and then none is. -/
  recording : now.recording = if isClosed then none else some ⟨.function, key⟩
  /-- Its body is what has been collected, and no other function has changed. -/
  functions : now.functions = m.functions.replace key ⟨(collected done).toArray, isClosed⟩
  /-- The instruction definitions are the same. -/
  instructionDefs : now.instructionDefs = m.instructionDefs
  /-- Of the workspace nothing has changed but the operands. -/
  workspace : now.toWorkspace = { m.toWorkspace with stack := now.stack }
  /-- An operand has been popped for each test that was decided. -/
  operands : ∃ tests, tests.length = decidedTests done ∧ rest = tests ++ now.stack.values

variable {sequence : Array Instruction} {index : Nat} {ins : Instruction} {m now now' : Machine}
  {key : Value} {rest : List Value} {done : List Deed}

/-- What leaves everything of a workspace but the operands alone keeps the jump that is asked
for. -/
theorem requestedJump_of_workspace
    (h : now.toWorkspace = { m.toWorkspace with stack := now.stack }) :
    now.requestedJump = m.requestedJump :=
  (congrArg Workspace.requestedJump h).trans rfl

namespace Collects

/-- The open definition holds what has been collected. -/
theorem find?_functions (h : m.Collects key rest done false now) :
    now.functions.find? key = some ⟨(collected done).toArray, false⟩ := by
  rw [h.functions]
  exact Registry.find?_replace _ _ _

/-- What is skipped and what turns or ends a branch changes nothing but branches. -/
theorem of_passive (h : m.Collects key rest done false now)
    (hpassive : now.isExecuting = false ∨ ins.kind = .elseMark ∨ ins.kind = .endIf)
    (hrecording : now'.recording = now.recording) (hfunctions : now'.functions = now.functions)
    (hdefs : now'.instructionDefs = now.instructionDefs)
    (hworkspace : now'.toWorkspace = now.toWorkspace) :
    m.Collects key rest (done ++ [{ ins, before := now }]) false now' := by
  have hdeed : (Deed.mk ins now).isCollected = false ∧ (Deed.mk ins now).isDecidedTest = false :=
    not_isCollected_of_passive hpassive
  obtain ⟨tests, hlength, hrest⟩ := h.operands
  refine ⟨hrecording.trans h.recording, ?_, hdefs.trans h.instructionDefs, ?_, tests, ?_, ?_⟩
  · rw [hfunctions, h.functions, collected_concat, hdeed.1]
    rfl
  · rw [hworkspace]
    exact h.workspace
  · rw [hlength, decidedTests_concat, hdeed.2]
    rfl
  · rw [hrest, hworkspace]

/-- An instruction that is recorded is collected, and has no other effect. -/
theorem of_recorded (h : m.Collects key rest done false now) (hplain : ins.IsPlain)
    (hexec : now.isExecuting = true) {r : Registry}
    (hrecord : now.functions.record key ins = .ok r) :
    m.Collects key rest (done ++ [{ ins, before := now }]) false { now with functions := r } := by
  have hdeed : (Deed.mk ins now).isCollected = true ∧ (Deed.mk ins now).isDecidedTest = false :=
    isCollected_of_isPlain hexec hplain
  obtain ⟨d, hfind, rfl⟩ := Registry.eq_replace_of_record hrecord
  obtain ⟨tests, hlength, hrest⟩ := h.operands
  refine ⟨h.recording, ?_, h.instructionDefs, h.workspace, tests, ?_, hrest⟩
  · obtain rfl := Option.some.inj (hfind.symm.trans h.find?_functions)
    rw [h.functions, Registry.replace_replace, collected_concat, hdeed.1]
    simp
  · rw [hlength, decidedTests_concat, hdeed.2]
    rfl

/-- A test that is decided pops an operand. -/
theorem of_test (h : m.Collects key rest done false now) (hkind : ins.kind = .ifTest)
    (hexec : now.isExecuting = true) {e : Value} {operands : List Value}
    (hvalues : now.stack.values = e :: operands) (branches : List Bool) :
    m.Collects key rest (done ++ [{ ins, before := now }]) false
      { now.popped 1 with branches } := by
  have hdeed : (Deed.mk ins now).isCollected = false ∧ (Deed.mk ins now).isDecidedTest = true :=
    isDecidedTest_of_ifTest hexec hkind
  obtain ⟨tests, hlength, hrest⟩ := h.operands
  refine ⟨h.recording, ?_, h.instructionDefs, ?_, tests ++ [e], ?_, ?_⟩
  · rw [collected_concat, hdeed.1]
    exact h.functions
  · show ({ now.toWorkspace with stack := now.stack.drop 1 } : Workspace) = _
    rw [h.workspace]
    rfl
  · rw [List.length_append, hlength, decidedTests_concat, hdeed.2]
    rfl
  · show rest = tests ++ [e] ++ now.stack.values.drop 1
    rw [hrest, hvalues, List.append_assoc]
    rfl

/-- While a function is open, an instruction that defines nothing is collected or turns
branches, and has no other effect. -/
theorem dispatched (h : m.Collects key rest done false now)
    (hfunctionDef : ins.kind ≠ .functionDef) (hinstructionDef : ins.kind ≠ .instructionDef)
    (hendDef : ins.kind ≠ .endDef) {effect : Effect}
    (hrule : Dispatched sequence index ins now (.ok effect now')) :
    effect.replay = none ∧ m.Collects key rest (done ++ [{ ins, before := now }]) false now' := by
  have hopen : now.recording = some ⟨.function, key⟩ := h.recording
  cases hrule with
  | skipped hplain hexec => exact ⟨rfl, h.of_passive (.inl hexec) rfl rfl rfl rfl⟩
  | @recorded name r hplain hexec hrec hrecord =>
      obtain rfl := Option.some.inj (hopen.symm.trans hrec)
      exact ⟨rfl, h.of_recorded hplain hexec hrecord⟩
  | ifCounted hkind hexec => exact ⟨rfl, h.of_passive (.inl hexec) rfl rfl rfl rfl⟩
  | ifOpened hkind hexec hvalues => exact ⟨rfl, h.of_test hkind hexec hvalues _⟩
  | elseTurned hkind hbranches =>
      exact ⟨rfl, h.of_passive (.inr (.inl hkind)) rfl rfl rfl rfl⟩
  | endIfCounted hkind hskipped =>
      exact ⟨rfl, h.of_passive (.inr (.inr hkind)) rfl rfl rfl rfl⟩
  | endIfClosed hkind hskipped hbranches =>
      exact ⟨rfl, h.of_passive (.inr (.inr hkind)) rfl rfl rfl rfl⟩
  | @opened kind key' operands r hkind hvalues hinsert =>
      cases kind with
      | function => exact absurd hkind hfunctionDef
      | instruction => exact absurd hkind hinstructionDef
  | closed hkind hrec hclose => exact absurd hkind hendDef
  | executed hkind hexec hrec hrun => cases hopen.symm.trans hrec
  | callNothing hops hexec hrec hn => cases hopen.symm.trans hrec
  | called hops hexec hrec hn hget hdepth => cases hopen.symm.trans hrec

/-- A function definition that is opened has collected nothing. -/
theorem of_opened (hvalues : m.stack.values = key :: rest) (hkind : ins.kind = .functionDef)
    {effect : Effect} (hrule : Dispatched sequence index ins m (.ok effect now)) :
    effect.replay = none ∧ m.Collects key rest [{ ins, before := m }] false now := by
  have hdeed : collected [⟨ins, m⟩] = [] ∧ decidedTests [⟨ins, m⟩] = 0 := by
    simp [collected, decidedTests, Deed.isCollected, Deed.isDecidedTest, hkind]
  cases hrule with
  | @opened kind key' operands r hopening hvalues' hinsert =>
      obtain ⟨rfl, rfl⟩ : key' = key ∧ operands = rest := by simpa [hvalues'] using hvalues
      cases kind with
      | function =>
          refine ⟨rfl, rfl, ?_, rfl, rfl, [], ?_, ?_⟩
          · rw [hdeed.1]
            exact Registry.eq_replace_of_insert hinsert
          · rw [hdeed.2]
            rfl
          · show operands = m.stack.values.drop 1
            rw [hvalues']
            rfl
      | instruction => simp [hkind, DefinitionKind.opening] at hopening
  | callNothing hops hexec hrec hn =>
      rcases hops.isCall with hcall | hcall <;> simp [hkind] at hcall
  | called hops hexec hrec hn hget hdepth =>
      rcases hops.isCall with hcall | hcall <;> simp [hkind] at hcall
  | _ => simp_all [Instruction.IsPlain]

/-- The end of the definition is the last thing that is carried out. Only the definition is
closed. -/
theorem of_closed (h : m.Collects key rest done false now) (hkind : ins.kind = .endDef)
    {effect : Effect} (hrule : Dispatched sequence index ins now (.ok effect now')) :
    effect.replay = none ∧ m.Collects key rest (done ++ [{ ins, before := now }]) true now' := by
  have hopen : now.recording = some ⟨.function, key⟩ := h.recording
  have hdeed : (Deed.mk ins now).isCollected = false ∧ (Deed.mk ins now).isDecidedTest = false := by
    simp [Deed.isCollected, Deed.isDecidedTest, hkind]
  cases hrule with
  | @closed name r hkind hrec hclose =>
      obtain rfl := Option.some.inj (hopen.symm.trans hrec)
      obtain ⟨d, hfind, rfl⟩ := Registry.eq_replace_of_close hclose
      obtain rfl := Option.some.inj (hfind.symm.trans h.find?_functions)
      obtain ⟨tests, hlength, hrest⟩ := h.operands
      refine ⟨rfl, rfl, ?_, h.instructionDefs, h.workspace, tests, ?_, hrest⟩
      · show now.functions.replace key ⟨(collected done).toArray, true⟩ = _
        rw [h.functions, Registry.replace_replace, collected_concat, hdeed.1]
        rfl
      · rw [hlength, decidedTests_concat, hdeed.2]
        rfl
  | @opened kind key' operands r hopening hvalues hinsert =>
      cases kind <;> simp [hkind, DefinitionKind.opening] at hopening
  | executed hkind hexec hrec hrun => cases hopen.symm.trans hrec
  | callNothing hops hexec hrec hn => cases hopen.symm.trans hrec
  | called hops hexec hrec hn hget hdepth => cases hopen.symm.trans hrec
  | _ => simp_all [Instruction.IsPlain]

end Collects

end Machine

namespace Run

variable {r : Run} {ins : Instruction}

/-- In a run that succeeds, an instruction that makes no call and asks for no jump is followed
by the next one of its sequence. -/
theorem exists_next_of_succeeds (hins : r.current? = some ins) (hok : r.finish.failure = none)
    (hstill : ∀ effect m, Machine.Dispatched r.position.sequence r.position.index ins r.machine
      (.ok effect m) → effect.replay = none ∧ m.requestedJump = 0) :
    ∃ effect next, r.step = .running next ∧ r.deed? = some { ins, before := r.machine } ∧
      Machine.Dispatched r.position.sequence r.position.index ins r.machine
        (.ok effect next.machine) ∧
      next.position = { r.position with index := r.position.index + 1 } ∧
      next.calls = r.calls := by
  have hform := r.stepped
  generalize hstep : r.step = progress at hform
  cases hform with
  | exhausted hins' hbudget =>
      rw [finish_of_ended hstep] at hok
      cases hok
  | failed hins' hbudget hdispatch =>
      rw [finish_of_ended hstep] at hok
      cases hok
  | @advanced ins' budget effect m hins' hbudget hdispatch hreplay =>
      obtain rfl := Option.some.inj (hins.symm.trans hins')
      have hrule := Machine.dispatched_of_eq hdispatch
      obtain ⟨-, hjump⟩ := hstill effect m hrule
      have hclear : ({ m with requestedJump := 0 } : Machine) = m := Machine.clear_eq hjump
      refine ⟨effect, _, rfl, deed?_of_ok hins hbudget hdispatch, ?_, ?_, rfl⟩
      · exact hclear.symm ▸ hrule
      · simp [advance, carriedOut, hjump, nextIndex]
  | @entered ins' budget effect m body count hins' hbudget hdispatch hreplay =>
      obtain rfl := Option.some.inj (hins.symm.trans hins')
      obtain ⟨hnone, -⟩ := hstill effect m (Machine.dispatched_of_eq hdispatch)
      cases hnone.symm.trans hreplay
  | finished hend hcalls => cases hins.symm.trans hend
  | returned hend hcalls hremaining => cases hins.symm.trans hend
  | replayExhausted hend hcalls hremaining hbudget => cases hins.symm.trans hend
  | replayed hend hcalls hremaining hbudget => cases hins.symm.trans hend

/-- A run that succeeds goes through a stretch that defines nothing while it collects. -/
theorem collects_stretch {m : Machine} {key : Value} {rest : List Value} {done : List Deed}
    {todo : List Instruction} (hjump : m.requestedJump = 0)
    (htodo : ∀ ins ∈ todo,
      ins.kind ≠ .functionDef ∧ ins.kind ≠ .instructionDef ∧ ins.kind ≠ .endDef)
    (hstands : StandsAt r.position.sequence r.position.index todo) (hcalls : r.calls = [])
    (h : m.Collects key rest done false r.machine) (hok : r.finish.failure = none) :
    ∃ (later : List Deed) (s : Run), later.map Deed.ins = todo ∧ r.deeds = later ++ s.deeds ∧
      r.finish = s.finish ∧ m.Collects key rest (done ++ later) false s.machine ∧ s.calls = [] ∧
      s.position = { r.position with index := r.position.index + todo.length } := by
  induction todo generalizing r done with
  | nil => exact ⟨[], r, rfl, rfl, rfl, by rwa [List.append_nil], hcalls, rfl⟩
  | cons ins todo ih =>
      obtain ⟨hins, hstands⟩ := hstands
      obtain ⟨⟨hfunctionDef, hinstructionDef, hendDef⟩, htodo⟩ := List.forall_mem_cons.1 htodo
      have hcollects {effect : Effect} {now : Machine}
          (hrule : Machine.Dispatched r.position.sequence r.position.index ins r.machine
            (.ok effect now)) :=
        h.dispatched hfunctionDef hinstructionDef hendDef hrule
      obtain ⟨effect, next, hstep, hdeed, hrule, hposition, hcalls'⟩ :=
        exists_next_of_succeeds hins hok fun effect now hrule =>
          ⟨(hcollects hrule).1,
            (Machine.requestedJump_of_workspace (hcollects hrule).2.workspace).trans hjump⟩
      have hfinish := finish_of_running hstep
      have hstands' : StandsAt next.position.sequence next.position.index todo := by
        rw [hposition]
        exact hstands
      obtain ⟨later, s, hlater, hdeeds, hfinish', hs, hcalls, hend⟩ :=
        ih htodo hstands' (hcalls'.trans hcalls) (hcollects hrule).2 (hfinish ▸ hok)
      refine ⟨{ ins, before := r.machine } :: later, s, ?_, ?_, hfinish.trans hfinish', ?_,
        hcalls, ?_⟩
      · rw [List.map_cons, hlater]
      · rw [deeds_of_running hstep, hdeed, hdeeds]
        rfl
      · rwa [List.append_assoc, List.singleton_append] at hs
      · rw [hend, hposition, List.length_cons, Nat.add_assoc, Nat.add_comm 1]

/-- A run that succeeds goes through a function definition and captures its body. -/
theorem captures_definition {key : Value} {rest : List Value} {opening ending : Instruction}
    {mid : List Instruction} (hjump : r.machine.requestedJump = 0)
    (hvalues : r.machine.stack.values = key :: rest) (hopening : opening.kind = .functionDef)
    (hending : ending.kind = .endDef)
    (hmid : ∀ ins ∈ mid,
      ins.kind ≠ .functionDef ∧ ins.kind ≠ .instructionDef ∧ ins.kind ≠ .endDef)
    (hstands : StandsAt r.position.sequence r.position.index (opening :: (mid ++ [ending])))
    (hcalls : r.calls = []) (hok : r.finish.failure = none) :
    ∃ (done : List Deed) (s : Run), done.map Deed.ins = opening :: (mid ++ [ending]) ∧
      r.deeds = done ++ s.deeds ∧ r.finish = s.finish ∧
      r.machine.Collects key rest done true s.machine ∧ s.calls = [] ∧
      s.position = { r.position with index := r.position.index + (mid.length + 2) } := by
  obtain ⟨hfirst, hstands⟩ := hstands
  obtain ⟨hstands, hlast, -⟩ := standsAt_append.1 hstands
  -- The first instruction opens the definition.
  obtain ⟨effect, r₁, hstep₁, hdeed₁, hrule₁, hposition₁, hcalls₁⟩ :=
    exists_next_of_succeeds hfirst hok fun effect now hrule => by
      obtain ⟨hreplay, hopened⟩ := Machine.Collects.of_opened hvalues hopening hrule
      exact ⟨hreplay, (Machine.requestedJump_of_workspace hopened.workspace).trans hjump⟩
  obtain ⟨-, hopened⟩ := Machine.Collects.of_opened hvalues hopening hrule₁
  have hfinish₁ := finish_of_running hstep₁
  -- The instructions behind it are collected.
  obtain ⟨later, r₂, hlater, hdeeds₂, hfinish₂, hcollects, hcalls₂, hposition₂⟩ :=
    collects_stretch hjump hmid (by rw [hposition₁]; exact hstands) (hcalls₁.trans hcalls) hopened
      (hfinish₁ ▸ hok)
  -- The last one closes the definition.
  have hcurrent : r₂.current? = some ending := by
    rw [current?, hposition₂, hposition₁]
    exact hlast
  obtain ⟨effect', r₃, hstep₃, hdeed₃, hrule₃, hposition₃, hcalls₃⟩ :=
    exists_next_of_succeeds hcurrent (hfinish₂ ▸ hfinish₁ ▸ hok) fun effect now hrule => by
      obtain ⟨hreplay, hclosed⟩ := hcollects.of_closed hending hrule
      exact ⟨hreplay, (Machine.requestedJump_of_workspace hclosed.workspace).trans hjump⟩
  obtain ⟨-, hclosed⟩ := hcollects.of_closed hending hrule₃
  refine ⟨_, r₃, ?_, ?_, ?_, hclosed, hcalls₃.trans hcalls₂, ?_⟩
  · simp only [List.map_append, List.map_cons, List.map_nil, hlater, List.cons_append,
      List.nil_append]
  · rw [deeds_of_running hstep₁, hdeed₁, hdeeds₂, deeds_of_running hstep₃, hdeed₃]
    simp
  · rw [hfinish₁, hfinish₂, finish_of_running hstep₃]
  · rw [hposition₃, hposition₂, hposition₁, Position.mk.injEq]
    exact ⟨rfl, by simp only; omega⟩

end Run

namespace Machine

variable {m : Machine} {key : Value} {rest : List Value} {opening ending : Instruction}
  {mid : List Instruction}

/-- What a run of a program on a machine carries out. -/
def deeds (m : Machine) (program : Array Instruction) : List Deed :=
  (Run.start m m.budget program).deeds

/-- A function definition captures its body and runs nothing else. On any machine, whether it
executes and whether or not a definition is open, a definition that succeeds goes through all
its instructions in order. The body that can be called afterwards consists of those that
neither branch nor define and were reached while the current branch executed. Nothing else is
left of them but the branches, and of the operands only those are gone that the opening and
the decided tests popped. -/
theorem recording_captures_body (hvalues : m.stack.values = key :: rest)
    (hopening : opening.kind = .functionDef) (hending : ending.kind = .endDef)
    (hmid : ∀ ins ∈ mid,
      ins.kind ≠ .functionDef ∧ ins.kind ≠ .instructionDef ∧ ins.kind ≠ .endDef)
    {program : Array Instruction} (hprogram : program = (opening :: (mid ++ [ending])).toArray)
    (hok : (m.execute program).failure = none) :
    (m.deeds program).map Deed.ins = program.toList ∧
      ((m.execute program).machine.functions.get key =
          .ok ⟨(collected (m.deeds program)).toArray, true⟩ ∧
        ∀ other, other ≠ key → (m.execute program).machine.functions.find? other =
          m.functions.find? other) ∧
      (m.execute program).machine.recording = none ∧
      (m.execute program).machine.storage = m.storage ∧
      (m.execute program).machine.cvt = m.cvt ∧
      (m.execute program).machine.graphics = m.graphics ∧
      (m.execute program).machine.instructionDefs = m.instructionDefs ∧
      ∃ tests, tests.length = decidedTests (m.deeds program) ∧
        rest = tests ++ (m.execute program).machine.stack.values := by
  have hstands : StandsAt program 0 (opening :: (mid ++ [ending])) := by
    rw [hprogram]
    exact standsAt_of_append [] (opening :: (mid ++ [ending]))
  obtain ⟨done, s, hdone, hdeeds, hfinish, hcollects, hcalls, hposition⟩ :=
    Run.captures_definition (r := Run.start m m.budget program) rfl hvalues hopening hending hmid
      hstands rfl hok
  -- Behind the definition the program ends.
  have hend : s.current? = none := by
    have hsize : program.size = mid.length + 2 := by simp [hprogram]
    rw [Run.current?, hposition]
    exact Array.getElem?_eq_none (by simp [Run.start, hsize])
  have hstep := (Run.Stepped.finished hend hcalls).step_eq
  have hmachine : (m.execute program).machine = s.machine := by
    rw [execute, hfinish, Run.finish_of_ended hstep]
    rfl
  have hall : m.deeds program = done := by
    rw [deeds, hdeeds, Run.deeds_of_ended hstep, List.append_nil]
  rw [hmachine, hall]
  refine ⟨?_, ⟨?_, ?_⟩, hcollects.recording, ?_, ?_, ?_, hcollects.instructionDefs,
    hcollects.operands⟩
  · rw [hdone, hprogram]
  · rw [hcollects.functions]
    exact Registry.get_eq_ok_iff.2 ⟨Registry.find?_replace _ _ _, rfl⟩
  · intro other hne
    rw [hcollects.functions]
    exact Registry.find?_replace_of_ne _ _ hne
  · exact (congrArg Workspace.storage hcollects.workspace).trans rfl
  · exact (congrArg Workspace.cvt hcollects.workspace).trans rfl
  · exact (congrArg Workspace.graphics hcollects.workspace).trans rfl

/-- A machine with a function number, an operand that is false and another operand. -/
def threeOperandsMachine : Machine :=
  { ofOptions {} with stack := { values := [3, 0, 9], limit := none } }

/-- Instructions with a test among them. -/
def testInside : List Instruction :=
  [⟨.dup, [], 1⟩, ⟨.ifTest, [], 2⟩, ⟨.call, [], 3⟩, ⟨.elseMark, [], 4⟩, ⟨.pop, [], 5⟩,
    ⟨.endIf, [], 6⟩, ⟨.npushb, [7], 7⟩]

/-- The definition of a function from the instructions `testInside`. -/
def testInsideProgram : Array Instruction :=
  (⟨.fdef, [], 0⟩ :: (testInside ++ [⟨.endf, [], 10⟩])).toArray

/-- A run of `testInsideProgram`, after some steps. -/
def testInsideRun (n : Nat) : Run :=
  (Run.start threeOperandsMachine 1000000 testInsideProgram).after n

/-- Of a test inside of a function, the arm that executes is captured with what stands around
the test. -/
theorem recording_captures_body_testInside :
    (threeOperandsMachine.execute testInsideProgram).machine.functions.get 3 =
        .ok ⟨#[⟨.dup, [], 1⟩, ⟨.pop, [], 5⟩, ⟨.npushb, [7], 7⟩], true⟩ ∧
      ∃ tests, tests.length = 1 ∧ [0, 9] = tests ++
        (threeOperandsMachine.execute testInsideProgram).machine.stack.values := by
  have hend : (testInsideRun 9).step = .ended (testInsideRun 9).succeed :=
    (Run.Stepped.finished (by decide +kernel) (by decide +kernel)).step_eq
  have hok : (threeOperandsMachine.execute testInsideProgram).failure = none :=
    congrArg Outcome.failure (Run.finish_of_after_ended hend)
  have hdeeds : threeOperandsMachine.deeds testInsideProgram =
      (Run.start threeOperandsMachine 1000000 testInsideProgram).deedsWithin 9 :=
    Run.deeds_of_after_ended hend
  obtain ⟨-, ⟨hget, -⟩, -, -, -, -, -, tests, hlength, hrest⟩ :=
    @recording_captures_body threeOperandsMachine 3 [0, 9] ⟨.fdef, [], 0⟩ ⟨.endf, [], 10⟩ testInside
      rfl rfl rfl (by decide) testInsideProgram rfl hok
  have hcollected : collected (threeOperandsMachine.deeds testInsideProgram) =
      [⟨.dup, [], 1⟩, ⟨.pop, [], 5⟩, ⟨.npushb, [7], 7⟩] := by
    rw [hdeeds]
    decide +kernel
  have htests : decidedTests (threeOperandsMachine.deeds testInsideProgram) = 1 := by
    rw [hdeeds]
    decide +kernel
  rw [hcollected] at hget
  exact ⟨hget, tests, hlength.trans htests, hrest⟩

end Machine

end GridFit
