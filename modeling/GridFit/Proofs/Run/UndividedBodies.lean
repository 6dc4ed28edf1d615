import GridFit.Proofs.Registry
import GridFit.Proofs.Run.RecordedBodies
import GridFit.Proofs.Site

/-!
# Bodies that stem from one program

A definition can stay open when a program ends, and the next program goes on recording
into it. Then the offsets of its body need not ascend. As long as every program begins
with no definition open, each body is a part of one program, and its offsets ascend like
those of the program do.

## Implementation notes

Only the program itself records, as bodies are replayed while no definition is open. What
has been recorded therefore starts before everything that the program has yet to reach.
-/

namespace GridFit

/-- A position in a program, or in a body that was called from such a position. All bodies
have the property `P`. -/
inductive Nested (P : Array Instruction → Prop) (program : Array Instruction) :
    Position → List OpenCall → Prop
  | program {p} (hsequence : p.sequence = program) : Nested P program p []
  | body {p c calls} (hsequence : P p.sequence) (hbody : P c.body)
      (hcaller : Nested P program c.caller calls) : Nested P program p (c :: calls)

namespace Nested

variable {P : Array Instruction → Prop} {program : Array Instruction} {p : Position}
  {calls : List OpenCall}

theorem sequence_eq (h : Nested P program p []) : p.sequence = program := by
  cases h with
  | program hsequence => exact hsequence

/-- The running sequence has a property that the program and all bodies have. -/
theorem sequence (h : Nested P program p calls) (hprogram : P program) : P p.sequence := by
  cases h with
  | program hsequence => exact hsequence ▸ hprogram
  | body hsequence hbody hcaller => exact hsequence

/-- Moving on in a sequence does not change how it was come by. -/
theorem move (h : Nested P program p calls) (index : Nat) :
    Nested P program { p with index := index } calls := by
  cases h with
  | program hsequence => exact .program hsequence
  | body hsequence hbody hcaller => exact .body hsequence hbody hcaller

/-- A step stays in the program and in the bodies of functions. -/
theorem step {r next : Run} (h : Nested P program r.position r.calls)
    (hget : ∀ f d, r.machine.functions.get f = .ok d → P d.body)
    (hstep : r.step = .running next) : Nested P program next.position next.calls := by
  have hform := r.stepped
  rw [hstep] at hform
  cases hform with
  | advanced hins hbudget hdispatch hreplay => exact h.move _
  | entered hins hbudget hdispatch hreplay =>
      obtain ⟨f, n, k, d, -, -, -, -, hd, -, rfl, -, -⟩ :=
        Machine.called_of_replay hdispatch hreplay
      exact .body (hget f d hd) (hget f d hd) h
  | returned hend hcalls hremaining =>
      rw [hcalls] at h
      cases h with
      | body hsequence hbody hcaller => exact hcaller.move _
  | replayed hend hcalls hremaining hbudget =>
      rw [hcalls] at h
      cases h with
      | body hsequence hbody hcaller => exact .body hbody hbody hcaller

/-- Without calls under way, a run is in its program. -/
theorem of_reaches {m : Machine} {budget : Nat} {r : Run}
    (hr : (Run.start m budget program).Reaches r) :
    Nested (fun _ => True) program r.position r.calls := by
  induction hr with
  | refl => exact .program rfl
  | tail _ hstep ih => exact ih.step (fun _ _ _ => trivial) hstep

end Nested

namespace Machine

/-- The machines that runs lead to of which none began while a definition was open. -/
inductive ReachableUndivided (o : Options) : Machine → Prop
  | fresh : ReachableUndivided o (ofOptions o)
  | run {m : Machine} {bytes : List UInt8} {program : Array Instruction}
      (h : ReachableUndivided o m) (hclosed : m.recording = none)
      (hparse : parse bytes = .ok program) :
      ReachableUndivided o (m.execute program).machine

theorem ReachableUndivided.reachable {o : Options} {m : Machine}
    (h : ReachableUndivided o m) : Reachable o m := by
  induction h with
  | fresh => exact .fresh
  | run _ _ hparse ih => exact .run ih hparse

/-- The bodies of all definitions ascend. -/
def AscendingBodies (m : Machine) : Prop :=
  ∀ kind, (m.registry kind).Forall fun _ d => IsAscending d.body

/-- What has been recorded into the open definition starts before an offset. -/
def RecordedBefore (m : Machine) (pc : Nat) : Prop :=
  ∀ name d, m.recording = some name → (m.registry name.kind).find? name.key = some d →
    ∀ ins ∈ d.body, ins.pc < pc

variable {sequence : Array Instruction} {index : Nat} {ins : Instruction} {m : Machine}
  {result : EStateM.Result Fault Machine Effect}

theorem RecordedBefore.of_recording_eq_none (h : m.recording = none) (pc : Nat) :
    m.RecordedBefore pc := by
  intro name d hname
  rw [h] at hname
  cases hname

theorem RecordedBefore.mono {pc pc' : Nat} (h : m.RecordedBefore pc) (hle : pc ≤ pc') :
    m.RecordedBefore pc' :=
  fun name d hname hfind ins hins => Nat.lt_of_lt_of_le (h name d hname hfind ins hins) hle

/-- Bodies still ascend after an instruction that starts after all that has been
recorded. -/
theorem AscendingBodies.dispatched (h : m.AscendingBodies) (hbefore : m.RecordedBefore ins.pc)
    (hrule : Dispatched sequence index ins m result) : (finalState result).AscendingBodies := by
  cases hrule with
  | recorded hplain hexec hrec hrecord =>
      refine forall_withRegistry h ((h _).record hrecord ?_)
      intro d hfind hd
      exact hd.push (hbefore _ d hrec hfind)
  | opened hkind hvalues hinsert =>
      exact forall_withRegistry h ((h _).insert hinsert .empty)
  | closed hkind hrec hclose =>
      exact forall_withRegistry h ((h _).close hclose fun d hd => hd)
  | _ => exact h

/-- An instruction that starts after all that has been recorded is the last that can have
been recorded. -/
theorem RecordedBefore.dispatched (hbefore : m.RecordedBefore ins.pc)
    (hrule : Dispatched sequence index ins m result) :
    (finalState result).RecordedBefore (ins.pc + 1) := by
  have hkept : m.RecordedBefore (ins.pc + 1) := hbefore.mono (Nat.le_succ _)
  cases hrule with
  | @recorded name r hplain hexec hrec hrecord =>
      intro other d hname hfind
      have hopen : m.recording = some other := (recording_withRegistry m _ r).symm.trans hname
      obtain rfl : name = other := Option.some.inj (hrec.symm.trans hopen)
      obtain ⟨before, hbeforeFind, rfl⟩ := Registry.eq_replace_of_record hrecord
      simp only [finalState_ok, registry_withRegistry, if_true] at hfind
      obtain rfl := Option.some.inj ((Registry.find?_replace _ _ _).symm.trans hfind)
      intro last hlast
      rcases Array.mem_push.1 hlast with hlast | rfl
      · exact Nat.lt_succ_of_lt (hbefore name before hrec hbeforeFind last hlast)
      · exact Nat.lt_succ_self _
  | @opened kind key rest r hkind hvalues hinsert =>
      intro other d hname hfind
      obtain rfl : ({ kind, key } : DefinitionName) = other := Option.some.inj hname
      simp only [finalState_ok, registry_recording, registry_withRegistry, if_true,
        Registry.find?_insert hinsert] at hfind
      obtain rfl := Option.some.inj hfind
      intro last hlast
      simp at hlast
  | closed hkind hrec hclose => exact .of_recording_eq_none rfl _
  | closeFailed hkind hrec hclose => exact .of_recording_eq_none rfl _
  | _ => exact hkept

/-- While no definition is open, a plain instruction opens none. -/
theorem recording_of_dispatched (hplain : ins.IsPlain) (h : m.recording = none)
    (hrule : Dispatched sequence index ins m result) : (finalState result).recording = none := by
  cases hrule with
  | opened hkind hvalues hinsert => exact absurd hkind (hplain.kind_ne_opening _)
  | recorded hplain hexec hrec hrecord => simp [h] at hrec
  | closed hkind hrec hclose => rfl
  | closeFailed hkind hrec hclose => rfl
  | _ => exact h

end Machine

namespace Run

/-- A body that no program but one has been recorded into. -/
structure IsReplayable (body : Array Instruction) : Prop where
  /-- The body neither branches nor defines. -/
  isPlain : ∀ ins ∈ body, ins.IsPlain
  /-- The offsets of the body ascend. -/
  isAscending : IsAscending body

/-- A run of a program in which every body stems from one program. -/
structure Undivided (program : Array Instruction) (r : Run) : Prop where
  /-- All bodies are plain. -/
  plain : r.machine.PlainBodies
  /-- All bodies ascend. -/
  ascending : r.machine.AscendingBodies
  /-- The run is in the program, or in bodies called from it. -/
  nested : Nested IsReplayable program r.position r.calls
  /-- No definition is open in a call. -/
  closed : r.calls ≠ [] → r.machine.recording = none
  /-- What has been recorded starts before all that the program has yet to reach. -/
  before : r.calls = [] → ∀ j ins, r.position.index ≤ j → program[j]? = some ins →
    r.machine.RecordedBefore ins.pc

namespace Undivided

variable {program : Array Instruction} {r next : Run} {ins : Instruction}

theorem isReplayable (h : Undivided program r) {f : Value} {d : Definition}
    (hget : r.machine.functions.get f = .ok d) : IsReplayable d.body :=
  ⟨h.plain.isPlain_of_get hget, h.ascending .function _ (Registry.mem_of_get hget)⟩

/-- In a call, the current instruction is plain. -/
theorem isPlain (h : Undivided program r) (hcalls : r.calls ≠ []) (hins : r.current? = some ins) :
    ins.IsPlain := by
  have hnested := h.nested
  generalize r.calls = calls at hnested hcalls
  cases hnested with
  | program hsequence => exact absurd rfl hcalls
  | body hsequence hbody hcaller =>
      exact hsequence.isPlain ins (Array.mem_of_getElem? hins)

/-- The current instruction starts after all that has been recorded. -/
theorem recordedBefore (h : Undivided program r) (hins : r.current? = some ins) :
    r.machine.RecordedBefore ins.pc := by
  by_cases hcalls : r.calls = []
  · have hsequence := (hcalls ▸ h.nested).sequence_eq
    exact h.before hcalls _ ins (Nat.le_refl _) (by rwa [← hsequence])
  · exact .of_recording_eq_none (h.closed hcalls) _

/-- A step keeps every body a part of one program. -/
theorem step (hprogram : IsAscending program) (h : Undivided program r)
    (hstep : r.step = .running next) : Undivided program next := by
  have hform := r.stepped
  rw [hstep] at hform
  have hplain : next.machine.PlainBodies := by
    simpa only [hstep] using Machine.invariant_plainBodies.step h.plain
  have hnested := h.nested.step (fun f d => h.isReplayable) hstep
  cases hform with
  | advanced hins hbudget hdispatch hreplay =>
      have hrule := Machine.dispatched_of_eq hdispatch
      have hbefore := h.recordedBefore hins
      refine ⟨hplain, h.ascending.dispatched hbefore hrule, hnested, ?_, ?_⟩
      · intro hcalls
        exact Machine.recording_of_dispatched (h.isPlain hcalls hins) (h.closed hcalls) hrule
      · intro hcalls j other hj hother
        have hcallsEq : r.calls = [] := hcalls
        have hsequence := (hcallsEq ▸ h.nested).sequence_eq
        have hlt : r.position.index < j := Nat.lt_of_lt_of_le (lt_nextIndex _ _) hj
        have hpc := hprogram.lt_of_lt (by rw [← hsequence]; exact hins) hother hlt
        exact (hbefore.dispatched hrule).mono hpc
  | entered hins hbudget hdispatch hreplay =>
      obtain ⟨f, n, k, d, -, -, hrec, -, -, -, -, -, rfl⟩ :=
        Machine.called_of_replay hdispatch hreplay
      exact ⟨hplain, h.ascending, hnested, fun _ => hrec, fun hcalls => nomatch hcalls⟩
  | returned hend hcalls hremaining =>
      have hrec := h.closed (by simp [hcalls])
      exact ⟨hplain, h.ascending, hnested, fun _ => hrec,
        fun _ _ _ _ _ => .of_recording_eq_none hrec _⟩
  | replayed hend hcalls hremaining hbudget =>
      have hrec := h.closed (by simp [hcalls])
      exact ⟨hplain, h.ascending, hnested, fun _ => hrec, fun hcalls => nomatch hcalls⟩

/-- The machine that a run leaves has ascending bodies, too. -/
theorem ended (h : Undivided program r) {o : Outcome} (hstep : r.step = .ended o) :
    o.machine.AscendingBodies := by
  have hform := r.stepped
  rw [hstep] at hform
  cases hform with
  | failed hins hbudget hdispatch =>
      have hrule := Machine.dispatched_of_eq hdispatch
      exact h.ascending.dispatched (h.recordedBefore hins) hrule
  | _ => exact h.ascending

theorem reaches (hprogram : IsAscending program) (h : Undivided program r)
    (hr : r.Reaches next) : Undivided program next := by
  induction hr with
  | refl => exact h
  | tail _ hstep ih => exact ih.step hprogram hstep

end Undivided

end Run

namespace Machine

variable {o : Options} {m : Machine} {program : Array Instruction}

/-- A run that begins with no definition open begins with undivided bodies. -/
theorem undivided_start (hplain : m.PlainBodies) (hascending : m.AscendingBodies)
    (hclosed : m.recording = none) (budget : Nat) :
    (Run.start m budget program).Undivided program where
  plain := hplain
  ascending := hascending
  nested := .program rfl
  closed _ := hclosed
  before _ _ _ _ _ := .of_recording_eq_none hclosed _

/-- The bodies of a machine ascend if no run that led to it began while a definition was
open. -/
theorem ReachableUndivided.ascendingBodies (h : ReachableUndivided o m) :
    m.AscendingBodies := by
  induction h with
  | fresh =>
      intro kind entry hentry
      cases kind <;> simp [ofOptions, registry] at hentry
  | @run m bytes program h hclosed hparse ih =>
      have hplain := invariant_plainBodies.reachable (plainBodies_ofOptions o) h.reachable
      have hstart : (Run.start m m.budget program).Undivided program :=
        undivided_start hplain ih hclosed m.budget
      obtain ⟨s, hreaches, hend⟩ := (Run.start m m.budget program).exists_reaches_ended
      exact (hstart.reaches (.of_parse hparse) hreaches).ended hend

/-- Every sequence that runs ascends if no run began while a definition was open. -/
theorem ReachableUndivided.isAscending (h : ReachableUndivided o m)
    (hclosed : m.recording = none) {bytes : List UInt8} (hparse : parse bytes = .ok program)
    {r : Run} (hr : (Run.start m m.budget program).Reaches r) :
    IsAscending r.position.sequence := by
  have hplain := invariant_plainBodies.reachable (plainBodies_ofOptions o) h.reachable
  have hprogram := IsAscending.of_parse hparse
  have hrun := (undivided_start hplain h.ascendingBodies hclosed m.budget).reaches hprogram hr
  have hnested := hrun.nested
  generalize r.calls = calls at hnested
  cases hnested with
  | program hsequence => exact hsequence ▸ hprogram
  | body hsequence hbody hcaller => exact hsequence.isAscending

end Machine

end GridFit
