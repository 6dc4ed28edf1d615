import GridFit.Proofs.Run.OpenDefinition

/-!
# Lasting definitions

A machine only changes the definition that is open. Any other one lasts until an instruction
opens a definition of the same name, through all runs and however these end: if it is closed
it can be called, and if another definition was opened before it was closed, it can never be
called and nothing is added to it any more.

## Implementation notes

Whether a definition is closed does not matter for its lasting, so that both results come from
one invariant. It is about all that was carried out: a definition lasts as long as nothing
that opens one of its name is among that.
-/

namespace GridFit

/-- Whether nothing that was carried out opened a definition of the given name. -/
def NeverOpened (name : DefinitionName) (done : List Deed) : Prop :=
  ∀ deed ∈ done, ¬deed.before.Opens deed.ins name

instance (name : DefinitionName) (done : List Deed) : Decidable (NeverOpened name done) :=
  inferInstanceAs (Decidable (∀ deed ∈ done, _))

namespace Machine

variable {m m' : Machine} {name : DefinitionName} {d : Definition} {done : List Deed}

/-- A definition that is there and is not the one that is being recorded. -/
structure AtRest (name : DefinitionName) (d : Definition) (m : Machine) : Prop where
  /-- The machine has this definition. -/
  found : m.definition? name = some d
  /-- Another definition is open, or none is. -/
  recording_ne : m.recording ≠ some name

theorem AtRest.ne_of_recording (h : m.AtRest name d) {other : DefinitionName}
    (hrec : m.recording = some other) : name ≠ other := by
  rintro rfl
  exact h.recording_ne hrec

/-- What does not open a definition of its name leaves a definition at rest. -/
theorem AtRest.of_defining (h : m.AtRest name d) {ins : Instruction}
    (hopens : ¬m.Opens ins name) (hdefining : Defining m ins m'.definition? m'.recording) :
    m'.AtRest name d := by
  suffices hboth : m'.definition? name = some d ∧ m'.recording ≠ some name from
    ⟨hboth.1, hboth.2⟩
  generalize m'.definition? = definition at hdefining ⊢
  generalize m'.recording = recording at hdefining ⊢
  cases hdefining with
  | @recorded other e hrec hfind =>
      rw [Function.update_of_ne (h.ne_of_recording hrec)]
      exact ⟨h.found, h.recording_ne⟩
  | @opened other hother =>
      have hne : name ≠ other := by
        rintro rfl
        exact hopens hother
      rw [Function.update_of_ne hne]
      refine ⟨h.found, ?_⟩
      intro hsame
      exact hne (Option.some.inj hsame).symm
  | @closed other e hrec hfind =>
      rw [Function.update_of_ne (h.ne_of_recording hrec)]
      exact ⟨h.found, nofun⟩
  | kept => exact ⟨h.found, h.recording_ne⟩

/-- A definition at rest stays so as long as nothing opens one of its name. -/
theorem invariant_atRest (name : DefinitionName) (d : Definition) :
    Deed.Invariant fun done m => NeverOpened name done → m.AtRest name d where
  done h hrule := by
    intro hnever
    have hsooner := h fun deed hdeed => hnever deed (List.mem_append_left _ hdeed)
    have hopens := hnever _ (List.mem_append_right _ List.mem_cons_self)
    exact hsooner.of_defining hopens (defining_of_dispatched hrule)
  failed h hrule := by
    intro hnever
    obtain ⟨hdefinition, hrecording⟩ := definition?_of_failed hrule
    constructor
    · rw [hdefinition]
      exact (h hnever).found
    · rcases hrecording with hsame | hnone
      · rw [hsame]
        exact (h hnever).recording_ne
      · rw [hnone]
        exact nofun
  requestedJump jump h := by
    intro hnever
    exact ⟨(h hnever).found, (h hnever).recording_ne⟩
  callDepth depth h := by
    intro hnever
    exact ⟨(h hnever).found, (h hnever).recording_ne⟩

/-- A definition at rest at some moment lasts. -/
theorem AtRest.leads {now afterwards : Moment} (hlater : now.Leads done afterwards)
    (h : now.machine.AtRest name d) (hnever : NeverOpened name done) :
    afterwards.machine.AtRest name d :=
  (invariant_atRest name d).leads hlater (fun _ => h) hnever

/-- A definition that can be looked up is at rest. -/
theorem Recordable.atRest_of_get (h : m.Recordable)
    (hget : (m.registry name.kind).get name.key = .ok d) : m.AtRest name d := by
  obtain ⟨hfind, hclosed⟩ := Registry.get_eq_ok_iff.1 hget
  refine ⟨hfind, ?_⟩
  intro hrec
  obtain ⟨e, hopen, hnotClosed⟩ := h name hrec
  obtain rfl := Option.some.inj (hfind.symm.trans hopen)
  rw [hclosed] at hnotClosed
  cases hnotClosed

/-- A step of a run that goes on changes definitions as one instruction may. -/
theorem defining_of_running {r next : Run} (hstep : r.step = .running next) :
    ∃ ins, Defining r.machine ins next.machine.definition? next.machine.recording := by
  have hform := r.stepped
  rw [hstep] at hform
  cases hform with
  | @advanced ins budget effect m hins hbudget hdispatch hreplay =>
      have hdefining := defining_of_dispatched (dispatched_of_eq hdispatch)
      exact ⟨ins, hdefining⟩
  | @entered ins budget effect m body count hins hbudget hdispatch hreplay =>
      have hdefining := defining_of_dispatched (dispatched_of_eq hdispatch)
      exact ⟨ins, hdefining⟩
  | @returned c calls hend hcalls hremaining => exact ⟨c.ins, .of_registries rfl rfl rfl⟩
  | @replayed c calls n budget hend hcalls hremaining hbudget =>
      exact ⟨c.ins, .of_registries rfl rfl rfl⟩

/-- A step after which another definition is open leaves the former one at rest, without
closing it. -/
theorem Recordable.atRest_of_takenOver {r next : Run} (h : r.machine.Recordable)
    (hstep : r.step = .running next) {other : DefinitionName}
    (hrec : r.machine.recording = some name) (hother : next.machine.recording = some other)
    (hne : other ≠ name) :
    ∃ d, r.machine.definition? name = some d ∧ d.isClosed = false ∧
      next.machine.AtRest name d := by
  obtain ⟨d, hfind, hnotClosed⟩ := h name hrec
  obtain ⟨ins, hdefining⟩ := defining_of_running hstep
  have hchanged : next.machine.recording ≠ r.machine.recording := by
    rw [hrec, hother]
    exact fun hsame => hne (Option.some.inj hsame)
  have hrest : next.machine.recording ≠ some name := hrec ▸ hchanged
  refine ⟨d, hfind, hnotClosed, ?_, hrest⟩
  generalize next.machine.definition? = definition at hdefining ⊢
  generalize next.machine.recording = recording at hdefining hchanged hrest hother
  cases hdefining with
  | recorded hrec' hfind' => exact absurd rfl hchanged
  | @opened name' hopens =>
      have hne' : name ≠ name' := by
        rintro rfl
        exact hrest rfl
      rw [Function.update_of_ne hne']
      exact hfind
  | closed hrec' hfind' => cases hother
  | kept => exact absurd rfl hchanged

/-- Definitions last. At every moment of the life of a machine, whatever it ran, a definition
that can be looked up will be found unchanged until an instruction opens one of the same name.
And where another definition is opened before the open one is closed, that one stays as it is,
and cannot be looked up, until an instruction opens one of its name. -/
theorem definitions_last {o : Options} {now : Moment}
    (hnow : (Moment.between (ofOptions o)).Leads done now) :
    (∀ name d later afterwards,
      (now.machine.registry name.kind).get name.key = .ok d →
      now.Leads later afterwards → NeverOpened name later →
      (afterwards.machine.registry name.kind).get name.key = .ok d) ∧
    (∀ r next name other, now = .during r → r.step = .running next →
      r.machine.recording = some name → next.machine.recording = some other → other ≠ name →
      ∃ d, r.machine.definition? name = some d ∧ ∀ later afterwards,
        (Moment.during next).Leads later afterwards → NeverOpened name later →
        afterwards.machine.definition? name = some d ∧
          (afterwards.machine.registry name.kind).get name.key =
            .error (.undefinedFunction name.key)) := by
  have hrecordable := invariant_recordable.leads hnow (recordable_ofOptions o)
  constructor
  · intro name d later afterwards hget hlater hnever
    have hlast := AtRest.leads hlater (hrecordable.atRest_of_get hget) hnever
    exact Registry.get_eq_ok_iff.2 ⟨hlast.found, (Registry.get_eq_ok_iff.1 hget).2⟩
  · rintro r next name other rfl hstep hrec hother hne
    obtain ⟨d, hfind, hnotClosed, hrest⟩ :=
      hrecordable.atRest_of_takenOver hstep hrec hother hne
    refine ⟨d, hfind, ?_⟩
    intro later afterwards hlater hnever
    have hlast := AtRest.leads hlater hrest hnever
    exact ⟨hlast.found, Registry.get_of_isClosed_eq_false hlast.found hnotClosed⟩

/-- A program that closes a function, opens a second one and, without closing it, a third one,
and fails behind that. -/
def threeFunctionsProgram : Array Instruction :=
  #[⟨.npushb, [1, 2, 3], 0⟩, ⟨.fdef, [], 5⟩, ⟨.dup, [], 6⟩, ⟨.endf, [], 7⟩, ⟨.fdef, [], 8⟩,
    ⟨.swap, [], 9⟩, ⟨.fdef, [], 10⟩, ⟨.pop, [], 11⟩, ⟨.endf, [], 12⟩, ⟨.pop, [], 13⟩]

/-- A run of `threeFunctionsProgram` on a fresh machine, after some steps. -/
def threeFunctionsRun (n : Nat) : Run :=
  (Run.start (ofOptions {}) 1000000 threeFunctionsProgram).after n

/-- A program that calls a function with an operand. -/
def firstFunctionProgram : Array Instruction :=
  #[⟨.npushb, [7, 3], 0⟩, ⟨.call, [], 4⟩]

/-- The next run, which is one of `firstFunctionProgram`, after some steps. -/
def firstFunctionRun (n : Nat) : Run :=
  (Run.start (threeFunctionsRun 9).machine 1000000 firstFunctionProgram).after n

/-- The first of three functions is still the same when the next run has called it, and the
second one stays as it was when the third one was opened, and cannot be called. -/
theorem definitions_last_threeFunctions :
    (firstFunctionRun 5).machine.functions.get 3 = .ok ⟨#[⟨.dup, [], 6⟩], true⟩ ∧
      (firstFunctionRun 5).machine.definition? ⟨.function, 2⟩ =
        some ⟨#[⟨.swap, [], 9⟩], false⟩ ∧
      (firstFunctionRun 5).machine.functions.get 2 = .error (.undefinedFunction 2) := by
  have hstart := Moment.Leads.start (ofOptions {}) threeFunctionsProgram
  have hended : (threeFunctionsRun 9).step = .ended
      (((threeFunctionsRun 9).charged ⟨.pop, [], 13⟩ 999990).fail ⟨.pop, [], 13⟩
        .stackUnderflow) := by
    decide +kernel
  -- From both moments the steps lead to the end of the first run, and on to the next one.
  have hclosed : (Moment.during (threeFunctionsRun 4)).Leads [] _ := .here
  have htaken : (Moment.during (threeFunctionsRun 7)).Leads [] _ := .here
  have hclosedLater := (((hclosed.after 5).ended hended).begun firstFunctionProgram).after 5
  have htakenLater := (((htaken.after 2).ended hended).begun firstFunctionProgram).after 5
  constructor
  · exact (definitions_last (hstart.after 4)).1 ⟨.function, 3⟩ _ _ _
      (Registry.get_eq_ok_iff.2 (by decide +kernel)) hclosedLater (by decide +kernel)
  · obtain ⟨d, hfind, hlast⟩ := (definitions_last (hstart.after 6)).2 (threeFunctionsRun 6)
      (threeFunctionsRun 7) ⟨.function, 2⟩ ⟨.function, 1⟩ rfl (by decide +kernel)
      (by decide +kernel) (by decide +kernel) (by decide)
    have hopen : (threeFunctionsRun 6).machine.definition? ⟨.function, 2⟩ =
        some ⟨#[⟨.swap, [], 9⟩], false⟩ := by
      decide +kernel
    rw [← hopen, hfind]
    exact hlast _ _ htakenLater (by decide +kernel)

end Machine

end GridFit
