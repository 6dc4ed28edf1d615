import GridFit.CommandLine.Session
import GridFit.Proofs.CommandLine.Arguments
import GridFit.Proofs.Run.HiddenState
import GridFit.Proofs.Text.Report
import Mathlib.Data.Set.List

/-!
# What a session reports

A session loads all of its inputs before it decodes the first one, lists each program once it is
decoded, and executes no program before all of them are decoded. So what it prints and returns
depends on how far it gets: to an input that cannot be read, to one that does not decode, to the
end of the listings, to a storage area that no memory can hold, to a program that fails, or to the
end.

## Implementation notes

To say that a program was not executed, the machine's way to execute programs is made a parameter
of the session (`sessionBy`). It makes no difference to the output what that parameter does with
programs that are not executed.
-/

namespace GridFit

namespace Machine

open CommandLine (Program)

/-- The machine after programs have been executed one after the other. -/
def afterPrograms (m : Machine) (programs : List Program) : Machine :=
  m.afterRuns (programs.map Program.instructions)

/-- Something holds of each of the programs that are executed one after the other, and of the
machine that it is executed on. -/
def EachRun (P : Machine → Array Instruction → Prop) (m : Machine) : List Program → Prop
  | [] => True
  | program :: rest =>
      P m program.instructions ∧ (m.execute program.instructions).machine.EachRun P rest

variable {P : Machine → Array Instruction → Prop} {m : Machine} {front rest : List Program}

theorem eachRun_append :
    m.EachRun P (front ++ rest) ↔ m.EachRun P front ∧ (m.afterPrograms front).EachRun P rest := by
  induction front generalizing m with
  | nil => simp [EachRun, afterPrograms, afterRuns]
  | cons program front ih =>
      rw [List.cons_append, EachRun, EachRun, ih, and_assoc]
      rfl

theorem afterPrograms_concat (m : Machine) (front : List Program) (program : Program) :
    m.afterPrograms (front ++ [program]) =
      ((m.afterPrograms front).execute program.instructions).machine := by
  induction front generalizing m with
  | nil => rfl
  | cons first front ih => exact ih _

end Machine

namespace CommandLine

open Machine (EachRun)

/-! ## Inputs -/

/-- The name of an input and its bytes. -/
def Input.source (input : Input) : String × Option (List UInt8) :=
  (input.name, some input.bytes)

/-- The names of all inputs and their bytes, if they can be read. The program argument is the
last input. -/
def sources (files : Files) (a : Arguments) : List (String × Option (List UInt8)) :=
  (a.files.map fun path => (path, (files path).toOption)) ++
    a.hex.toList.map fun text => ("<hex>", (Hex.decode text).toOption)

/-- An input decodes to a program of the same name. -/
def Input.DecodesTo (input : Input) (program : Program) : Prop :=
  program.name = input.name ∧ parse input.bytes = .ok program.instructions

variable {files : Files} {a : Arguments} {inputs : List Input} {programs : List Program}

theorem source_eq_iff {ε : Type} {input : Input} {name : String}
    {contents : Except ε (List UInt8)} :
    input.source = (name, contents.toOption) ↔
      input.name = name ∧ contents = .ok input.bytes := by
  cases contents <;> simp [Input.source, Except.toOption, eq_comm]

theorem loadFiles_eq_ok_iff {paths : List String} : loadFiles files paths = .ok inputs ↔
    inputs.map Input.source = paths.map fun path => (path, (files path).toOption) := by
  induction paths generalizing inputs with
  | nil => simp [loadFiles, eq_comm]
  | cons path rest ih =>
      rw [loadFiles, List.map_cons, List.map_eq_cons_iff]
      constructor
      · intro h
        cases hfile : files path with
        | error fault => simp [hfile] at h
        | ok bytes =>
            cases hrest : loadFiles files rest with
            | error e => simp [hfile, hrest] at h
            | ok more =>
                simp only [hfile, hrest, Except.ok.injEq] at h
                exact ⟨_, more, h.symm, rfl, ih.1 hrest⟩
      · rintro ⟨input, more, rfl, hinput, hmore⟩
        obtain ⟨rfl, hfile⟩ := source_eq_iff.1 hinput
        rw [hfile, ih.2 hmore]

theorem loadHex_eq_ok_iff {hex : Option String} : loadHex hex = .ok inputs ↔
    inputs.map Input.source =
      hex.toList.map fun text => ("<hex>", (Hex.decode text).toOption) := by
  cases hex with
  | none => simp [loadHex, eq_comm]
  | some text =>
      rw [loadHex, Option.toList_some, List.map_singleton, List.map_eq_singleton_iff]
      constructor
      · intro h
        cases hdecode : Hex.decode text with
        | error e => simp [hdecode] at h
        | ok bytes =>
            simp only [hdecode, Except.ok.injEq] at h
            exact ⟨_, h.symm, rfl⟩
      · rintro ⟨input, rfl, hinput⟩
        obtain ⟨hname, hdecode⟩ := source_eq_iff.1 hinput
        rw [hdecode, ← hname]

/-- Loading succeeds with the inputs that the sources are. -/
theorem loadInputs_eq_ok_iff :
    loadInputs files a = .ok inputs ↔ inputs.map Input.source = sources files a := by
  rw [sources, List.map_eq_append_iff]
  simp only [← loadFiles_eq_ok_iff, ← loadHex_eq_ok_iff]
  unfold loadInputs
  cases loadFiles files a.files with
  | error e => simp
  | ok front => cases loadHex a.hex <;> simp [eq_comm]

/-- If loading fails, there is an input that cannot be read. -/
theorem exists_unread_of_loadInputs {e : SessionError} (h : loadInputs files a = .error e) :
    ∃ name, (name, none) ∈ sources files a := by
  by_contra hnone
  have hrange : sources files a ∈ Set.range (List.map Input.source) := by
    rw [Set.range_list_map]
    rintro ⟨name, bytes⟩ hsource
    cases bytes with
    | none => exact absurd ⟨name, hsource⟩ hnone
    | some bytes => exact ⟨{ name, bytes }, rfl⟩
  obtain ⟨inputs, hinputs⟩ := hrange
  rw [loadInputs_eq_ok_iff.2 hinputs] at h
  cases h

/-- If decoding succeeds, all inputs decode. -/
theorem decodesTo_of_decodeInputs (h : decodeInputs inputs = (programs, none)) :
    List.Forall₂ Input.DecodesTo inputs programs := by
  induction inputs generalizing programs with
  | nil =>
      cases h
      exact .nil
  | cons input rest ih =>
      rw [decodeInputs] at h
      cases hparse : parse input.bytes with
      | error fault => simp [hparse] at h
      | ok instructions =>
          simp only [hparse, Prod.mk.injEq] at h
          obtain ⟨rfl, hrest⟩ := h
          exact .cons ⟨rfl, hparse⟩ (ih (Prod.ext rfl hrest))

/-- If decoding fails, it has decoded the inputs before the first one that does not decode. -/
theorem exists_undecoded_of_decodeInputs {e : SessionError}
    (h : decodeInputs inputs = (programs, some e)) : ∃ front input back,
      inputs = front ++ input :: back ∧ List.Forall₂ Input.DecodesTo front programs ∧
        ∃ fault, parse input.bytes = .error fault := by
  induction inputs generalizing programs with
  | nil => cases h
  | cons input rest ih =>
      rw [decodeInputs] at h
      cases hparse : parse input.bytes with
      | error fault =>
          simp only [hparse, Prod.mk.injEq] at h
          obtain ⟨rfl, -⟩ := h
          exact ⟨[], input, rest, rfl, .nil, fault, hparse⟩
      | ok instructions =>
          simp only [hparse, Prod.mk.injEq] at h
          obtain ⟨rfl, hrest⟩ := h
          obtain ⟨front, failing, back, rfl, hfront, hfailing⟩ := ih (Prod.ext rfl hrest)
          exact ⟨input :: front, failing, back, rfl, .cons ⟨rfl, hparse⟩ hfront, hfailing⟩

/-! ## Executions -/

/-- Executes programs in order up to the first that fails, in the given way. -/
def executeProgramsBy (execute : Machine → Array Instruction → Outcome) (m : Machine) :
    List Program → Machine × Option SessionError
  | [] => (m, none)
  | program :: rest =>
      let outcome := execute m program.instructions
      match outcome.failure with
      | some failure => (outcome.machine, some (.failed program.name failure))
      | none => executeProgramsBy execute outcome.machine rest

/-- Carries out what a command line asks for, but executes programs in the given way. -/
def sessionBy (execute : Machine → Array Instruction → Outcome) (files : Files) (a : Arguments) :
    Output :=
  match loadInputs files a with
  | .error e => .ofResult "" (some e)
  | .ok inputs =>
      match decodeInputs inputs with
      | (programs, some e) => .ofResult (listings a programs) (some e)
      | (programs, none) =>
          if a.noRun then .ofResult (listings a programs) none
          else if Cells.capacity < a.options.storageSize then
            .ofCapacityOverflow (listings a programs)
          else
            let (m, failure) := executeProgramsBy execute (.ofOptions a.options) programs
            .ofResult (listings a programs ++ report a m) failure

theorem executeProgramsBy_execute (m : Machine) (programs : List Program) :
    executeProgramsBy Machine.execute m programs = executePrograms m programs := by
  induction programs generalizing m with
  | nil => rfl
  | cons program rest ih =>
      rw [executeProgramsBy, executePrograms]
      cases (m.execute program.instructions).failure with
      | some failure => rfl
      | none => exact ih _

/-- A session is one that executes programs as machines do. -/
theorem sessionBy_execute (files : Files) (a : Arguments) :
    sessionBy Machine.execute files a = session files a := by
  have hexecute : executeProgramsBy Machine.execute = executePrograms :=
    funext₂ executeProgramsBy_execute
  unfold sessionBy
  rw [hexecute]
  rfl

/-- A way to execute programs is that of machines for a program on a machine. -/
def AgreesOn (execute : Machine → Array Instruction → Outcome) (m : Machine)
    (program : Array Instruction) : Prop :=
  execute m program = m.execute program

/-- A program succeeds on a machine. -/
def Succeeds (m : Machine) (program : Array Instruction) : Prop :=
  (m.execute program).failure = none

variable {execute : Machine → Array Instruction → Outcome} {m : Machine}
  {front rest : List Program}

/-- Either each of some programs succeeds, or there is a first one that fails. -/
theorem eachRun_succeeds_or (m : Machine) (programs : List Program) :
    m.EachRun Succeeds programs ∨ ∃ front program back, programs = front ++ program :: back ∧
      m.EachRun Succeeds front ∧ ¬Succeeds (m.afterPrograms front) program.instructions := by
  induction programs generalizing m with
  | nil => exact .inl trivial
  | cons first rest ih =>
      by_cases hfirst : Succeeds m first.instructions
      · rcases ih (m.execute first.instructions).machine with hrest |
          ⟨front, program, back, rfl, hfront, hfails⟩
        · exact .inl ⟨hfirst, hrest⟩
        · exact .inr ⟨first :: front, program, back, rfl, ⟨hfirst, hfront⟩, hfails⟩
      · exact .inr ⟨[], first, rest, rfl, trivial, hfirst⟩

/-- Programs that succeed are executed before others. -/
theorem executeProgramsBy_append (hsucceed : m.EachRun Succeeds front)
    (hexecute : m.EachRun (AgreesOn execute) front) (rest : List Program) :
    executeProgramsBy execute m (front ++ rest) =
      executeProgramsBy execute (m.afterPrograms front) rest := by
  induction front generalizing m with
  | nil => rfl
  | cons program front ih =>
      obtain ⟨hfirst, hfront⟩ := hsucceed
      obtain ⟨hsame, hrest⟩ := hexecute
      rw [Succeeds] at hfirst
      rw [AgreesOn] at hsame
      rw [List.cons_append, executeProgramsBy]
      simp only [hsame, hfirst]
      exact ih hfront hrest

/-! ## Texts -/

/-- A text lists programs one after the other if they are to be listed, and is empty if not. -/
inductive IsListing : Bool → List Program → String → Prop
  | off {programs : List Program} : IsListing false programs ""
  | nil : IsListing true [] ""
  | cons {program : Program} {rest : List Program} {listed : String}
      (h : IsListing true rest listed) :
      IsListing true (program :: rest) (listing program.name program.instructions ++ listed)

theorem isListing_listings (a : Arguments) (programs : List Program) :
    IsListing a.disassemble programs (listings a programs) := by
  unfold listings
  cases a.disassemble with
  | false => exact .off
  | true =>
      rw [if_pos rfl]
      induction programs with
      | nil => exact .nil
      | cons program rest ih =>
          rw [List.map_cons, String.join_cons]
          exact .cons ih

/-- The report of a machine shows what is on it. -/
theorem isReportedBy_report (a : Arguments) (m : Machine) :
    m.IsReportedBy a.json (report a m) :=
  m.isReportedBy_shown a.json

/-! ## Courses -/

/-- The course of a session: the programs that it executes, and its output. -/
inductive Course (files : Files) (a : Arguments) : List Program → Output → Prop
  /-- An input cannot be read. -/
  | unread {name stderr} (hsource : (name, none) ∈ sources files a) :
      Course files a [] { exitCode := 1, stdout := "", stderr }
  /-- An input does not decode, but all those before it do. -/
  | undecoded {front input back programs listed stderr}
      (hinputs : (front ++ input :: back).map Input.source = sources files a)
      (hdecoded : List.Forall₂ Input.DecodesTo front programs)
      (hfault : ∃ fault, parse input.bytes = .error fault)
      (hlisted : IsListing a.disassemble programs listed) :
      Course files a [] { exitCode := 1, stdout := listed, stderr }
  /-- All inputs decode, and the programs are not to be executed. -/
  | decoded {inputs programs listed stderr} (hinputs : inputs.map Input.source = sources files a)
      (hdecoded : List.Forall₂ Input.DecodesTo inputs programs) (hnoRun : a.noRun = true)
      (hlisted : IsListing a.disassemble programs listed) :
      Course files a [] { exitCode := 0, stdout := listed, stderr }
  /-- The programs are to be executed, but no memory can hold the storage area. -/
  | unallocated {inputs programs listed stderr}
      (hinputs : inputs.map Input.source = sources files a)
      (hdecoded : List.Forall₂ Input.DecodesTo inputs programs) (hrun : a.noRun = false)
      (hcapacity : Cells.capacity < a.options.storageSize)
      (hlisted : IsListing a.disassemble programs listed) :
      Course files a [] { exitCode := 101, stdout := listed, stderr }
  /-- A program fails, but all those before it succeed. -/
  | failed {inputs front program back listed shown stderr}
      (hinputs : inputs.map Input.source = sources files a)
      (hdecoded : List.Forall₂ Input.DecodesTo inputs (front ++ program :: back))
      (hrun : a.noRun = false) (hcapacity : a.options.storageSize ≤ Cells.capacity)
      (hsucceed : (Machine.ofOptions a.options).EachRun Succeeds front)
      (hfails : ¬Succeeds ((Machine.ofOptions a.options).afterPrograms front)
        program.instructions)
      (hlisted : IsListing a.disassemble (front ++ program :: back) listed)
      (hshown : ((Machine.ofOptions a.options).afterPrograms (front ++ [program])).IsReportedBy
        a.json shown) :
      Course files a (front ++ [program]) { exitCode := 1, stdout := listed ++ shown, stderr }
  /-- All programs succeed. -/
  | succeeded {inputs programs listed shown stderr}
      (hinputs : inputs.map Input.source = sources files a)
      (hdecoded : List.Forall₂ Input.DecodesTo inputs programs) (hrun : a.noRun = false)
      (hcapacity : a.options.storageSize ≤ Cells.capacity)
      (hsucceed : (Machine.ofOptions a.options).EachRun Succeeds programs)
      (hlisted : IsListing a.disassemble programs listed)
      (hshown : ((Machine.ofOptions a.options).afterPrograms programs).IsReportedBy
        a.json shown) :
      Course files a programs { exitCode := 0, stdout := listed ++ shown, stderr }

/-- A program that fails is the last one to be executed. -/
theorem executeProgramsBy_of_failure {program : Program} {failure : Failure}
    (hfailure : (m.execute program.instructions).failure = some failure)
    (hsame : AgreesOn execute m program.instructions) :
    executeProgramsBy execute m (program :: rest) =
      ((m.execute program.instructions).machine, some (.failed program.name failure)) := by
  rw [AgreesOn] at hsame
  rw [executeProgramsBy]
  simp only [hsame, hfailure]

/-- What a session prints that executes programs. -/
theorem sessionBy_of_run (hload : loadInputs files a = .ok inputs)
    (hdecode : decodeInputs inputs = (programs, none)) (hrun : a.noRun = false)
    (hcapacity : a.options.storageSize ≤ Cells.capacity) {m : Machine}
    {failure : Option SessionError}
    (hexecute : executeProgramsBy execute (.ofOptions a.options) programs = (m, failure)) :
    sessionBy execute files a = .ofResult (listings a programs ++ report a m) failure := by
  simp [sessionBy, hload, hdecode, hrun, hexecute, Nat.not_lt.2 hcapacity]

/-- Every session has a course, which does not depend on what would become of programs that it
does not execute. -/
theorem exists_course (files : Files) (a : Arguments) : ∃ executed output,
    Course files a executed output ∧ ∀ execute : Machine → Array Instruction → Outcome,
      (Machine.ofOptions a.options).EachRun (AgreesOn execute) executed →
        sessionBy execute files a = output := by
  have hlisted := isListing_listings a
  cases hload : loadInputs files a with
  | error e =>
      obtain ⟨name, hsource⟩ := exists_unread_of_loadInputs hload
      refine ⟨[], .ofResult "" (some e), .unread hsource, fun _ _ => ?_⟩
      simp only [sessionBy, hload]
  | ok inputs =>
      have hinputs := loadInputs_eq_ok_iff.1 hload
      rcases hdecode : decodeInputs inputs with ⟨programs, _ | e⟩
      · have hdecoded := decodesTo_of_decodeInputs hdecode
        cases hrun : a.noRun with
        | true =>
            refine ⟨[], .ofResult (listings a programs) none,
              .decoded hinputs hdecoded hrun (hlisted _), fun _ _ => ?_⟩
            simp [sessionBy, hload, hdecode, hrun]
        | false =>
            rcases Nat.lt_or_ge Cells.capacity a.options.storageSize with hcapacity | hcapacity
            · refine ⟨[], .ofCapacityOverflow (listings a programs),
                .unallocated hinputs hdecoded hrun hcapacity (hlisted _), fun _ _ => ?_⟩
              simp [sessionBy, hload, hdecode, hrun, hcapacity]
            rcases eachRun_succeeds_or (.ofOptions a.options) programs with hsucceed |
              ⟨front, program, back, rfl, hsucceed, hfails⟩
            · refine ⟨programs, .ofResult (listings a programs ++ report a _) none,
                .succeeded hinputs hdecoded hrun hcapacity hsucceed (hlisted _)
                  (isReportedBy_report a _), fun execute hexecute => ?_⟩
              have hall := executeProgramsBy_append hsucceed hexecute []
              rw [List.append_nil] at hall
              exact sessionBy_of_run hload hdecode hrun hcapacity hall
            · obtain ⟨failure, hfailure⟩ := Option.ne_none_iff_exists'.1 hfails
              refine ⟨front ++ [program],
                .ofResult (listings a (front ++ program :: back) ++ report a _)
                  (some (.failed program.name failure)),
                .failed hinputs hdecoded hrun hcapacity hsucceed hfails (hlisted _)
                  (isReportedBy_report a _), fun execute hexecute => ?_⟩
              obtain ⟨hfront, hsame, -⟩ := Machine.eachRun_append.1 hexecute
              have hall := (executeProgramsBy_append hsucceed hfront (program :: back)).trans
                (executeProgramsBy_of_failure hfailure hsame)
              rw [sessionBy_of_run hload hdecode hrun hcapacity hall,
                Machine.afterPrograms_concat]
      · obtain ⟨front, input, back, rfl, hdecoded, hfault⟩ :=
          exists_undecoded_of_decodeInputs hdecode
        refine ⟨[], .ofResult (listings a programs) (some e),
          .undecoded hinputs hdecoded hfault (hlisted _), fun _ _ => ?_⟩
        simp only [sessionBy, hload, hdecode]

theorem eachRun_agreesOn_execute (m : Machine) (programs : List Program) :
    m.EachRun (AgreesOn Machine.execute) programs := by
  induction programs generalizing m with
  | nil => trivial
  | cons program rest ih => exact ⟨rfl, ih _⟩

/-- What a command line prints that has programs executed. -/
theorem run_of_run {args : List String} {m : Machine} {failure : Option SessionError}
    (hargs : Arguments.ofList args = .ok a) (hload : loadInputs files a = .ok inputs)
    (hdecode : decodeInputs inputs = (programs, none)) (hrun : a.noRun = false)
    (hcapacity : a.options.storageSize ≤ Cells.capacity)
    (hexecute : executePrograms (.ofOptions a.options) programs = (m, failure)) :
    run files args = .ofResult (listings a programs ++ report a m) failure := by
  rw [← executeProgramsBy_execute] at hexecute
  rw [run, hargs, ← sessionBy_of_run hload hdecode hrun hcapacity hexecute, sessionBy_execute]

/-- Two files. The program in one of them pops a value, and that in the other pushes three. -/
def twoFiles : Files := fun path =>
  if path = "pop" then .ok [0x21] else if path = "push" then .ok [0x4b, 0x40, 2, 1, 2]
  else .error .notFound

/-- Asks for a program and for an instruction that is cut off. -/
def cutLine : List String := ["-d", "pop", "--hex", "b0"]

/-- What `cutLine` asks for. -/
def cutArguments : Arguments :=
  { files := ["pop"], hex := some "b0", disassemble := true }

/-- Only the program in front of the one that is cut off is printed. -/
def cutOutput : Output :=
  { exitCode := 1
    stdout := "pop: 1 instructions\n     0: POP\n"
    stderr := "<hex>: malformed program @0: unexpected end of bytecode\n" }

/-- Asks for a program that is not to be executed. -/
def unexecutedLine : List String := ["--no-run", "-d", "--", "pop"]

/-- What `unexecutedLine` asks for. -/
def unexecutedArguments : Arguments :=
  { files := ["pop"], disassemble := true, noRun := true }

/-- Nothing fails that is not executed. -/
def unexecutedOutput : Output :=
  { exitCode := 0
    stdout := "pop: 1 instructions\n     0: POP\n"
    stderr := "" }

/-- Asks for a storage area that no memory can hold. -/
def hugeLine : List String := ["--disassemble", "pop", "--max-storage", "2305843009213693952"]

/-- What `hugeLine` asks for. -/
def hugeArguments : Arguments :=
  { files := ["pop"], disassemble := true, maxStorage := 0x2000000000000000 }

/-- The program is printed but not executed. -/
def hugeOutput : Output :=
  { exitCode := 101
    stdout := "pop: 1 instructions\n     0: POP\n"
    stderr := "capacity overflow\n" }

/-- Asks for a program that defines a function, scales a control value, reads the settings of the
machine and leaves an instruction definition open. -/
def setLine : List String :=
  ["--hex", "4001012c212d 40020140 70 4b 4c 91 40019189", "--ppem", "12", "--point-size=100",
    "--scale", "131072", "--axis-count", "2", "--max-storage", "1", "--cvt=-64,0"]

/-- What `setLine` asks for. -/
def setArguments : Arguments :=
  { hex := some "4001012c212d 40020140 70 4b 4c 91 40019189", ppem := 12, pointSize := some 100
    scale := 0x20000, axisCount := 2, maxStorage := 1, cvt := [-64, 0] }

/-- The program of `setLine`. -/
def setProgram : Array Instruction :=
  #[⟨.npushb, [1], 0⟩, ⟨.fdef, [], 3⟩, ⟨.pop, [], 4⟩, ⟨.endf, [], 5⟩, ⟨.npushb, [1, 64], 6⟩,
    ⟨.wcvtf, [], 10⟩, ⟨.mppem, [], 11⟩, ⟨.mps, [], 12⟩, ⟨.getvariation, [], 13⟩,
    ⟨.npushb, [145], 14⟩, ⟨.idef, [], 17⟩]

/-- Each setting shows in the report, and so does each definition. -/
def setOutput : Output :=
  { exitCode := 0
    stdout := "stack: [12, 100, 0, 0]\nfunctions: 1\n  1: 1 instructions\n" ++
      "instruction definitions: 1\n  145: 0 instructions (open)\n" ++
      "storage: [0]\ncvt: [-64, 128]\n"
    stderr := "" }

/-- Asks for two programs, the first of which pushes more than the stack can hold. -/
def overflowingLine : List String :=
  ["push", "--json", "--max-storage=0", "--max-stack", "1", "--max-instructions", "2", "pop"]

/-- What `overflowingLine` asks for. -/
def overflowingArguments : Arguments :=
  { files := ["push", "pop"], json := true, maxStorage := 0, maxStack := some 1
    maxInstructions := some 2 }

/-- The first program of `overflowingLine`. -/
def overflowingProgram : Array Instruction :=
  #[⟨.mppem, [], 0⟩, ⟨.npushb, [1, 2], 1⟩]

/-- The first value is still there, since the second program is not executed. -/
def overflowingOutput : Output :=
  { exitCode := 1
    stdout := "\x7b\n  \"stack\": [\n    16\n  ],\n  \"functions\": [],\n" ++
      "  \"instruction_defs\": [],\n  \"storage\": [],\n  \"cvt\": []\n\x7d\n"
    stderr := "push: @1:NPUSHB: value stack overflow\n" }

theorem run_setLine : run twoFiles setLine = setOutput := by
  have hexecute : (Machine.ofOptions setArguments.options).execute setProgram =
      ((Run.start (.ofOptions setArguments.options) 1000000 setProgram).after 11).succeed :=
    Run.finish_of_after_ended (n := 11) (by decide +kernel)
  have hargs : Arguments.ofList setLine = .ok setArguments := by decide +kernel
  have hload : loadInputs twoFiles setArguments = .ok [⟨"<hex>", encode setProgram.toList⟩] := by
    decide +kernel
  have hdecode : decodeInputs [⟨"<hex>", encode setProgram.toList⟩] =
      ([⟨"<hex>", setProgram⟩], none) := by
    decide +kernel
  rw [run_of_run hargs hload hdecode rfl (by decide) (by rw [executePrograms, hexecute])]
  decide +kernel

theorem run_overflowingLine : run twoFiles overflowingLine = overflowingOutput := by
  have hexecute : (Machine.ofOptions overflowingArguments.options).execute overflowingProgram =
      let r := (Run.start (.ofOptions overflowingArguments.options) 2 overflowingProgram).after 1
      (r.charged ⟨.npushb, [1, 2], 1⟩ 0).fail ⟨.npushb, [1, 2], 1⟩ .stackOverflow :=
    Run.finish_of_after_ended (n := 1) (by decide +kernel)
  have hargs : Arguments.ofList overflowingLine = .ok overflowingArguments := by decide +kernel
  have hload : loadInputs twoFiles overflowingArguments =
      .ok [⟨"push", [0x4b, 0x40, 2, 1, 2]⟩, ⟨"pop", [0x21]⟩] := by
    decide +kernel
  have hdecode : decodeInputs [⟨"push", [0x4b, 0x40, 2, 1, 2]⟩, ⟨"pop", [0x21]⟩] =
      ([⟨"push", overflowingProgram⟩, ⟨"pop", #[⟨.pop, [], 0⟩]⟩], none) := by
    decide +kernel
  rw [run_of_run hargs hload hdecode rfl (by decide) (by rw [executePrograms, hexecute])]
  decide +kernel

/-- The session of a command line has an output, which reports what happened. -/
def Reports (line : List String) (a : Arguments) (output : Output) : Prop :=
  run twoFiles line = output ∧ (∃ given, Written line given ∧ a.AreGivenBy given) ∧
    ∃ executed, Course twoFiles a executed output

end CommandLine

end GridFit
