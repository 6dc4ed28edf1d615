import GridFit.Proofs.Machine.Distance
import GridFit.Proofs.Program.Seam
import GridFit.Proofs.Run.ForwardJump
import GridFit.Proofs.Run.Lockstep

/-!
# Programs in two parts

Running a program does the same as running a first part of it and then the rest, wherever it
is split, if the budget lasts for both. A failure of the first part is one of the whole
program, unless a jump found no target there that the rest of the program may have.

## Implementation notes

The run of the whole program is in step with that of the first part until this one ends. Then
it stands at the seam, and is in step with the run of the second part.
-/

namespace GridFit

variable {refused : Fault → Prop} {p q : Array Instruction} {a b : Position}

/-- A position in the first part of a program, and the same position in the whole. -/
inductive BeforeSeam (p q : Array Instruction) : Position → Position → Prop
  | here (i : Nat) (h : i ≤ p.size) :
      BeforeSeam p q { sequence := p, index := i } { sequence := p ++ q, index := i }

/-- A position in the second part of a program, and the same position in the whole. -/
inductive BehindSeam (p q : Array Instruction) : Position → Position → Prop
  | here (i : Nat) :
      BehindSeam p q { sequence := q, index := i } { sequence := p ++ q, index := i + p.size }

/-- In the whole there is what is in the second part. -/
theorem BehindSeam.getElem?_eq (h : BehindSeam p q a b) :
    b.sequence[b.index]? = a.sequence[a.index]? := by
  cases h with
  | here i => rw [Array.getElem?_append_right (Nat.le_add_left _ _), Nat.add_sub_cancel]

/-- Distances do not depend on where indices are counted from. -/
theorem distance_add (i t k : Nat) :
    Int32.ofNat (t + k) - Int32.ofNat (i + k) = Int32.ofNat t - Int32.ofNat i := by
  rw [Int32.ofNat_add, Int32.ofNat_add]
  grind

namespace IsSeam

variable (h : IsSeam p q) (font : FontInstance) {i : Nat} {ins : Instruction}

include h

/-- A jump in the first part is as far in the whole, unless its target is not in that part. -/
theorem isExtendedBy_left (hins : p[i]? = some ins) :
    ({ font, sequence := p, index := i } : Site).IsExtendedBy (· = .invalidJump)
      { font, sequence := p ++ q, index := i } where
  font := rfl
  distance n := by
    unfold Site.distance?
    cases htarget : ({ font, sequence := p, index := i } : Site).target? n with
    | none => exact .inr ⟨rfl, rfl⟩
    | some t => exact .inl (by rw [h.target?_left font hins htarget])

/-- A jump in the second part is as far in the whole. -/
theorem isExtendedBy_right (hins : q[i]? = some ins) :
    ({ font, sequence := q, index := i } : Site).IsExtendedBy refused
      { font, sequence := p ++ q, index := i + p.size } where
  font := rfl
  distance n := by
    refine .inl ?_
    unfold Site.distance?
    rw [h.target?_right font hins, Option.map_map]
    congr 1
    funext t
    exact (distance_add i t p.size).symm

end IsSeam

namespace Run

/-- A jump that asks for the distance of a target ahead leads no further than there. -/
theorem nextIndex_distance_le {i t : Nat} (h : i < t) :
    nextIndex i (Int32.ofNat t - Int32.ofNat i) ≤ t := by
  unfold nextIndex
  split
  · have hdistance := toInt_distance i t
    rw [Int.bmod_def] at hdistance
    split at hdistance <;> omega
  · exact h

end Run

/-- Runs of the same machine are in step if instructions do the same at corresponding
positions. -/
theorem Lockstep.of_agree {T : Position → Position → Prop}
    (current : ∀ {a b ins}, T a b → a.sequence[a.index]? = some ins →
      b.sequence[b.index]? = some ins)
    (agree : ∀ {a b ins}, T a b → a.sequence[a.index]? = some ins → ∀ m : Machine,
      Agree refused Eq (Machine.dispatch a.sequence a.index ins m)
        (Machine.dispatch b.sequence b.index ins m))
    (behind : ∀ {a b ins m m' effect}, T a b → a.sequence[a.index]? = some ins →
      m.requestedJump = 0 → Machine.dispatch a.sequence a.index ins m = .ok effect m' →
      T (a.behind m'.requestedJump) (b.behind m'.requestedJump)) :
    Lockstep refused Eq T where
  requestedJump h := h ▸ rfl
  callDepth h := h ▸ rfl
  clear h := h ▸ rfl
  withDepth _ h := h ▸ rfl
  dispatch _ _ _ _ _ h := h ▸ .refl _
  current := current
  program hpq hins h _ := h ▸ agree hpq hins _
  behind := behind

/-- The first part of a program and the whole go on alike, unless a jump finds no target. -/
theorem lockstep_beforeSeam (h : IsSeam p q) (hp : IsAscending p) :
    Lockstep (· = .invalidJump) Eq (BeforeSeam p q) := by
  apply Lockstep.of_agree
  · rintro _ _ ins ⟨i, -⟩ hins
    rwa [Array.getElem?_append_left (Array.getElem?_eq_some_iff.1 hins).1]
  · rintro _ _ ins ⟨i, -⟩ hins m
    exact Machine.agree_dispatch (h.isExtendedBy_left m.font hins)
  · rintro _ _ ins m m' effect ⟨i, -⟩ hins hjump hdispatch
    refine .here _ ?_
    have hsize := (Array.getElem?_eq_some_iff.1 hins).1
    rcases Machine.requestedJump_of_dispatch hjump hdispatch with hneg | ⟨n, hn, hdistance⟩
    · rw [Run.nextIndex, if_neg (Int32.not_lt.2 hneg)]
      exact hsize
    · obtain ⟨t, htarget, hstored⟩ := Option.map_eq_some_iff.1 hdistance
      have hplace := (Site.target?_eq_some_iff _ hins).1 htarget
      rw [← hstored]
      exact Nat.le_trans (Run.nextIndex_distance_le (hp.ahead hins hn hplace).1) hplace.le_size

/-- The second part of a program and the whole go on alike. -/
theorem lockstep_behindSeam (h : IsSeam p q) :
    Lockstep (fun _ => False) Eq (BehindSeam p q) := by
  apply Lockstep.of_agree
  · intro a b ins h hins
    exact h.getElem?_eq.trans hins
  · rintro _ _ ins ⟨i⟩ hins m
    exact Machine.agree_dispatch (h.isExtendedBy_right m.font hins)
  · rintro _ _ ins m m' effect ⟨i⟩ - - -
    have hindex : Run.nextIndex (i + p.size) m'.requestedJump =
        Run.nextIndex i m'.requestedJump + p.size := by
      unfold Run.nextIndex
      split <;> omega
    rw [Position.behind, Position.behind, hindex]
    exact .here _

namespace Machine

variable (m : Machine)

theorem inStep_first (p q : Array Instruction) :
    (Run.start m m.budget p).InStep Eq (BeforeSeam p q) (Run.start m m.budget (p ++ q)) where
  machine := rfl
  requestedJump := rfl
  abreast := .program (.here 0 (Nat.zero_le _))

/-- At the end of the first part, the run of the whole is in step with the run of the second
part. -/
theorem inStep_second {t : Run} (hmachine : m = t.machine) (hjump : m.requestedJump = 0)
    (hcalls : t.calls = []) (hend : a.sequence[a.index]? = none)
    (hposition : BeforeSeam p q a t.position) :
    (Run.start m m.budget q).InStep Eq (BehindSeam p q) t where
  machine := (clear_eq hjump).trans hmachine
  requestedJump := rfl
  abreast := by
    rw [hcalls]
    generalize t.position = position at hposition
    cases hposition with
    | here i hle =>
        obtain rfl : i = 0 + p.size := by
          have hge : p.size ≤ i := Array.getElem?_eq_none_iff.1 hend
          omega
        exact .program (.here 0)

/-- A program that is split does the same in two runs as in one. If the first part succeeds,
the whole ends as the second part does, provided that the budget of one run lasts for both
and that the second one does not exhaust its own. If the first part fails, the whole does so,
too, unless the first part lacked the target of a jump. -/
theorem execute_append {bytes : List UInt8} (hparse : parse bytes = .ok (p ++ q)) :
    ((m.execute p).failure = none → ¬((m.execute p).machine.execute q).IsExhausted →
      m.unitsUsed p + (m.execute p).machine.unitsUsed q ≤ m.budget →
      (m.execute (p ++ q)).failure = ((m.execute p).machine.execute q).failure ∧
        (m.execute (p ++ q)).machine = ((m.execute p).machine.execute q).machine) ∧
    ∀ failure, (m.execute p).failure = some failure → failure.fault ≠ .invalidJump →
      (m.execute (p ++ q)).failure = some failure ∧
        (m.execute (p ++ q)).machine = (m.execute p).machine := by
  have hseam := IsSeam.of_parse hparse
  have hp : IsAscending p := (IsAscending.of_parse hparse).of_append
  have hfirst := (lockstep_beforeSeam hseam hp).finish (m.inStep_first p q) (.inl rfl)
  constructor
  · intro hsucceeds hends hunits
    cases hfirst with
    | refused hfailure hrefused => cases hsucceeds.symm.trans hfailure
    | failed hfailure hfailure' hmachine => cases hsucceeds.symm.trans hfailure
    | @finished _ t hfailure hreaches hbudget hmachine hjump hcalls hend hposition =>
        have hstep := inStep_second _ hmachine hjump hcalls hend hposition
        have henough : (m.execute p).machine.unitsUsed q ≤ t.budget := by
          have hleft : t.budget + m.unitsUsed p = m.budget := hbudget
          omega
        have hsecond := (lockstep_behindSeam hseam).finish hstep (.inr ⟨hends, henough⟩)
        have hwhole : m.execute (p ++ q) = t.finish := hreaches.finish_eq
        rw [hwhole]
        rcases hsecond.agree fun _ _ hpq hend => hpq.getElem?_eq.trans hend with
          ⟨_, -, hrefused⟩ | ⟨hfailure', hmachine'⟩
        · exact hrefused.elim
        · exact ⟨hfailure', hmachine'.symm⟩
  · intro failure hfails hfault
    cases hfirst with
    | refused hfailure hrefused =>
        cases hfails.symm.trans hfailure
        exact absurd hrefused hfault
    | failed hfailure hfailure' hmachine =>
        cases hfails.symm.trans hfailure
        exact ⟨hfailure', hmachine.symm⟩
    | finished hfailure hreaches hbudget hmachine hjump hcalls hend hposition =>
        cases hfails.symm.trans hfailure

/-- The beginning of a test, with a jump to the end of what there is. -/
def openedPart : Array Instruction :=
  #[⟨.npushb, [1, 1], 0⟩, ⟨.ifTest, [], 4⟩, ⟨.jmpr, [], 5⟩]

/-- The end of the test. -/
def closedPart : Array Instruction :=
  #[⟨.npushb, [7], 6⟩, ⟨.endIf, [], 9⟩]

/-- A program can be split inside of a test, at the target of a jump, and behind an instruction
that fails. -/
theorem execute_openedPart_append :
    ((ofOptions {}).execute (openedPart ++ closedPart)).failure = none ∧
      ((ofOptions {}).execute (openedPart ++ closedPart)).machine.stack.values = [7] ∧
      ((ofOptions {}).execute (#[⟨.pop, [], 0⟩] ++ #[⟨.dup, [], 1⟩])).failure =
        some ⟨0, some .pop, .stackUnderflow⟩ := by
  have hparse : parse [0x40, 2, 1, 1, 0x58, 0x1C, 0x40, 1, 7, 0x59] =
      .ok (openedPart ++ closedPart) :=
    parse_eq_ok_iff.2 ⟨by decide, rfl⟩
  have hparse' : parse [0x21, 0x20] = .ok (#[⟨.pop, [], 0⟩] ++ #[⟨.dup, [], 1⟩]) :=
    parse_eq_ok_iff.2 ⟨by decide, rfl⟩
  generalize hm : ((Run.start (ofOptions {}) 1000000 openedPart).after 3).machine = m
  have hfirst : (ofOptions {}).execute openedPart =
      ((Run.start (ofOptions {}) 1000000 openedPart).after 3).succeed :=
    Run.finish_of_after_ended (n := 3) (by decide +kernel)
  have hmachine : ((ofOptions {}).execute openedPart).machine = m := by
    rw [hfirst, ← hm]
    rfl
  have hsecond : m.execute closedPart = ((Run.start m 1000000 closedPart).after 2).succeed := by
    subst hm
    exact Run.finish_of_after_ended (n := 2) (by decide +kernel)
  have hunits : (ofOptions {}).unitsUsed openedPart + m.unitsUsed closedPart ≤ 1000000 := by
    rw [unitsUsed_of_execute_eq hfirst, unitsUsed_of_execute_eq hsecond]
    subst hm
    decide +kernel
  have hfails : (ofOptions {}).execute #[⟨.pop, [], 0⟩] =
      ((Run.start (ofOptions {}) 1000000 #[⟨.pop, [], 0⟩]).charged ⟨.pop, [], 0⟩ 999999).fail
        ⟨.pop, [], 0⟩ .stackUnderflow :=
    Run.finish_of_after_ended (n := 0) (by decide +kernel)
  have hsucceeds : ((ofOptions {}).execute openedPart).failure = none := by
    rw [hfirst]
    rfl
  have hends : ¬(((ofOptions {}).execute openedPart).machine.execute closedPart).IsExhausted := by
    rw [hmachine, hsecond]
    exact Run.not_isExhausted_succeed _
  obtain ⟨hfailure, hleft⟩ := (execute_append (ofOptions {}) hparse).1 hsucceeds hends
    (by rw [hmachine]; exact hunits)
  have hwhole' := (execute_append (ofOptions {}) hparse').2 ⟨0, some .pop, .stackUnderflow⟩
  rw [hmachine, hsecond] at hfailure hleft
  refine ⟨hfailure, ?_, (hwhole' (by rw [hfails]; rfl) (by decide)).1⟩
  rw [hleft]
  subst hm
  decide +kernel

end Machine

end GridFit
