import GridFit.Proofs.Agreement
import GridFit.Proofs.Machine.Control

/-!
# Distances of jumps

The place of an instruction in a sequence matters to jumps only, and to them by the
distances of their targets only. So an instruction does the same at another place if the
distances there are the same, and if the other place offers more targets, then it does the
same unless it fails to find one.
-/

namespace GridFit

variable {refused : Fault → Prop}

namespace Site

/-- The number of instructions up to the position that lies `offset` bytes after the
instruction, in the form in which a jump asks for it. -/
def distance? (site : Site) (offset : Nat) : Option Value :=
  (site.target? offset).map fun target => Int32.ofNat target - Int32.ofNat site.index

/-- A site with the same distances, but for targets that the first site does not have if it
is a refusal not to find one. -/
structure IsExtendedBy (refused : Fault → Prop) (site other : Site) : Prop where
  /-- The font instance is the same. -/
  font : site.font = other.font
  /-- The distances are the same, or the first site has no target. -/
  distance (offset : Nat) : site.distance? offset = other.distance? offset ∨
    site.distance? offset = none ∧ refused .invalidJump

end Site

namespace Workspace

variable {site other : Site} {w w' : Workspace}

/-- A forward jump asks for the distance of its target. -/
theorem jumpBy_eq (site : Site) (offset : Value) :
    jumpBy site offset =
      if offset ≤ 0 then requestJump offset
      else match site.distance? offset.toInt.toNat with
        | some distance => requestJump distance
        | none => throw .invalidJump := by
  unfold jumpBy Site.distance?
  cases site.target? offset.toInt.toNat <;> rfl

theorem agree_jumpBy (h : site.IsExtendedBy refused other) (offset : Value) (w : Workspace) :
    Agree refused Eq (jumpBy site offset w) (jumpBy other offset w) := by
  rw [jumpBy_eq, jumpBy_eq]
  rcases h.distance offset.toInt.toNat with heq | ⟨hnone, hrefused⟩
  · rw [heq]
    exact .refl _
  · rw [hnone]
    by_cases hbackward : offset ≤ 0
    · rw [if_pos hbackward, if_pos hbackward]
      exact .refl _
    · rw [if_neg hbackward]
      exact .refused hrefused

theorem agree_jump (h : site.IsExtendedBy refused other) (test : JumpTest) (w : Workspace) :
    Agree refused Eq (jump site test w) (jump other test w) := by
  refine Agree.bind (.refl _) fun taken w₁ _ hw₁ => ?_
  subst hw₁
  refine Agree.bind (.refl _) fun offset w₂ _ hw₂ => ?_
  subst hw₂
  cases taken with
  | true => exact agree_jumpBy h offset w₂
  | false => exact .refl _

/-- A jump that succeeds asks for nothing, or for a distance of a target, or for something
that leads nowhere. -/
theorem requestedJump_of_jump_ok {test : JumpTest} (h : jump site test w = .ok () w') :
    w'.requestedJump = w.requestedJump ∨ w'.requestedJump ≤ 0 ∨
      ∃ n, 0 < n ∧ site.distance? n = some w'.requestedJump := by
  have hstack {α : Type} (x : StackM α) : Keeps requestedJump (onStack x) :=
    keeps_onStack (fun _ _ => rfl) x
  obtain ⟨taken, w₁, htest, h⟩ := ok_of_bind h
  obtain ⟨offset, w₂, hpop, h⟩ := ok_of_bind h
  cases taken with
  | false =>
      have hkept₁ := hstack test.isTaken w
      have hkept₂ := hstack OperandStack.pop w₁
      rw [htest] at hkept₁
      rw [hpop] at hkept₂
      cases h
      exact .inl (hkept₂.trans hkept₁)
  | true =>
      rw [if_pos rfl, jumpBy_eq] at h
      by_cases hbackward : offset ≤ 0
      · rw [if_pos hbackward] at h
        cases h
        exact .inr (.inl hbackward)
      · have hpos : (0 : Int) < offset.toInt :=
          Int32.lt_iff_toInt_lt.1 (Int32.not_le.1 hbackward)
        rw [if_neg hbackward] at h
        cases hdistance : site.distance? offset.toInt.toNat with
        | none =>
            rw [hdistance] at h
            cases h
        | some distance =>
            rw [hdistance] at h
            cases h
            exact .inr (.inr ⟨_, by omega, hdistance⟩)

end Workspace

/-- An operation does the same where the distances of jumps are the same. -/
theorem Operation.agree_execute {site other : Site} (h : site.IsExtendedBy refused other)
    (ins : Instruction) (op : Operation) (w : Workspace) :
    Agree refused Eq (op.execute site ins w) (op.execute other ins w) := by
  by_cases hop : ∃ test, op = .jump test
  · obtain ⟨test, rfl⟩ := hop
    exact Workspace.agree_jump h test w
  · rw [execute_congr site other h.font ins fun test heq => hop ⟨test, heq⟩]
    exact .refl _

namespace Machine

variable {sequence sequence' : Array Instruction} {index index' : Nat} {ins : Instruction}
  {m m' : Machine}

theorem agree_unlessPassive {x y : MachineM Effect} (h : Agree refused Eq (x m) (y m)) :
    Agree refused Eq (unlessPassive ins x m) (unlessPassive ins y m) := by
  cases hexec : m.isExecuting with
  | false =>
      rw [unlessPassive_skipped hexec, unlessPassive_skipped hexec]
      exact .refl _
  | true =>
      cases hrec : m.recording with
      | none => rwa [unlessPassive_active hexec hrec, unlessPassive_active hexec hrec]
      | some name =>
          rw [unlessPassive_recording hexec hrec, unlessPassive_recording hexec hrec]
          exact .refl _

/-- An instruction does the same in another sequence if the distances of its jumps are the
same there. -/
theorem agree_dispatch
    (h : ({ font := m.font, sequence, index } : Site).IsExtendedBy refused
      { font := m.font, sequence := sequence', index := index' }) :
    Agree refused Eq (dispatch sequence index ins m) (dispatch sequence' index' ins m) := by
  unfold dispatch
  cases ins.kind with
  | generic =>
      refine agree_unlessPassive ?_
      have hexecute := Operation.agree_execute h ins ins.opcode.operation m.toWorkspace
      simp only [executeGeneric, bind_apply, get_apply, onWorkspace, Instruction.execute]
      generalize ins.opcode.operation.execute _ ins m.toWorkspace = first at hexecute ⊢
      generalize ins.opcode.operation.execute _ ins m.toWorkspace = second at hexecute ⊢
      cases hexecute with
      | ok a hw =>
          cases hw
          exact .refl _
      | error fault hw =>
          cases hw
          exact .refl _
      | refused hrefused => exact .refused hrefused
  | _ => exact .refl _

/-- An instruction that succeeds when no jump is asked for asks for a distance of a target, or
for nothing that leads anywhere. -/
theorem requestedJump_of_dispatch {effect : Effect} (hjump : m.requestedJump = 0)
    (h : dispatch sequence index ins m = .ok effect m') :
    m'.requestedJump ≤ 0 ∨
      ∃ n, 0 < n ∧ ({ font := m.font, sequence, index } : Site).distance? n =
        some m'.requestedJump := by
  rcases requestedJump_of_dispatch_ok h with hkept | ⟨-, w, hrun, hstored⟩
  · exact .inl (Int32.le_of_eq (hkept.trans hjump))
  · rw [hstored]
    by_cases hop : ∃ test, ins.opcode.operation = .jump test
    · obtain ⟨test, hop⟩ := hop
      rw [Instruction.execute_jump hop] at hrun
      rcases Workspace.requestedJump_of_jump_ok hrun with hkept | hasked
      · exact .inl (Int32.le_of_eq (hkept.trans hjump))
      · exact hasked
    · have hkept := Operation.keeps_requestedJump { font := m.font, sequence, index } ins
        (fun test heq => hop ⟨test, heq⟩) m.toWorkspace
      rw [← Instruction.execute, hrun] at hkept
      exact .inl (Int32.le_of_eq (hkept.trans hjump))

end Machine

end GridFit
