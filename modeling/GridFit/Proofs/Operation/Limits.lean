import GridFit.Operation.Execute
import GridFit.Proofs.Machine.Settings

/-!
# Operations under a looser limit

The stack limit is consulted by pushes only, and only to refuse them. So every operation
does under a looser limit what it does under a tighter one, unless it was refused there.

## Implementation notes

The statements are made up as the operations are: of those on the stack first, then of
those on the workspace. The limits are fixed for the whole module. If they are the same,
nothing needs to count as a refusal.
-/

namespace GridFit

variable {α : Type} {refused : Fault → Prop} {limit limit' : Option Nat}

/-! ## The operand stack -/

namespace OperandStack

/-- A stack that has the limit `limit`, and the same stack with the limit `limit'`. -/
structure IsUnder (limit limit' : Option Nat) (s t : OperandStack) : Prop where
  /-- The first stack has the limit `limit`. -/
  limit : s.limit = limit
  /-- The second one differs from it by its limit only. -/
  eq_withLimit : t = s.withLimit limit'

/-- What fits under a limit fits under a looser one. -/
theorem hasRoom_withLimit {s : OperandStack} (hlooser : IsLooser s.limit limit') {n : Nat}
    (h : s.hasRoom n = true) : (s.withLimit limit').hasRoom n = true := by
  unfold hasRoom at h ⊢
  cases limit' with
  | none => rfl
  | some max' =>
      cases hlimit : s.limit with
      | none =>
          rw [hlimit] at hlooser
          exact hlooser.elim
      | some max =>
          simp only [hlimit, decide_eq_true_eq] at h hlooser
          exact decide_eq_true (Nat.le_trans h hlooser)

theorem top?_withLimit (s : OperandStack) (limit : Option Nat) :
    (s.withLimit limit).top? = s.top? := rfl

/-! ### Operations that do not push -/

theorem respects_pop : Respects refused (IsUnder limit limit') pop := by
  rintro s _ ⟨rfl, rfl⟩
  simp only [pop, top?_withLimit]
  cases s.top? with
  | some v => exact .ok v ⟨rfl, rfl⟩
  | none => exact .error _ ⟨rfl, rfl⟩

theorem respects_popLocation : Respects refused (IsUnder limit limit') popLocation :=
  respects_pop.bind fun v => .pure v.location

theorem respects_popMany (n : Nat) : Respects refused (IsUnder limit limit') (popMany n) := by
  rintro s _ ⟨rfl, rfl⟩
  by_cases h : n ≤ s.depth
  · simp only [popMany, depth_withLimit, h, if_true]
    exact .ok () ⟨rfl, rfl⟩
  · simp only [popMany, depth_withLimit, h, if_false]
    exact .error _ ⟨rfl, rfl⟩

theorem respects_discardPairs : Respects refused (IsUnder limit limit') discardPairs :=
  respects_popLocation.bind fun n => respects_popMany (2 * n)

theorem respects_clear : Respects refused (IsUnder limit limit') clear := by
  rintro s _ ⟨rfl, rfl⟩
  exact .ok () ⟨rfl, rfl⟩

theorem respects_swap : Respects refused (IsUnder limit limit') swap := by
  rintro s _ ⟨rfl, rfl⟩
  simp only [swap, values_withLimit]
  rcases s.values with _ | ⟨b, _ | ⟨a, rest⟩⟩
  · exact .error _ ⟨rfl, rfl⟩
  · exact .error _ ⟨rfl, rfl⟩
  · exact .ok () ⟨rfl, rfl⟩

theorem respects_roll : Respects refused (IsUnder limit limit') roll := by
  rintro s _ ⟨rfl, rfl⟩
  simp only [roll, values_withLimit]
  rcases s.values with _ | ⟨c, _ | ⟨b, _ | ⟨a, rest⟩⟩⟩
  · exact .error _ ⟨rfl, rfl⟩
  · exact .error _ ⟨rfl, rfl⟩
  · exact .error _ ⟨rfl, rfl⟩
  · exact .ok () ⟨rfl, rfl⟩

theorem respects_copyIndexed : Respects refused (IsUnder limit limit') copyIndexed := by
  rintro s _ ⟨rfl, rfl⟩
  simp only [copyIndexed, values_withLimit]
  rcases s.values with _ | ⟨k, rest⟩
  · exact .error _ ⟨rfl, rfl⟩
  · simp only
    rcases k.location with _ | i
    · exact .error _ ⟨rfl, rfl⟩
    · simp only
      cases rest[i]? with
      | some v => exact .ok () ⟨rfl, rfl⟩
      | none => exact .error _ ⟨rfl, rfl⟩

theorem respects_moveIndexed : Respects refused (IsUnder limit limit') moveIndexed := by
  refine respects_popLocation.bind fun position => ?_
  rintro s _ ⟨rfl, rfl⟩
  cases position with
  | zero => exact .error _ ⟨rfl, rfl⟩
  | succ i =>
      by_cases h : i < s.depth
      · have h' : i < (s.withLimit limit').depth := h
        simp only [raise, dif_pos h, dif_pos h', if_pos h, if_pos h']
        exact .ok () ⟨rfl, rfl⟩
      · simp only [depth_withLimit, h, if_false]
        exact .error _ ⟨rfl, rfl⟩

/-! ### Operations that push -/

section

variable (hlooser : IsLooser limit limit')
  (hrefused : limit = limit' ∨ refused .stackOverflow)

include hlooser hrefused

/-- A push is refused for want of room only. -/
private theorem respects_guarded (n : Nat) (f : OperandStack → OperandStack)
    (hlimit : ∀ s, (f s).limit = s.limit)
    (hsame : ∀ s l, f (s.withLimit l) = (f s).withLimit l) :
    Respects refused (IsUnder limit limit')
      (fun s => if s.hasRoom n then .ok () (f s) else .error .stackOverflow s) := by
  rintro s _ ⟨rfl, rfl⟩
  by_cases hroom : s.hasRoom n = true
  · simp only [hroom, hasRoom_withLimit hlooser hroom, if_true, hsame]
    exact .ok () ⟨hlimit s, rfl⟩
  · rcases hrefused with rfl | hrefused
    · simp only [withLimit_limit, hroom]
      exact .error _ ⟨rfl, rfl⟩
    · simp only [hroom]
      exact .refused hrefused

theorem respects_push (v : Value) : Respects refused (IsUnder limit limit') (push v) :=
  respects_guarded hlooser hrefused 1 (cons v) (fun _ => rfl) fun _ _ => rfl

theorem respects_pushAll (vs : List Value) :
    Respects refused (IsUnder limit limit') (pushAll vs) :=
  respects_guarded hlooser hrefused vs.length (append · vs) (fun _ => rfl) fun _ _ => rfl

theorem respects_pushTimes (v : Value) (n : Nat) :
    Respects refused (IsUnder limit limit') (pushTimes v n) := by
  induction n with
  | zero => exact .pure ()
  | succ n ih => exact (respects_push hlooser hrefused v).bind fun _ => ih

theorem respects_pushDepth : Respects refused (IsUnder limit limit')
    (fun s => push (Int32.ofNat s.depth) s) := by
  intro s t h
  have hpush := respects_push hlooser hrefused (Int32.ofNat s.depth) s t h
  obtain ⟨rfl, rfl⟩ := h
  exact hpush

theorem respects_dup : Respects refused (IsUnder limit limit') dup := by
  intro s t h
  have hpush (v : Value) := respects_push hlooser hrefused v s t h
  obtain ⟨rfl, rfl⟩ := h
  simp only [dup, top?_withLimit]
  cases s.top? with
  | some v => exact hpush v
  | none => exact .error _ ⟨rfl, rfl⟩

theorem respects_applyUnary (f : Value → Except Fault Value) :
    Respects refused (IsUnder limit limit') (applyUnary f) :=
  respects_pop.bind fun a => (Respects.attempt (f a)).bind fun v =>
    respects_push hlooser hrefused v

theorem respects_applyBinary (f : Value → Value → Except Fault Value) :
    Respects refused (IsUnder limit limit') (applyBinary f) :=
  respects_pop.bind fun b => respects_pop.bind fun a => (Respects.attempt (f a b)).bind fun v =>
    respects_push hlooser hrefused v

end

end OperandStack

/-! ## The workspace -/

namespace Workspace

/-- A workspace whose stack has the limit `limit`, and the same workspace whose stack has the
limit `limit'`. -/
structure IsUnder (limit limit' : Option Nat) (w v : Workspace) : Prop where
  /-- The first stack has the limit `limit`. -/
  limit : w.stack.limit = limit
  /-- The second workspace differs by the limit of its stack only. -/
  eq_withLimit : v = { w with stack := w.stack.withLimit limit' }

theorem respects_onStack {x : StackM α}
    (hx : Respects refused (OperandStack.IsUnder limit limit') x) :
    Respects refused (IsUnder limit limit') (onStack x) := by
  rintro w _ ⟨rfl, rfl⟩
  have h := hx w.stack _ ⟨rfl, rfl⟩
  simp only [onStack]
  generalize x w.stack = first at h ⊢
  generalize x (w.stack.withLimit limit') = second at h ⊢
  cases h with
  | ok a h => exact .ok a ⟨h.limit, by rw [h.eq_withLimit]⟩
  | error fault h => exact .error fault ⟨h.limit, by rw [h.eq_withLimit]⟩
  | refused h => exact .refused h

theorem respects_onStorage (x : EStateM Fault (Cells .storage) α) :
    Respects refused (IsUnder limit limit') (onStorage x) := by
  rintro w _ ⟨rfl, rfl⟩
  simp only [onStorage]
  cases x w.storage with
  | ok a c => exact .ok a ⟨rfl, rfl⟩
  | error fault c => exact .error fault ⟨rfl, rfl⟩

theorem respects_onCvt (x : EStateM Fault (Cells .cvt) α) :
    Respects refused (IsUnder limit limit') (onCvt x) := by
  rintro w _ ⟨rfl, rfl⟩
  simp only [onCvt]
  cases x w.cvt with
  | ok a c => exact .ok a ⟨rfl, rfl⟩
  | error fault c => exact .error fault ⟨rfl, rfl⟩

/-- A change of the graphics state or of the jump that is asked for leaves the stack
alone. -/
theorem respects_modify {f : Workspace → Workspace} (hstack : ∀ w, (f w).stack = w.stack)
    (hsame : ∀ w s, f { w with stack := s } = { f w with stack := s }) :
    Respects refused (IsUnder limit limit') (modify f : WorkM Unit) := by
  refine .modify ?_
  rintro w _ ⟨rfl, rfl⟩
  exact ⟨by rw [hstack], by rw [hsame, hstack]⟩

theorem respects_pop : Respects refused (IsUnder limit limit') (onStack OperandStack.pop) :=
  respects_onStack OperandStack.respects_pop

theorem respects_popLocation :
    Respects refused (IsUnder limit limit') (onStack OperandStack.popLocation) :=
  respects_onStack OperandStack.respects_popLocation

theorem respects_popMany (n : Nat) :
    Respects refused (IsUnder limit limit') (onStack (OperandStack.popMany n)) :=
  respects_onStack (OperandStack.respects_popMany n)

theorem respects_storeStorage : Respects refused (IsUnder limit limit') storeStorage :=
  respects_pop.bind fun _ => respects_popLocation.bind fun _ => respects_onStorage _

theorem respects_storeCvt (f : Value → Value) :
    Respects refused (IsUnder limit limit') (storeCvt f) :=
  respects_pop.bind fun _ => respects_popLocation.bind fun _ => respects_onCvt _

theorem respects_setRoundMode (mode : RoundMode) :
    Respects refused (IsUnder limit limit') (setRoundMode mode) :=
  respects_modify (fun _ => rfl) fun _ _ => rfl

theorem respects_configureRound (mode : RoundMode) (gridPeriod : Value) :
    Respects refused (IsUnder limit limit') (configureRound mode gridPeriod) :=
  respects_pop.bind fun _ => respects_modify (fun _ => rfl) fun _ _ => rfl

theorem respects_putLoop (n : Nat) : Respects refused (IsUnder limit limit') (putLoop n) :=
  respects_modify (fun _ => rfl) fun _ _ => rfl

theorem respects_setLoop : Respects refused (IsUnder limit limit') setLoop :=
  respects_pop.bind fun _ => .ite (.throw _) (respects_putLoop _)

theorem respects_discardPoints : Respects refused (IsUnder limit limit') discardPoints := by
  refine .get_bind ?_ fun w => (respects_putLoop 1).bind fun _ => respects_popMany _
  rintro w _ ⟨rfl, rfl⟩
  rfl

theorem respects_jump (site : Site) (test : JumpTest) :
    Respects refused (IsUnder limit limit') (jump site test) := by
  have hrequest (v : Value) : Respects refused (IsUnder limit limit') (requestJump v) :=
    respects_modify (fun _ => rfl) fun _ _ => rfl
  have htest : Respects refused (OperandStack.IsUnder limit limit') test.isTaken := by
    cases test with
    | always => exact .pure true
    | onTrue => exact OperandStack.respects_pop.bind fun _ => .pure _
    | onFalse => exact OperandStack.respects_pop.bind fun _ => .pure _
  refine (respects_onStack htest).bind fun taken => respects_pop.bind fun offset =>
    .ite (.ite (hrequest offset) ?_) (.pure ())
  cases site.target? offset.toInt.toNat with
  | some target => exact hrequest _
  | none => exact .throw _

section

variable (hlooser : IsLooser limit limit')
  (hrefused : limit = limit' ∨ refused .stackOverflow)

include hlooser hrefused

theorem respects_onPush (v : Value) :
    Respects refused (IsUnder limit limit') (onStack (OperandStack.push v)) :=
  respects_onStack (OperandStack.respects_push hlooser hrefused v)

theorem respects_loadStorage : Respects refused (IsUnder limit limit') loadStorage := by
  refine respects_popLocation.bind fun location => .get_bind ?_ fun w =>
    (Respects.attempt _).bind fun v => respects_onPush hlooser hrefused v
  rintro w _ ⟨rfl, rfl⟩
  rfl

theorem respects_loadCvt : Respects refused (IsUnder limit limit') loadCvt := by
  refine respects_popLocation.bind fun location => .get_bind ?_ fun w =>
    (Respects.attempt _).bind fun v => respects_onPush hlooser hrefused v
  rintro w _ ⟨rfl, rfl⟩
  rfl

/-- Every operation does under a looser stack limit what it does under a tighter one, unless
the tighter one refused it. -/
theorem respects_execute (site : Site) (ins : Instruction) (op : Operation) :
    Respects refused (IsUnder limit limit') (op.execute site ins) := by
  cases op with
  | pushOperands => exact respects_onStack (OperandStack.respects_pushAll hlooser hrefused _)
  | dup => exact respects_onStack (OperandStack.respects_dup hlooser hrefused)
  | pop => exact respects_popMany 1
  | clear => exact respects_onStack OperandStack.respects_clear
  | swap => exact respects_onStack OperandStack.respects_swap
  | depth => exact respects_onStack (OperandStack.respects_pushDepth hlooser hrefused)
  | copyIndexed => exact respects_onStack OperandStack.respects_copyIndexed
  | moveIndexed => exact respects_onStack OperandStack.respects_moveIndexed
  | roll => exact respects_onStack OperandStack.respects_roll
  | unary op =>
      refine .get_bind ?_ fun w =>
        respects_onStack (OperandStack.respects_applyUnary hlooser hrefused _)
      rintro w _ ⟨rfl, rfl⟩
      rfl
  | binary op => exact respects_onStack (OperandStack.respects_applyBinary hlooser hrefused _)
  | readStorage => exact respects_loadStorage hlooser hrefused
  | writeStorage => exact respects_storeStorage
  | readCvt => exact respects_loadCvt hlooser hrefused
  | writeCvtPixels => exact respects_storeCvt _
  | writeCvtUnits => exact respects_storeCvt _
  | setRoundMode mode => exact respects_setRoundMode mode
  | configureRound mode gridPeriod => exact respects_configureRound mode gridPeriod
  | setLoop => exact respects_setLoop
  | jump test => exact respects_jump site test
  | pixelsPerEm => exact respects_onPush hlooser hrefused _
  | pointSize => exact respects_onPush hlooser hrefused _
  | getInfo => exact respects_onStack (OperandStack.respects_applyUnary hlooser hrefused _)
  | getVariation => exact respects_onStack (OperandStack.respects_pushTimes hlooser hrefused _ _)
  | getData => exact respects_onPush hlooser hrefused _
  | debug => exact respects_popMany 1
  | pushAxis =>
      exact respects_onStack ((OperandStack.respects_push hlooser hrefused _).bind fun _ =>
        OperandStack.respects_push hlooser hrefused _)
  | discardPairs => exact respects_onStack OperandStack.respects_discardPairs
  | discardPoints pops => exact (respects_popMany pops).bind fun _ => respects_discardPoints
  | neutral pops pushes =>
      exact respects_onStack ((OperandStack.respects_popMany pops).bind fun _ =>
        OperandStack.respects_pushTimes hlooser hrefused _ _)

end

/-- No operation changes the limit of the stack. -/
theorem limit_execute (site : Site) (ins : Instruction) (op : Operation) (w : Workspace) :
    (finalState (op.execute site ins w)).stack.limit = w.stack.limit := by
  have hrespects : Respects (fun _ => False) (IsUnder w.stack.limit w.stack.limit)
      (op.execute site ins) := respects_execute (.refl _) (.inl rfl) site ins op
  have hagree := hrespects w w ⟨rfl, rfl⟩
  generalize op.execute site ins w = result at hagree
  cases hagree with
  | ok a h => exact h.limit
  | error fault h => exact h.limit
  | refused h => exact h.elim

end Workspace

end GridFit
