import GridFit.Proofs.Operation.Room
import GridFit.Proofs.Operation.StackEffect
import Mathlib.Data.List.Perm.Basic

/-!
# Indexed access

Two instructions take a position that counts from one at the top of what is below it. One copies the
value there into the place of the position, and the other drops the position and moves the value
to the top. A stack that has a value at the position is that value between what is below it and what
is above it, and the number of values above it is one less than the position. So the exchange of two
values and the rolling of three are moves from fixed positions, and duplicating is a copy from
a fixed one. Several values of which the lowest one is moved again and again change places in
a circle.
-/

namespace GridFit

variable {w : Workspace} {s below above : List Value} {x k v : Value} {limit : Option Nat} {n : Nat}

/-! ## Positions -/

/-- A position among the values below it has a value, with one value less above it. -/
theorem SelectsBelow.exists_split (h : SelectsBelow (k :: s)) :
    ∃ below x above, s = below ++ x :: above ∧ k.toInt = above.length + 1 := by
  obtain ⟨hlow, hhigh⟩ := h
  have hlt : s.length - k.toInt.toNat < s.length := by omega
  refine ⟨s.take (s.length - k.toInt.toNat), s[s.length - k.toInt.toNat],
    s.drop (s.length - k.toInt.toNat + 1), ?_, ?_⟩
  · rw [List.getElem_cons_drop, List.take_append_drop]
  · rw [List.length_drop]
    omega

/-- Zero, a negative position and one beyond the lowest value name no location among the values, as
many as there can be. -/
theorem location_of_not_selectsBelow (h : ¬SelectsBelow (k :: s))
    (hs : s.length ≤ addressableCells) : k.location = 0 ∨ s.length < k.location := by
  by_cases hneg : k.toInt < 0
  · have hlarge := Value.lt_location_of_neg hneg
    exact .inr (Nat.lt_of_le_of_lt hs hlarge)
  · have hlocation := Value.location_of_nonneg (Int.not_lt.1 hneg)
    by_contra hnone
    exact h ⟨by omega, by omega⟩

theorem location_of_eq_succ (h : k.toInt = n + 1) : k.location = n + 1 := by
  rw [Value.location_of_nonneg (by omega), h]
  rfl

/-! ## Stacks from the bottom -/

namespace OperandStack

/-- The stack with the given values, bottom first. -/
def ofList (limit : Option Nat) (s : List Value) : OperandStack :=
  { values := s.reverse, limit }

@[simp] theorem values_ofList (limit : Option Nat) (s : List Value) :
    (ofList limit s).values = s.reverse := rfl

@[simp] theorem depth_ofList (limit : Option Nat) (s : List Value) :
    (ofList limit s).depth = s.length := by
  rw [depth_eq, values_ofList, List.length_reverse]

theorem ofList_append_singleton (limit : Option Nat) (s : List Value) (v : Value) :
    ofList limit (s ++ [v]) = (ofList limit s).cons v :=
  OperandStack.ext List.reverse_concat rfl

theorem drop_one_ofList (limit : Option Nat) (s : List Value) (v : Value) :
    (ofList limit (s ++ [v])).drop 1 = ofList limit s := by
  rw [ofList_append_singleton]
  exact OperandStack.ext rfl rfl

theorem popLocation_ofList (limit : Option Nat) (s : List Value) (k : Value) :
    popLocation (ofList limit (s ++ [k])) = .ok k.location (ofList limit s) := by
  rw [popLocation_cons (List.reverse_concat), drop_one_ofList]

theorem lt_depth_ofList (limit : Option Nat) (below above : List Value) (x : Value) :
    above.length < (ofList limit (below ++ x :: above)).depth := by
  rw [depth_ofList, List.length_append, List.length_cons]
  omega

theorem raise_ofList (limit : Option Nat) (below above : List Value) (x : Value) :
    (ofList limit (below ++ x :: above)).raise above.length =
      ofList limit (below ++ above ++ [x]) := by
  unfold raise
  rw [dif_pos (lt_depth_ofList limit below above x)]
  apply OperandStack.ext
  · simp [List.eraseIdx_append_of_length_le]
  · rfl

/-- The value at the position takes the place of the position. -/
theorem copyIndexed_ofList (hk : k.location = above.length + 1) :
    copyIndexed (ofList limit (below ++ x :: above ++ [k])) =
      .ok () (ofList limit (below ++ x :: above ++ [x])) := by
  have hvalues : (ofList limit (below ++ x :: above ++ [k])).values =
      k :: (below ++ x :: above).reverse := List.reverse_concat
  have hx : (below ++ x :: above).reverse[above.length]? = some x := by simp
  simp only [copyIndexed, hvalues, hk, hx, drop_one_ofList, ← ofList_append_singleton]

/-- The position is gone, and the value there is on top. -/
theorem moveIndexed_ofList (hk : k.location = above.length + 1) :
    moveIndexed (ofList limit (below ++ x :: above ++ [k])) =
      .ok () (ofList limit (below ++ above ++ [x])) := by
  have hlt := lt_depth_ofList limit below above x
  rw [show moveIndexed _ = _ from bind_apply popLocation _ _, popLocation_ofList]
  simp only [hk, if_pos hlt, raise_ofList]

/-- A copy that fails leaves its position on the stack. -/
theorem copyIndexed_ofList_error (hk : k.location = 0 ∨ s.length < k.location) :
    copyIndexed (ofList limit (s ++ [k])) =
      .error .stackUnderflow (ofList limit (s ++ [k])) := by
  have hvalues : (ofList limit (s ++ [k])).values = k :: s.reverse := List.reverse_concat
  simp only [copyIndexed, hvalues]
  cases hlocation : k.location with
  | zero => rfl
  | succ i =>
      have hnone : s.reverse[i]? = none := List.getElem?_eq_none (by simp; omega)
      simp only [hnone]

/-- A move that fails has dropped its position. -/
theorem moveIndexed_ofList_error (hk : k.location = 0 ∨ s.length < k.location) :
    moveIndexed (ofList limit (s ++ [k])) = .error .stackUnderflow (ofList limit s) := by
  rw [show moveIndexed _ = _ from bind_apply popLocation _ _, popLocation_ofList]
  cases hlocation : k.location with
  | zero => rfl
  | succ i =>
      have hge : ¬i < (ofList limit s).depth := by
        rw [depth_ofList]
        omega
      simp only [if_neg hge]

theorem hasRoom_ofList_congr {t : List Value} (h : s.length = t.length) :
    (ofList limit s).hasRoom n = (ofList limit t).hasRoom n := by
  simp only [hasRoom, depth_ofList, h]
  rfl

theorem push_ofList (hroom : (ofList limit s).hasRoom 1 = true) (v : Value) :
    push v (ofList limit s) = .ok () (ofList limit (s ++ [v])) := by
  rw [push, if_pos hroom, ofList_append_singleton]

theorem dup_ofList (hroom : (ofList limit (s ++ [v])).hasRoom 1 = true) :
    dup (ofList limit (s ++ [v])) = .ok () (ofList limit (s ++ [v] ++ [v])) := by
  have htop : (ofList limit (s ++ [v])).top? = some v := by simp [top?]
  simp only [dup, htop, push_ofList hroom]

/-- What moves the value at a fixed position to the top if the stack is deep enough, and otherwise
leaves the stack as it is. -/
structure MovesFrom (position : Nat) (x : StackM Unit) : Prop where
  moves : ∀ (limit : Option Nat) (below : List Value) (a : Value) (above : List Value),
    above.length + 1 = position →
      x (ofList limit (below ++ a :: above)) = .ok () (ofList limit (below ++ above ++ [a]))
  misses : ∀ (limit : Option Nat) (s : List Value), s.length < position →
    x (ofList limit s) = .error .stackUnderflow (ofList limit s)

/-- Two values are exchanged by moving the lower one to the top. -/
theorem movesFrom_swap : MovesFrom 2 swap where
  moves limit below a above habove := by
    obtain ⟨b, rfl⟩ := List.length_eq_one_iff.1 (Nat.succ.inj habove)
    have hvalues : (ofList limit (below ++ [a, b])).values = b :: a :: below.reverse := by simp
    simp only [swap, hvalues, EStateM.Result.ok.injEq, true_and]
    apply OperandStack.ext
    · simp [cons, drop]
    · rfl
  misses limit s hs := by
    rcases s with _ | ⟨a, _ | ⟨b, rest⟩⟩
    · rfl
    · rfl
    · simp only [List.length_cons] at hs
      omega

/-- Three values are rolled by moving the lowest one to the top. -/
theorem movesFrom_roll : MovesFrom 3 roll where
  moves limit below a above habove := by
    obtain ⟨b, c, rfl⟩ := List.length_eq_two.1 (Nat.succ.inj habove)
    have hvalues : (ofList limit (below ++ [a, b, c])).values = c :: b :: a :: below.reverse := by
      simp
    simp only [roll, hvalues, EStateM.Result.ok.injEq, true_and]
    apply OperandStack.ext
    · simp [cons, drop]
    · rfl
  misses limit s hs := by
    rcases s with _ | ⟨a, _ | ⟨b, _ | ⟨c, rest⟩⟩⟩
    · rfl
    · rfl
    · rfl
    · simp only [List.length_cons] at hs
      omega

end OperandStack

open OperandStack

/-! ## Instructions -/

namespace Workspace

/-- The workspace with the given values on its stack, bottom first. -/
def holding (w : Workspace) (s : List Value) : Workspace :=
  { w with stack := .ofList w.stack.limit s }

theorem onStack_holding {x : StackM Unit} {s t : List Value}
    (h : x (ofList w.stack.limit s) = .ok () (ofList w.stack.limit t)) :
    onStack x (w.holding s) = .ok () (w.holding t) := by
  simp only [onStack, holding, h]

theorem onStack_holding_error {x : StackM Unit} {fault : Fault} {s t : List Value}
    (h : x (ofList w.stack.limit s) = .error fault (ofList w.stack.limit t)) :
    onStack x (w.holding s) = .error fault (w.holding t) := by
  simp only [onStack, holding, h]

end Workspace

open Workspace

namespace Instruction

variable {ins : Instruction} {lower upper : List Value}

theorem execute_move (hop : ins.opcode = .mindex) (site : Site)
    (hk : k.toInt = above.length + 1) :
    ins.execute site (w.holding (below ++ x :: above ++ [k])) =
      .ok () (w.holding (below ++ above ++ [x])) := by
  rw [execute, hop]
  exact onStack_holding (moveIndexed_ofList (location_of_eq_succ hk))

theorem execute_copy (hop : ins.opcode = .cindex) (site : Site)
    (hk : k.toInt = above.length + 1) :
    ins.execute site (w.holding (below ++ x :: above ++ [k])) =
      .ok () (w.holding (below ++ x :: above ++ [x])) := by
  rw [execute, hop]
  exact onStack_holding (copyIndexed_ofList (location_of_eq_succ hk))

theorem execute_move_error (hop : ins.opcode = .mindex) (site : Site)
    (hk : ¬SelectsBelow (k :: s)) (hs : s.length ≤ addressableCells) :
    ins.execute site (w.holding (s ++ [k])) = .error .stackUnderflow (w.holding s) := by
  rw [execute, hop]
  exact onStack_holding_error (moveIndexed_ofList_error (location_of_not_selectsBelow hk hs))

theorem execute_copy_error (hop : ins.opcode = .cindex) (site : Site)
    (hk : ¬SelectsBelow (k :: s)) (hs : s.length ≤ addressableCells) :
    ins.execute site (w.holding (s ++ [k])) =
      .error .stackUnderflow (w.holding (s ++ [k])) := by
  rw [execute, hop]
  exact onStack_holding_error (copyIndexed_ofList_error (location_of_not_selectsBelow hk hs))

/-- Pushes a position and executes an instruction, so many times. -/
def repeatedAt (ins : Instruction) (site : Site) (k : Value) : Nat → WorkM Unit
  | 0 => pure ()
  | n + 1 => do
      onStack (push k)
      ins.execute site
      repeatedAt ins site k n

/-- As many moves from the lowest of some values bring the lower ones to the top, in their order. -/
theorem repeatedAt_move (hop : ins.opcode = .mindex) (site : Site)
    (hk : k.toInt = (lower ++ upper).length)
    (hroom : (w.holding (below ++ (lower ++ upper))).stack.hasRoom 1 = true) :
    ins.repeatedAt site k lower.length (w.holding (below ++ (lower ++ upper))) =
      .ok () (w.holding (below ++ (upper ++ lower))) := by
  induction lower generalizing upper with
  | nil => simp [repeatedAt]
  | cons x lower ih =>
      have hpush : onStack (push k) (w.holding (below ++ (x :: lower ++ upper))) =
          .ok () (w.holding (below ++ x :: (lower ++ upper) ++ [k])) :=
        onStack_holding (push_ofList hroom k)
      have hmove : ins.execute site (w.holding (below ++ x :: (lower ++ upper) ++ [k])) =
          .ok () (w.holding (below ++ (lower ++ upper) ++ [x])) :=
        execute_move hop site (by simpa using hk)
      -- The value that has been moved is now the highest of those that keep their order.
      have hmoved : below ++ (lower ++ upper) ++ [x] = below ++ (lower ++ (upper ++ [x])) := by
        simp only [List.append_assoc]
      have hlength : (lower ++ (upper ++ [x])).length = (x :: lower ++ upper).length := by
        simp only [List.length_append, List.length_cons, List.length_nil]
        omega
      have hrest : ins.repeatedAt site k lower.length
          (w.holding (below ++ (lower ++ (upper ++ [x])))) =
            .ok () (w.holding (below ++ (upper ++ [x] ++ lower))) := by
        apply ih
        · rw [hk, hlength]
        · rw [← hroom]
          exact hasRoom_ofList_congr (by rw [List.length_append, hlength, ← List.length_append])
      rw [List.append_assoc upper] at hrest
      simp only [List.length_cons, repeatedAt, bind_apply, hpush, hmove, hmoved]
      exact hrest

/-- Values that have all been moved are in their order again. -/
theorem repeatedAt_move_restores (hop : ins.opcode = .mindex) (site : Site)
    (hk : 1 ≤ k.toInt ∧ k.toInt ≤ s.length) (hroom : (w.holding s).stack.hasRoom 1 = true) :
    ins.repeatedAt site k k.toInt.toNat (w.holding s) = .ok () (w.holding s) := by
  obtain ⟨below, lower, rfl, hlower⟩ : ∃ below lower, s = below ++ lower ∧
      (lower.length : Int) = k.toInt := by
    refine ⟨_, _, (List.take_append_drop (s.length - k.toInt.toNat) s).symm, ?_⟩
    rw [List.length_drop]
    omega
  have hall : ins.repeatedAt site k lower.length (w.holding (below ++ (lower ++ []))) =
      .ok () (w.holding (below ++ ([] ++ lower))) :=
    repeatedAt_move hop site (by rw [List.append_nil, hlower]) (by rwa [List.append_nil])
  rw [List.append_nil, List.nil_append] at hall
  rwa [← hlower, Int.toNat_natCast]

/-! ### Fixed positions -/

variable {copy move dup : Instruction}

theorem execute_move_one (hmove : move.opcode = .mindex) (site : Site) (hne : s ≠ []) :
    move.execute site (w.holding (s ++ [1])) = .ok () (w.holding s) := by
  obtain ⟨below, x, rfl⟩ := (List.eq_nil_or_concat' s).resolve_left hne
  have hexecute : move.execute site (w.holding (below ++ [x] ++ [1])) =
      .ok () (w.holding (below ++ [] ++ [x])) := execute_move hmove site rfl
  rwa [List.append_nil] at hexecute

theorem execute_copy_one (hcopy : copy.opcode = .cindex) (hdup : dup.opcode = .dup) (site : Site)
    (hne : s ≠ []) (hroom : (w.holding s).stack.hasRoom 1 = true) :
    copy.execute site (w.holding (s ++ [1])) = dup.execute site (w.holding s) := by
  obtain ⟨below, x, rfl⟩ := (List.eq_nil_or_concat' s).resolve_left hne
  calc copy.execute site (w.holding (below ++ [x] ++ [1]))
      = .ok () (w.holding (below ++ [x] ++ [x])) := execute_copy hcopy site rfl
    _ = onStack OperandStack.dup (w.holding (below ++ [x])) :=
        (onStack_holding (dup_ofList hroom)).symm
    _ = dup.execute site (w.holding (below ++ [x])) := by rw [execute, hdup]; rfl

/-- A move from a fixed position is what moves the value there, also if there is none. -/
theorem execute_move_eq {x : StackM Unit} (hx : MovesFrom n x) (hmove : move.opcode = .mindex)
    (site : Site) (hn : 0 < n) (hk : k.toInt = n) (hs : s.length ≤ addressableCells) :
    move.execute site (w.holding (s ++ [k])) = onStack x (w.holding s) := by
  by_cases hselects : SelectsBelow (k :: s)
  · obtain ⟨below, a, above, rfl, habove⟩ := hselects.exists_split
    rw [execute_move hmove site habove]
    exact (onStack_holding (hx.moves _ below a above (by omega))).symm
  · have hshort : s.length < n := by
      by_contra hlong
      exact hselects ⟨by omega, by omega⟩
    rw [execute_move_error hmove site hselects hs]
    exact (onStack_holding_error (hx.misses _ s hshort)).symm

end Instruction

/-- Positions are exact, and the instructions that use them agree with each other. A position from
one to the number of values below it has a value there. A move takes this value out and puts it on
top, so the values remain, in another order, and a copy puts another one of it on top. At all other
positions, zero and negative ones among them, both fail, but only the copy leaves its position.
So a move from the first position changes nothing, from the second one exchanges two values and
from the third one rolls three, and a copy from the first position duplicates. As many moves as the
position says, all of them from there, restore the values. -/
theorem indexed_access_exact (site : Site) (w : Workspace) (s : List Value) (k : Value)
    (hs : s.length ≤ addressableCells) (copy move : Instruction)
    (hcopy : copy.opcode = .cindex) (hmove : move.opcode = .mindex) :
    (1 ≤ k.toInt ∧ k.toInt ≤ s.length → ∃ below x above,
      s = below ++ x :: above ∧ k.toInt = above.length + 1 ∧
      move.execute site (w.holding (s ++ [k])) = .ok () (w.holding (below ++ above ++ [x])) ∧
      (below ++ above ++ [x]).Perm s ∧
      copy.execute site (w.holding (s ++ [k])) = .ok () (w.holding (s ++ [x]))) ∧
    (¬(1 ≤ k.toInt ∧ k.toInt ≤ s.length) →
      move.execute site (w.holding (s ++ [k])) = .error .stackUnderflow (w.holding s) ∧
      copy.execute site (w.holding (s ++ [k])) =
        .error .stackUnderflow (w.holding (s ++ [k]))) ∧
    (s ≠ [] → move.execute site (w.holding (s ++ [1])) = .ok () (w.holding s)) ∧
    (∀ swap : Instruction, swap.opcode = .swap →
      move.execute site (w.holding (s ++ [2])) = swap.execute site (w.holding s)) ∧
    (∀ roll : Instruction, roll.opcode = .roll →
      move.execute site (w.holding (s ++ [3])) = roll.execute site (w.holding s)) ∧
    ((w.holding s).stack.hasRoom 1 = true →
      (∀ dup : Instruction, dup.opcode = .dup → s ≠ [] →
        copy.execute site (w.holding (s ++ [1])) = dup.execute site (w.holding s)) ∧
      (1 ≤ k.toInt ∧ k.toInt ≤ s.length →
        move.repeatedAt site k k.toInt.toNat (w.holding s) = .ok () (w.holding s))) := by
  refine ⟨fun hk => ?_, fun hk => ?_, fun hne => ?_, fun swap hswap => ?_, fun roll hroll => ?_,
    fun hroom => ⟨fun dup hdup hne => ?_, fun hk => ?_⟩⟩
  · obtain ⟨below, x, above, rfl, hk'⟩ := SelectsBelow.exists_split hk
    refine ⟨below, x, above, rfl, hk', Instruction.execute_move hmove site hk', ?_,
      Instruction.execute_copy hcopy site hk'⟩
    calc (below ++ above ++ [x]).Perm (x :: (below ++ above)) := List.perm_append_singleton x _
      _ |>.Perm (below ++ x :: above) := List.perm_middle.symm
  · exact ⟨Instruction.execute_move_error hmove site hk hs,
      Instruction.execute_copy_error hcopy site hk hs⟩
  · exact Instruction.execute_move_one hmove site hne
  · have hexecute : swap.execute site = onStack OperandStack.swap := by
      rw [Instruction.execute, hswap]
      rfl
    rw [hexecute]
    exact Instruction.execute_move_eq movesFrom_swap hmove site Nat.two_pos rfl hs
  · have hexecute : roll.execute site = onStack OperandStack.roll := by
      rw [Instruction.execute, hroll]
      rfl
    rw [hexecute]
    exact Instruction.execute_move_eq movesFrom_roll hmove site (Nat.succ_pos 2) rfl hs
  · exact Instruction.execute_copy_one hcopy hdup site hne hroom
  · exact Instruction.repeatedAt_move_restores hmove site hk hroom

open Instruction in
/-- Of four values the third one from the top is moved, and three such moves restore the values. At
a negative position nothing is copied. -/
theorem indexed_access_exact_thirdOfFour :
    let w := bareWorkspace []
    (⟨.mindex, [], 0⟩ : Instruction).execute bareSite (w.holding [5, 6, 7, 8, 3]) =
        .ok () (w.holding [5, 7, 8, 6]) ∧
      (⟨.mindex, [], 0⟩ : Instruction).repeatedAt bareSite 3 3 (w.holding [5, 6, 7, 8]) =
        .ok () (w.holding [5, 6, 7, 8]) ∧
      (⟨.cindex, [], 0⟩ : Instruction).execute bareSite (w.holding [5, 6, -1]) =
        .error .stackUnderflow (w.holding [5, 6, -1]) := by
  obtain ⟨hselects, -, -, -, -, hrepeated⟩ :=
    indexed_access_exact bareSite (bareWorkspace []) [5, 6, 7, 8] 3 (by decide)
      ⟨.cindex, [], 0⟩ ⟨.mindex, [], 0⟩ rfl rfl
  obtain ⟨-, hmisses, -⟩ :=
    indexed_access_exact bareSite (bareWorkspace []) [5, 6] (-1) (by decide)
      ⟨.cindex, [], 0⟩ ⟨.mindex, [], 0⟩ rfl rfl
  obtain ⟨below, x, above, hsplit, habove, hmove, -, -⟩ := hselects (by decide)
  have hthree : (3 : Value).toInt = 3 := rfl
  have hlength : 3 = (x :: above).length := by
    rw [List.length_cons]
    omega
  have hsplit' : [5] ++ [6, 7, 8] = below ++ x :: above := hsplit
  obtain ⟨rfl, hrest⟩ := List.append_inj' hsplit' hlength
  obtain ⟨rfl, rfl⟩ := List.cons.inj hrest
  exact ⟨hmove, (hrepeated rfl).2 (by decide), (hmisses (by decide)).2⟩

end GridFit
