import GridFit.Proofs.Run.Step
import Mathlib.Algebra.Order.Ring.Int
import Mathlib.Data.List.Lex

/-!
# Addresses

The address of a run says how far it has come: where each call under way was made and how
many of its replays are still to begin, from the outermost call to the innermost one, and
then the current index. Every step leads to a greater address in the lexicographic order.
So a sequence is only ever driven forward, and no place of it has its turn twice before it
is driven anew.

## Implementation notes

While a sequence is driven, no other calls are under way whenever one of its own
instructions has its turn. A replay that begins later has fewer replays to follow, or was
asked for by a call that stands further on. So moments at which the same calls are under
way belong to the same drive of a sequence.
-/

namespace GridFit

/-- A position in the program without calls under way, and else in the body of the innermost
call, which was made from such a position. -/
inductive Seated (program : Array Instruction) : Position → List OpenCall → Prop
  | program {p} (hsequence : p.sequence = program) : Seated program p []
  | body {p c calls} (hsequence : p.sequence = c.body)
      (hcaller : Seated program c.caller calls) : Seated program p (c :: calls)

namespace Seated

variable {program : Array Instruction} {p q : Position} {calls : List OpenCall}

/-- Moving on in a sequence does not change what it belongs to. -/
theorem move (h : Seated program p calls) (index : Nat) :
    Seated program { p with index := index } calls := by
  cases h with
  | program hsequence => exact .program hsequence
  | body hsequence hcaller => exact .body hsequence hcaller

/-- The calls under way tell the sequence. -/
theorem sequence_eq_sequence (hp : Seated program p calls) (hq : Seated program q calls) :
    q.sequence = p.sequence := by
  cases hp with
  | program hsequence =>
      cases hq with
      | program hsequence' => rw [hsequence, hsequence']
  | body hsequence hcaller =>
      cases hq with
      | body hsequence' hcaller' => rw [hsequence, hsequence']

/-- A step stays in the program and in the bodies of the calls. -/
theorem step {r next : Run} (h : Seated program r.position r.calls)
    (hstep : r.step = .running next) : Seated program next.position next.calls := by
  have hform := r.stepped
  rw [hstep] at hform
  cases hform with
  | advanced hins hbudget hdispatch hreplay => exact h.move _
  | entered hins hbudget hdispatch hreplay => exact .body rfl h
  | returned hend hcalls hremaining =>
      rw [hcalls] at h
      cases h with
      | body hsequence hcaller => exact hcaller.move _
  | replayed hend hcalls hremaining hbudget =>
      rw [hcalls] at h
      cases h with
      | body hsequence hcaller => exact .body rfl hcaller

/-- Runs of a program are in it, or in the bodies that it calls. -/
theorem of_reaches {m : Machine} {budget : Nat} {r : Run}
    (hr : (Run.start m budget program).Reaches r) : Seated program r.position r.calls := by
  induction hr with
  | refl => exact .program rfl
  | tail _ hstep ih => exact ih.step hstep

end Seated

namespace Run

/-- The part of an address that the calls under way make up. A replay that has not begun
counts against it. -/
def addressOf : List OpenCall → List Int
  | [] => []
  | c :: calls => addressOf calls ++ [(c.caller.index : Int), -(c.remaining : Int)]

/-- The address of a run. -/
def address (r : Run) : List Int :=
  addressOf r.calls ++ [(r.position.index : Int)]

variable {r s t : Run}

/-- Every step leads to a greater address. -/
theorem address_lt_of_running (hstep : r.step = .running s) : r.address < s.address := by
  have hform := r.stepped
  rw [hstep] at hform
  unfold address
  cases hform with
  | advanced hins hbudget hdispatch hreplay =>
      exact List.Lex.append_left _ (.rel (Int.ofNat_lt.2 (lt_nextIndex _ _))) _
  | entered hins hbudget hdispatch hreplay =>
      -- The address of the call is continued by what its replays add to it.
      simp only [openCall, carriedOut, charged, addressOf, List.append_assoc]
      exact List.Lex.append_left _ (.cons .nil) _
  | @returned c calls hend hcalls hremaining =>
      simp only [hcalls, advance, addressOf, List.append_assoc]
      exact List.Lex.append_left _ (.rel (Int.ofNat_lt.2 (lt_nextIndex _ _))) _
  | @replayed c calls n budget hend hcalls hremaining hbudget =>
      simp only [hcalls, hremaining, addressOf, List.append_assoc]
      refine List.Lex.append_left _ (.cons (.rel ?_)) _
      omega

/-- No run gets back to a smaller address. -/
theorem Reaches.address_le (h : r.Reaches s) : r.address ≤ s.address := by
  induction h with
  | refl => exact le_rfl
  | tail _ hstep ih => exact ih.trans (address_lt_of_running hstep).le

/-- As long as the same calls are under way, the current index grows. -/
theorem index_lt_of_calls_eq (hstep : r.step = .running s) (hreaches : s.Reaches t)
    (hcalls : t.calls = r.calls) : r.position.index < t.position.index := by
  have hlt : r.address < t.address :=
    (address_lt_of_running hstep).trans_le hreaches.address_le
  unfold address at hlt
  rw [hcalls] at hlt
  by_contra hle
  rcases Nat.eq_or_lt_of_le (Nat.le_of_not_lt hle) with heq | hgt
  · rw [heq] at hlt
    exact lt_irrefl _ hlt
  · have hback : addressOf r.calls ++ [(t.position.index : Int)] <
        addressOf r.calls ++ [(r.position.index : Int)] :=
      List.Lex.append_left _ (.rel (Int.ofNat_lt.2 hgt)) _
    exact lt_asymm hlt hback

end Run

end GridFit
