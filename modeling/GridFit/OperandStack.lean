import GridFit.Fault

/-!
# The operand stack

A stack of values with an optional limit on its depth. Every operation either
succeeds or reports a fault and says what is then left on the stack: values that
were popped before the fault stay popped.

## Implementation notes

Values are kept top first. The depth is stored beside them, so that the limit is
checked in constant time however deep the stack is.
-/

namespace GridFit

/-- An operand stack. -/
structure OperandStack where
  /-- The values, top first. -/
  values : List Value
  /-- The greatest depth allowed, if there is one. -/
  limit : Option Nat
  /-- The number of values. -/
  depth : Nat := values.length
  /-- The stored depth is the actual one. -/
  depth_eq : depth = values.length := by rfl
deriving DecidableEq, Repr

/-- An operation on the operand stack that may fail. -/
abbrev StackM := EStateM Fault OperandStack

namespace OperandStack

/-- Stacks with the same values and the same limit are equal. -/
@[ext] theorem ext {s t : OperandStack} (hv : s.values = t.values) (hl : s.limit = t.limit) :
    s = t := by
  obtain ⟨sv, sl, sd, hs⟩ := s
  obtain ⟨tv, tl, td, ht⟩ := t
  simp only at hv hl hs ht
  subst hv hl hs ht
  rfl

/-- The empty stack with the given limit. -/
def empty (limit : Option Nat) : OperandStack :=
  { values := [], limit }

/-- The values, bottom first. -/
def toList (s : OperandStack) : List Value :=
  s.values.reverse

/-- The stack with one more value on top, whatever the limit. -/
def cons (v : Value) (s : OperandStack) : OperandStack :=
  { s with
    values := v :: s.values
    depth := s.depth + 1
    depth_eq := by simp [s.depth_eq] }

/-- The stack without its topmost `n` values. -/
def drop (n : Nat) (s : OperandStack) : OperandStack :=
  { s with
    values := s.values.drop n
    depth := s.depth - n
    depth_eq := by simp [s.depth_eq] }

/-- The stack with further values on top, the last of them topmost, whatever the
limit. -/
def append (s : OperandStack) (vs : List Value) : OperandStack :=
  { s with
    values := vs.reverseAux s.values
    depth := s.depth + vs.length
    depth_eq := by simp [s.depth_eq, List.reverseAux_eq, Nat.add_comm] }

/-- The stack with the value at distance `i` below the top moved to the top. -/
def raise (i : Nat) (s : OperandStack) : OperandStack :=
  if h : i < s.depth then
    have hi : i < s.values.length := s.depth_eq ▸ h
    { s with
      values := s.values[i] :: s.values.eraseIdx i
      depth_eq := by
        rw [s.depth_eq, List.length_cons, List.length_eraseIdx_of_lt hi]
        omega }
  else s

/-- Whether `n` more values fit under the limit. -/
def hasRoom (s : OperandStack) (n : Nat) : Bool :=
  match s.limit with
  | none => true
  | some max => s.depth + n ≤ max

/-- The topmost value. -/
def top? (s : OperandStack) : Option Value :=
  s.values.head?

/-- Pushes a value if there is room for it. -/
def push (v : Value) : StackM Unit := fun s =>
  if s.hasRoom 1 then .ok () (s.cons v) else .error .stackOverflow s

/-- Pushes values in their order if there is room for all of them. -/
def pushAll (vs : List Value) : StackM Unit := fun s =>
  if s.hasRoom vs.length then .ok () (s.append vs) else .error .stackOverflow s

/-- Pushes a value `n` times, one after the other. -/
def pushTimes (v : Value) : Nat → StackM Unit
  | 0 => return ()
  | n + 1 => do
      push v
      pushTimes v n

/-- Pops the topmost value. -/
def pop : StackM Value := fun s =>
  match s.top? with
  | some v => .ok v (s.drop 1)
  | none => .error .stackUnderflow s

/-- Pops a value that names a location. -/
def popLocation : StackM Nat := do
  return (← pop).location

/-- Discards `n` values if there are so many. -/
def popMany (n : Nat) : StackM Unit := fun s =>
  if n ≤ s.depth then .ok () (s.drop n) else .error .stackUnderflow s

/-- Discards a count and twice as many further values. -/
def discardPairs : StackM Unit := do
  let n ← popLocation
  popMany (2 * n)

/-- Replaces the topmost value by its image. -/
def applyUnary (f : Value → Except Fault Value) : StackM Unit := do
  let a ← pop
  push (← attempt (f a))

/-- Replaces the two topmost values by their image. The topmost one is the second
argument. -/
def applyBinary (f : Value → Value → Except Fault Value) : StackM Unit := do
  let b ← pop
  let a ← pop
  push (← attempt (f a b))

/-- Discards all values. -/
def clear : StackM Unit := fun s =>
  .ok () { s with values := [], depth := 0, depth_eq := rfl }

/-- Duplicates the topmost value. -/
def dup : StackM Unit := fun s =>
  match s.top? with
  | some v => push v s
  | none => .error .stackUnderflow s

/-- Exchanges the two topmost values. -/
def swap : StackM Unit := fun s =>
  match s.values with
  | b :: a :: _ => .ok () (((s.drop 2).cons b).cons a)
  | _ => .error .stackUnderflow s

/-- Replaces the topmost value, a position counted from one below it, by a copy
of the value at that position. -/
def copyIndexed : StackM Unit := fun s =>
  match s.values with
  | k :: rest =>
      match k.location with
      | 0 => .error .stackUnderflow s
      | i + 1 =>
          match rest[i]? with
          | some v => .ok () ((s.drop 1).cons v)
          | none => .error .stackUnderflow s
  | [] => .error .stackUnderflow s

/-- Pops a position counted from one at the new top, and moves the value at that
position to the top. -/
def moveIndexed : StackM Unit := do
  let position ← popLocation
  fun s =>
    match position with
    | 0 => .error .stackUnderflow s
    | i + 1 => if i < s.depth then .ok () (s.raise i) else .error .stackUnderflow s

/-- Moves the third value from the top to the top. -/
def roll : StackM Unit := fun s =>
  match s.values with
  | c :: b :: a :: _ => .ok () ((((s.drop 3).cons b).cons c).cons a)
  | _ => .error .stackUnderflow s

end OperandStack

end GridFit
