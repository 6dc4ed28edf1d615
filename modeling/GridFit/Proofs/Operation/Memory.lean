import GridFit.Proofs.Operation.Parts

/-!
# Access to the memories

Both memories are accessed in the same way. Reading pops a location and pushes the value that
is there, and writing pops a value and a location. An operation that writes changes one
location, and one that fails changes none.
-/

namespace GridFit

/-- The memory from which an opcode reads. -/
def Opcode.read? : Opcode → Option Area
  | rs => some .storage
  | rcvt => some .cvt
  | _ => none

/-- The memory to which an opcode writes, and what it makes of the value before. Control
values in font units are multiplied by the scale. -/
def Opcode.write? (scale : Value) : Opcode → Option (Area × (Value → Value))
  | ws => some (.storage, id)
  | wcvtp => some (.cvt, id)
  | wcvtf => some (.cvt, fun v => Fixed.mul v scale)
  | _ => none

/-- The value that an opcode writes to a location of a memory with the given operands, topmost
first, if it writes there. -/
def Opcode.written? (scale : Value) (op : Opcode) (operands : List Value) (area : Area)
    (location : Nat) : Option Value :=
  match op.write? scale, operands with
  | some (target, f), v :: l :: _ =>
      if target = area ∧ l.location = location then some (f v) else none
  | _, _ => none

namespace Cells

variable {area : Area} {c : Cells area} {location : Nat}

/-- Writing changes the value at one location. -/
theorem getElem?_set {i : Nat} (h : location < c.values.size) (v : Value) :
    (c.values.set location v h)[i]? =
      c.values[i]?.map fun old => if location = i then v else old := by
  rw [Array.getElem?_set]
  split
  · next heq =>
      subst heq
      rw [Array.getElem?_eq_getElem h, Option.map_some]
  · rw [Option.map_id']

end Cells

namespace Workspace

variable {w : Workspace} {v l : Value} {rest : List Value}

theorem cells_withCells (w : Workspace) (area : Area) (c : Cells area) :
    (w.withCells area c).cells area = c := by
  cases area <;> rfl

theorem cells_popped (w : Workspace) (n : Nat) (area : Area) :
    (w.popped n).cells area = w.cells area := by
  cases area <;> rfl

theorem onStack_popLocation_cons (h : w.stack.values = l :: rest) :
    onStack OperandStack.popLocation w = .ok l.location (w.popped 1) := by
  simp [onStack, OperandStack.popLocation, bind_apply, OperandStack.pop, OperandStack.top?, h,
    popped]

theorem storeStorage_cons (h : w.stack.values = v :: l :: rest) :
    storeStorage w = onStorage (Cells.put l.location v) (w.popped 2) := by
  have hnext : (w.popped 1).stack.values = l :: rest := by simp [h]
  simp only [storeStorage, bind_apply, onStack_pop_cons h, onStack_popLocation_cons hnext,
    popped_popped]

theorem storeCvt_cons (f : Value → Value) (h : w.stack.values = v :: l :: rest) :
    storeCvt f w = onCvt (Cells.put l.location (f v)) (w.popped 2) := by
  have hnext : (w.popped 1).stack.values = l :: rest := by simp [h]
  simp only [storeCvt, bind_apply, onStack_pop_cons h, onStack_popLocation_cons hnext,
    popped_popped]

theorem loadStorage_cons (h : w.stack.values = l :: rest) :
    loadStorage w = match w.storage.get l.location with
      | .ok v => onStack (OperandStack.push v) (w.popped 1)
      | .error fault => .error fault (w.popped 1) := by
  have hstorage : (w.popped 1).storage = w.storage := rfl
  simp only [loadStorage, bind_apply, onStack_popLocation_cons h, get_apply, hstorage]
  cases w.storage.get l.location <;> rfl

theorem loadCvt_cons (h : w.stack.values = l :: rest) :
    loadCvt w = match w.cvt.get l.location with
      | .ok v => onStack (OperandStack.push v) (w.popped 1)
      | .error fault => .error fault (w.popped 1) := by
  have hcvt : (w.popped 1).cvt = w.cvt := rfl
  simp only [loadCvt, bind_apply, onStack_popLocation_cons h, get_apply, hcvt]
  cases w.cvt.get l.location <;> rfl

/-- Putting a value into a memory of a workspace. -/
theorem onStorage_put (location : Nat) (v : Value) : onStorage (Cells.put location v) w =
    if h : location < w.storage.values.size then
      .ok () (w.withCells .storage ⟨w.storage.values.set location v h⟩)
    else .error (.outOfBounds .storage location) w := by
  simp only [onStorage, Cells.put]
  by_cases h : location < w.storage.values.size
  · simp only [dif_pos h]
    rfl
  · simp only [dif_neg h]

theorem onCvt_put (location : Nat) (v : Value) : onCvt (Cells.put location v) w =
    if h : location < w.cvt.values.size then
      .ok () (w.withCells .cvt ⟨w.cvt.values.set location v h⟩)
    else .error (.outOfBounds .cvt location) w := by
  simp only [onCvt, Cells.put]
  by_cases h : location < w.cvt.values.size
  · simp only [dif_pos h]
    rfl
  · simp only [dif_neg h]

/-- What pops two values and then goes on fails for want of them. -/
theorem popTwo_short {α : Type} {f : Value → Nat → WorkM α} (h : w.stack.values.length < 2) :
    ∃ n, (onStack OperandStack.pop >>= fun v => onStack OperandStack.popLocation >>= f v) w =
      .error .stackUnderflow (w.popped n) := by
  have hnone : w.popped 0 = w := by simp [popped, OperandStack.drop]
  have hpop {w : Workspace} (h : w.stack.values = []) :
      onStack OperandStack.pop w = .error .stackUnderflow w := by
    simp [onStack, OperandStack.pop, OperandStack.top?, h]
  have hpopLocation {w : Workspace} (h : w.stack.values = []) :
      onStack OperandStack.popLocation w = .error .stackUnderflow w := by
    simp [onStack, OperandStack.popLocation, bind_apply, OperandStack.pop, OperandStack.top?, h]
  rcases hvalues : w.stack.values with _ | ⟨v, _ | ⟨l, rest⟩⟩
  · exact ⟨0, by rw [bind_apply, hpop hvalues, hnone]⟩
  · have hnext : (w.popped 1).stack.values = [] := by simp [hvalues]
    exact ⟨1, by simp only [bind_apply, onStack_pop_cons hvalues, hpopLocation hnext]⟩
  · rw [hvalues, List.length_cons, List.length_cons] at h
    omega

/-- There are two operands, or they are short. -/
theorem two_operands_or_short (w : Workspace) :
    (∃ v l rest, w.stack.values = v :: l :: rest) ∨ w.stack.values.length < 2 := by
  rcases w.stack.values with _ | ⟨v, _ | ⟨l, rest⟩⟩
  · exact .inr Nat.two_pos
  · exact .inr Nat.one_lt_two
  · exact .inl ⟨v, l, rest, rfl⟩

end Workspace

namespace Instruction

variable {ins : Instruction} {site : Site} {w : Workspace} {area : Area} {v l : Value}
  {rest : List Value}

/-- Reading from a memory pops a location and pushes the value that is there. -/
theorem execute_of_read? (hread : ins.opcode.read? = some area)
    (hvalues : w.stack.values = l :: rest) :
    ins.execute site w = match (w.cells area).get l.location with
      | .ok v => Workspace.onStack (OperandStack.push v) (w.popped 1)
      | .error fault => .error fault (w.popped 1) := by
  unfold Opcode.read? at hread
  split at hread
  · next hop =>
      cases hread
      rw [execute, hop]
      exact Workspace.loadStorage_cons hvalues
  · next hop =>
      cases hread
      rw [execute, hop]
      exact Workspace.loadCvt_cons hvalues
  · cases hread

/-- Writing to a memory pops a value and a location, and changes the memory if it has this
location. -/
theorem execute_of_write? {f : Value → Value}
    (hwrite : ins.opcode.write? site.font.scale = some (area, f))
    (hvalues : w.stack.values = v :: l :: rest) :
    ins.execute site w =
      if h : l.location < (w.cells area).values.size then
        .ok () ((w.popped 2).withCells area ⟨(w.cells area).values.set l.location (f v) h⟩)
      else .error (.outOfBounds area l.location) (w.popped 2) := by
  unfold Opcode.write? at hwrite
  split at hwrite
  · next hop =>
      cases hwrite
      rw [execute, hop]
      exact (Workspace.storeStorage_cons hvalues).trans (Workspace.onStorage_put ..)
  · next hop =>
      cases hwrite
      rw [execute, hop]
      exact (Workspace.storeCvt_cons id hvalues).trans (Workspace.onCvt_put ..)
  · next hop =>
      cases hwrite
      rw [execute, hop]
      exact (Workspace.storeCvt_cons _ hvalues).trans (Workspace.onCvt_put ..)
  · cases hwrite

/-- Without two operands nothing is written. -/
theorem execute_of_write?_short {f : Value → Value}
    (hwrite : ins.opcode.write? site.font.scale = some (area, f))
    (hvalues : w.stack.values.length < 2) :
    ∃ n, ins.execute site w = .error .stackUnderflow (w.popped n) := by
  unfold Opcode.write? at hwrite
  split at hwrite
  · next hop =>
      rw [execute, hop]
      exact Workspace.popTwo_short hvalues
  · next hop =>
      rw [execute, hop]
      exact Workspace.popTwo_short hvalues
  · next hop =>
      rw [execute, hop]
      exact Workspace.popTwo_short hvalues
  · cases hwrite

/-- What writes to no memory is not there to change one. -/
theorem target?_ne_of_write? (scale : Value) (area : Area)
    (hwrite : ∀ f, ins.opcode.write? scale ≠ some (area, f)) :
    ins.opcode.operation.target? ≠ some (.memory area) := by
  intro htarget
  have hchanged := Opcode.isChangedBy_of_target htarget
  cases area with
  | storage =>
      have hop : ins.opcode = .ws := hchanged
      exact hwrite id (by rw [hop]; rfl)
  | cvt =>
      rcases hchanged with hop | hop
      · exact hwrite id (by rw [hop]; rfl)
      · exact hwrite (fun v => Fixed.mul v scale) (by rw [hop]; rfl)

/-- After an instruction that succeeds, a location of a memory holds what the instruction wrote
there, or else what it held before. -/
theorem getElem?_cells_of_execute_ok {w' : Workspace} (hrun : ins.execute site w = .ok () w')
    (area : Area) (location : Nat) :
    (w'.cells area).values[location]? = (w.cells area).values[location]?.map fun old =>
      (ins.opcode.written? site.font.scale w.stack.values area location).getD old := by
  by_cases hwrite : ∃ f, ins.opcode.write? site.font.scale = some (area, f)
  · obtain ⟨f, hwrite⟩ := hwrite
    rcases w.two_operands_or_short with ⟨v, l, rest, hvalues⟩ | hshort
    · rw [execute_of_write? hwrite hvalues] at hrun
      split at hrun
      · next hlocation =>
          cases hrun
          rw [Workspace.cells_withCells, Cells.getElem?_set hlocation]
          congr 1
          funext old
          simp only [Opcode.written?, hwrite, hvalues, true_and]
          split <;> rfl
      · cases hrun
    · obtain ⟨n, herror⟩ := execute_of_write?_short hwrite hshort
      cases herror.symm.trans hrun
  · have htarget := target?_ne_of_write? site.font.scale area fun f h => hwrite ⟨f, h⟩
    have hkept : (finalState (ins.execute site w)).cells area = w.cells area :=
      Operation.keeps_content site ins htarget w
    have hnothing :
        ins.opcode.written? site.font.scale w.stack.values area location = none := by
      unfold Opcode.written?
      split
      · next hother _ =>
          refine if_neg ?_
          rintro ⟨rfl, -⟩
          exact hwrite ⟨_, hother⟩
      · rfl
    rw [hrun, finalState_ok] at hkept
    rw [hkept, hnothing]
    exact Option.map_id'.symm

/-- An instruction that fails leaves the memories as they were. -/
theorem cells_of_execute_error {fault : Fault} {w' : Workspace}
    (hrun : ins.execute site w = .error fault w') (area : Area) :
    w'.cells area = w.cells area := by
  by_cases hwrite : ∃ f, ins.opcode.write? site.font.scale = some (area, f)
  · obtain ⟨f, hwrite⟩ := hwrite
    rcases w.two_operands_or_short with ⟨v, l, rest, hvalues⟩ | hshort
    · rw [execute_of_write? hwrite hvalues] at hrun
      split at hrun
      · cases hrun
      · cases hrun
        exact Workspace.cells_popped ..
    · obtain ⟨n, herror⟩ := execute_of_write?_short hwrite hshort
      cases herror.symm.trans hrun
      exact Workspace.cells_popped ..
  · have htarget := target?_ne_of_write? site.font.scale area fun f h => hwrite ⟨f, h⟩
    have hkept : (finalState (ins.execute site w)).cells area = w.cells area :=
      Operation.keeps_content site ins htarget w
    rw [hrun, finalState_error] at hkept
    exact hkept

/-- The memories keep their sizes, whether or not an instruction succeeds. -/
theorem size_cells_execute (ins : Instruction) (site : Site) (w : Workspace) (area : Area) :
    ((finalState (ins.execute site w)).cells area).values.size =
      (w.cells area).values.size := by
  cases hrun : ins.execute site w with
  | error fault w' => rw [finalState_error, cells_of_execute_error hrun]
  | ok _ w' =>
      -- A memory has a location just if it had it before.
      have hlocations (location : Nat) : (w'.cells area).values.size ≤ location ↔
          (w.cells area).values.size ≤ location := by
        rw [← Array.getElem?_eq_none_iff, getElem?_cells_of_execute_ok hrun, Option.map_eq_none_iff,
          Array.getElem?_eq_none_iff]
      exact Nat.le_antisymm ((hlocations _).2 (Nat.le_refl _)) ((hlocations _).1 (Nat.le_refl _))

end Instruction

end GridFit
