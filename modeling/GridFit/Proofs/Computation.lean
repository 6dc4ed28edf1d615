import GridFit.Fault

/-!
# Computations that may fail

How the parts of a computation with a state act on it, and what it means that a
computation keeps a part of the state. A computation that fails also leaves a state
behind, so keeping is about both outcomes.
-/

namespace GridFit

variable {ε σ α β γ : Type}

/-! ## Outcomes -/

theorem bind_apply (x : EStateM ε σ α) (f : α → EStateM ε σ β) (s : σ) :
    (x >>= f) s = match x s with
      | .ok a s' => f a s'
      | .error fault s' => .error fault s' := by
  simp only [bind, EStateM.bind]
  cases x s <;> rfl

/-- A computation in two parts succeeds if both of them do. -/
theorem ok_of_bind {x : EStateM ε σ α} {f : α → EStateM ε σ β} {s s' : σ} {b : β}
    (h : (x >>= f) s = .ok b s') : ∃ a t, x s = .ok a t ∧ f a t = .ok b s' := by
  rw [bind_apply] at h
  split at h
  · next a t ha => exact ⟨a, t, ha, h⟩
  · cases h

@[simp] theorem pure_apply (a : α) (s : σ) : (pure a : EStateM ε σ α) s = .ok a s := rfl

@[simp] theorem get_apply (s : σ) : (get : EStateM Fault σ σ) s = .ok s s := rfl

@[simp] theorem modify_apply (f : σ → σ) (s : σ) :
    (modify f : EStateM Fault σ Unit) s = .ok () (f s) := rfl

@[simp] theorem throw_apply (fault : Fault) (s : σ) :
    (throw fault : EStateM Fault σ α) s = .error fault s := rfl

@[simp] theorem attempt_ok (a : α) (s : σ) :
    (attempt (.ok a) : EStateM Fault σ α) s = .ok a s := rfl

@[simp] theorem attempt_error (fault : Fault) (s : σ) :
    (attempt (.error fault) : EStateM Fault σ α) s = .error fault s := rfl

/-- The state that a computation leaves behind, whether or not it fails. -/
def finalState : EStateM.Result Fault σ α → σ
  | .ok _ s => s
  | .error _ s => s

@[simp] theorem finalState_ok (a : α) (s : σ) :
    finalState (.ok a s : EStateM.Result Fault σ α) = s := rfl

@[simp] theorem finalState_error (fault : Fault) (s : σ) :
    finalState (.error fault s : EStateM.Result Fault σ α) = s := rfl

/-! ## Keeping a part of the state -/

/-- A computation keeps a part of the state if that part is the same afterwards, also
where it fails. -/
def Keeps (part : σ → γ) (x : EStateM Fault σ α) : Prop :=
  ∀ s, part (finalState (x s)) = part s

namespace Keeps

variable {part : σ → γ}

theorem pure (a : α) : Keeps part (Pure.pure a : EStateM Fault σ α) := fun _ => rfl

theorem get : Keeps part (MonadState.get : EStateM Fault σ σ) := fun _ => rfl

theorem throw (fault : Fault) : Keeps part (MonadExcept.throw fault : EStateM Fault σ α) :=
  fun _ => rfl

theorem attempt (r : Except Fault α) : Keeps part (GridFit.attempt r) := by
  intro s
  cases r <;> rfl

theorem modify {f : σ → σ} (h : ∀ s, part (f s) = part s) :
    Keeps part (modify f : EStateM Fault σ Unit) := h

theorem bind {x : EStateM Fault σ α} {f : α → EStateM Fault σ β} (hx : Keeps part x)
    (hf : ∀ a, Keeps part (f a)) : Keeps part (x >>= f) := by
  intro s
  have hxs := hx s
  rw [bind_apply]
  cases hr : x s with
  | ok a s' => exact (hf a s').trans (by simpa [hr] using hxs)
  | error fault s' => simpa [hr] using hxs

end Keeps

/-! ## Failing for some reasons only -/

/-- A computation raises no other faults than those of a class. -/
def Raises (possible : Fault → Prop) (x : EStateM Fault σ α) : Prop :=
  ∀ s fault s', x s = .error fault s' → possible fault

namespace Raises

variable {possible : Fault → Prop}

theorem pure (a : α) : Raises possible (Pure.pure a : EStateM Fault σ α) :=
  fun _ _ _ h => nomatch h

theorem get : Raises possible (MonadState.get : EStateM Fault σ σ) :=
  fun _ _ _ h => nomatch h

theorem modify (f : σ → σ) : Raises possible (modify f : EStateM Fault σ Unit) :=
  fun _ _ _ h => nomatch h

theorem throw {fault : Fault} (hfault : possible fault) :
    Raises possible (MonadExcept.throw fault : EStateM Fault σ α) := by
  intro s fault' s' h
  cases h
  exact hfault

theorem attempt {r : Except Fault α} (hr : ∀ fault, r = .error fault → possible fault) :
    Raises possible (GridFit.attempt r : EStateM Fault σ α) := by
  intro s fault s' h
  cases r with
  | ok a => cases h
  | error fault =>
      cases h
      exact hr _ rfl

theorem bind {x : EStateM Fault σ α} {f : α → EStateM Fault σ β} (hx : Raises possible x)
    (hf : ∀ a, Raises possible (f a)) : Raises possible (x >>= f) := by
  intro s fault s' h
  rw [bind_apply] at h
  cases hr : x s with
  | ok a t =>
      rw [hr] at h
      exact hf a _ _ _ h
  | error fault t =>
      rw [hr] at h
      cases h
      exact hx _ _ _ hr

end Raises

end GridFit
