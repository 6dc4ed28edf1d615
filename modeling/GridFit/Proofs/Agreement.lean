import GridFit.Proofs.Computation

/-!
# Computations side by side

What it means that a computation does the same from two states that are related, such as
states that differ in a limit. The first of the two may be refused something that the
second is granted. After a refusal nothing is said of the second one.
-/

namespace GridFit

variable {σ α β : Type} {refused : Fault → Prop} {R : σ → σ → Prop}

/-- Two outcomes agree if they have the same value or the same fault and leave related
states, or if the first one is a refusal. -/
inductive Agree (refused : Fault → Prop) (R : σ → σ → Prop) :
    EStateM.Result Fault σ α → EStateM.Result Fault σ α → Prop
  | ok (a : α) {s t} (h : R s t) : Agree refused R (.ok a s) (.ok a t)
  | error (fault : Fault) {s t} (h : R s t) : Agree refused R (.error fault s) (.error fault t)
  | refused {fault s result} (h : refused fault) : Agree refused R (.error fault s) result

/-- The same outcome agrees with itself. -/
theorem Agree.refl (result : EStateM.Result Fault σ α) : Agree refused Eq result result := by
  cases result with
  | ok a s => exact .ok a rfl
  | error fault s => exact .error fault rfl

/-- A computation respects a relation of states if its outcomes from related states
agree. -/
def Respects (refused : Fault → Prop) (R : σ → σ → Prop) (x : EStateM Fault σ α) : Prop :=
  ∀ s t, R s t → Agree refused R (x s) (x t)

/-- Outcomes still agree when what follows a success agrees. -/
theorem Agree.bind {x y : EStateM Fault σ α} {f g : α → EStateM Fault σ β} {s t : σ}
    (h : Agree refused R (x s) (y t))
    (hnext : ∀ a s' t', R s' t' → Agree refused R (f a s') (g a t')) :
    Agree refused R ((x >>= f) s) ((y >>= g) t) := by
  rw [bind_apply, bind_apply]
  generalize x s = first at h ⊢
  generalize y t = second at h ⊢
  cases h with
  | ok a h => exact hnext a _ _ h
  | error fault h => exact .error fault h
  | refused h => exact .refused h

namespace Respects

theorem pure (a : α) : Respects refused R (Pure.pure a : EStateM Fault σ α) :=
  fun _ _ h => .ok a h

theorem throw (fault : Fault) :
    Respects refused R (MonadExcept.throw fault : EStateM Fault σ α) :=
  fun _ _ h => .error fault h

theorem attempt (r : Except Fault α) : Respects refused R (GridFit.attempt r) := by
  intro s t h
  cases r with
  | ok a => exact .ok a h
  | error fault => exact .error fault h

theorem modify {f : σ → σ} (hf : ∀ s t, R s t → R (f s) (f t)) :
    Respects refused R (modify f : EStateM Fault σ Unit) :=
  fun s t h => .ok () (hf s t h)

theorem bind {x : EStateM Fault σ α} {f : α → EStateM Fault σ β} (hx : Respects refused R x)
    (hf : ∀ a, Respects refused R (f a)) : Respects refused R (x >>= f) :=
  fun s t h => (hx s t h).bind fun a s' t' h' => hf a s' t' h'

/-- What follows a look at the state has to depend on nothing in which related states
differ. -/
theorem get_bind {f : σ → EStateM Fault σ β} (hsame : ∀ s t, R s t → f t = f s)
    (hf : ∀ s, Respects refused R (f s)) : Respects refused R (get >>= f) := by
  intro s t h
  simp only [bind_apply, get_apply, hsame s t h]
  exact hf s s t h

theorem ite {p : Prop} [Decidable p] {x y : EStateM Fault σ α} (hx : Respects refused R x)
    (hy : Respects refused R y) : Respects refused R (if p then x else y) := by
  split
  · exact hx
  · exact hy

end Respects

end GridFit
