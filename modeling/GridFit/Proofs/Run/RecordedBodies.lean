import GridFit.Proofs.Registry
import GridFit.Proofs.Run.Reachable

/-!
# Recorded bodies

Branch and definition markers always have their effect, so none of them is recorded.
Hence a body that is replayed cannot branch or define anything.
-/

namespace GridFit

/-- A definition whose body neither branches nor defines. -/
def Definition.IsPlain (d : Definition) : Prop :=
  ∀ ins ∈ d.body, ins.IsPlain

theorem Definition.IsPlain.push {d : Definition} (h : d.IsPlain) {ins : Instruction}
    (hins : ins.IsPlain) : Definition.IsPlain { d with body := d.body.push ins } := by
  intro other hother
  rcases Array.mem_push.1 hother with hother | rfl
  · exact h other hother
  · exact hins

namespace Machine

/-- All bodies of both registries are plain, also those of open definitions. -/
def PlainBodies (m : Machine) : Prop :=
  ∀ kind, (m.registry kind).Forall fun _ d => d.IsPlain

/-- No rule of dispatch records a marker. -/
theorem invariant_plainBodies : Invariant PlainBodies where
  requestedJump _ h := h
  callDepth _ h := h
  dispatched := by
    intro sequence index ins m result h hrule
    cases hrule with
    | recorded hplain hexec hrec hrecord =>
        exact forall_withRegistry h ((h _).record hrecord fun d _ hd => hd.push hplain)
    | opened hkind hvalues hinsert =>
        exact forall_withRegistry h ((h _).insert hinsert (by simp [Definition.IsPlain]))
    | closed hkind hrec hclose =>
        exact forall_withRegistry h ((h _).close hclose fun d hd => hd)
    | _ => exact h

theorem plainBodies_ofOptions (o : Options) : PlainBodies (ofOptions o) := by
  intro kind entry hentry
  cases kind <;> simp [ofOptions, registry] at hentry

/-- The body of a function that can be called is plain. -/
theorem PlainBodies.isPlain_of_get {m : Machine} (h : m.PlainBodies) {f : Value}
    {d : Definition} (hget : m.functions.get f = .ok d) : d.IsPlain :=
  h .function _ (Registry.mem_of_get hget)

end Machine

end GridFit
