import HeyNilo.Machine

namespace Machine

variable {σ τ ε : Type*} {step : σ → ε → Option σ} {step' : τ → ε → Option τ} {R : σ → τ → Prop}

/-- Every step from a state is matched, for the same event, by one from each related state. -/
def Simulated (step : σ → ε → Option σ) (step' : τ → ε → Option τ) (R : σ → τ → Prop) : Prop :=
  ∀ s u e t, R s u → step s e = some t → ∃ v, step' u e = some v ∧ R t v

theorem Simulated.run (h : Simulated step step' R) {s t : σ} {u : τ} {es : List ε} (hs : R s u)
    (hr : run step s es = some t) : ∃ v, run step' u es = some v ∧ R t v := by
  induction es generalizing s u with
  | nil =>
    cases Option.some.inj hr
    exact ⟨u, rfl, hs⟩
  | cons e es ih =>
    obtain ⟨s', hs', hr⟩ := run_cons_iff.mp hr
    obtain ⟨u', hu', hnext⟩ := h s u e s' hs hs'
    obtain ⟨v, hv, ht⟩ := ih hnext hr
    exact ⟨v, run_cons_iff.mpr ⟨u', hu', hv⟩, ht⟩

end Machine
