import ApiClient.Outcome

/-!
# Outcomes that look the same

* `Outcome.Alike`: outcomes with the same failure and states that look the same;
* `Alike.andThen`, `Alike.map`, `Alike.mapFailure`: they stay so when the same is done with both.
-/

namespace ApiClient.Outcome

variable {ε ε' σ τ : Type} {R : σ → σ → Prop} {S : τ → τ → Prop}

/-- Outcomes with the same failure and related states. -/
structure Alike (R : σ → σ → Prop) (o o' : Outcome ε σ) : Prop where
  failure? : o.failure? = o'.failure?
  state : R o.state o'.state

theorem Alike.andThen {o o' : Outcome ε σ} (h : Alike R o o') {next next' : σ → Outcome ε σ}
    (hnext : ∀ s t, R s t → Alike R (next s) (next' t)) :
    Alike R (o.andThen next) (o'.andThen next') := by
  obtain ⟨s, _ | e⟩ := o
  all_goals
    obtain ⟨t, failure?⟩ := o'
    obtain ⟨hfailure, hstate⟩ := h
    obtain rfl : _ = failure? := hfailure
  · exact hnext s t hstate
  · exact ⟨rfl, hstate⟩

theorem Alike.map {o o' : Outcome ε σ} (h : Alike R o o') {f f' : σ → τ}
    (hf : ∀ s t, R s t → S (f s) (f' t)) : Alike S (o.map f) (o'.map f') :=
  ⟨h.failure?, hf _ _ h.state⟩

theorem Alike.mapFailure {o o' : Outcome ε σ} (h : Alike R o o') (f : ε → ε') :
    Alike R (o.mapFailure f) (o'.mapFailure f) :=
  ⟨congrArg (Option.map f) h.failure?, h.state⟩

end ApiClient.Outcome
