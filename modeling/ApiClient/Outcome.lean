/-!
# Outcomes

* `Outcome`: what an operation leaves, whether it fails or not;
* `Outcome.andThen`: an operation behind another one;
* `Outcome.map`, `Outcome.mapFailure`: an outcome with its state or its failure seen differently;
* `andThen_assoc`, `map_andThen`: three operations one after the other, and a state seen differently
  all the way.

What an operation has done before it fails stays done, so the state is there in any case.
-/

namespace ApiClient

/-- What an operation leaves: the state behind it and what went wrong, if something did. -/
structure Outcome (ε σ : Type) where
  state : σ
  failure? : Option ε := none
  deriving DecidableEq, Repr, Inhabited

namespace Outcome

variable {ε ε' σ τ : Type}

/-- Goes on with `next`, unless something went wrong. -/
def andThen (o : Outcome ε σ) (next : σ → Outcome ε σ) : Outcome ε σ :=
  match o.failure? with
  | none => next o.state
  | some _ => o

/-- The same outcome with the state seen through `f`. -/
def map (f : σ → τ) (o : Outcome ε σ) : Outcome ε τ :=
  { state := f o.state, failure? := o.failure? }

/-- The same outcome with the failure seen through `f`. -/
def mapFailure (f : ε → ε') (o : Outcome ε σ) : Outcome ε' σ :=
  { state := o.state, failure? := o.failure?.map f }

@[simp] theorem andThen_of_success (s : σ) (next : σ → Outcome ε σ) :
    (Outcome.mk s none).andThen next = next s := rfl

@[simp] theorem andThen_of_failure (s : σ) (e : ε) (next : σ → Outcome ε σ) :
    (Outcome.mk s (some e)).andThen next = ⟨s, some e⟩ := rfl

theorem andThen_done (o : Outcome ε σ) : (o.andThen fun s => { state := s }) = o := by
  obtain ⟨s, _ | e⟩ := o <;> rfl

theorem andThen_assoc (o : Outcome ε σ) (next last : σ → Outcome ε σ) :
    (o.andThen next).andThen last = o.andThen fun s => (next s).andThen last := by
  obtain ⟨s, _ | e⟩ := o <;> rfl

theorem map_andThen {f : τ → σ} {o : Outcome ε τ} {next : τ → Outcome ε τ}
    {next' : σ → Outcome ε σ} (h : ∀ t, (next t).map f = next' (f t)) :
    (o.andThen next).map f = (o.map f).andThen next' := by
  obtain ⟨t, _ | e⟩ := o
  · exact h t
  · rfl

end Outcome

end ApiClient
