/-!
# Results and failures

* `bind_eq_ok_iff`, `bind_unit_eq_ok_iff`, `map_eq_ok_iff`, `mapError_eq_ok_iff`: where a computed
  result comes from;
* `bind_eq_error_iff`, `mapError_eq_error_iff`: where a failure comes from;
* `mapError_ok`, `mapError_error`: a failure seen differently;
* `pure_eq_ok_iff`, `throw_ne_ok`, `check_eq_ok_iff`: the end of a computation, and a result behind
  a check;
* `FailsFirst`: the first failure among the elements of a list;
* `FirstViolated`: the failure of the first condition that is violated, with
  `bind_eq_error_iff_firstViolated` and `check_eq_error_iff_firstViolated` to go on behind a check;
* `Agree`: computations of which both fail or both have results, with `Agree.bind` to go on;
* `Coincide`: computations that fail in the same way or have related results.
-/

namespace ApiClient

variable {ε ε' α β : Type}

theorem bind_eq_ok_iff {x : Except ε α} {f : α → Except ε β} {b : β} :
    x >>= f = .ok b ↔ ∃ a, x = .ok a ∧ f a = .ok b := by
  cases x with
  | error e => simp [bind, Except.bind]
  | ok a => simp [bind, Except.bind]

theorem bind_unit_eq_ok_iff {x : Except ε Unit} {f : Unit → Except ε β} {b : β} :
    x >>= f = .ok b ↔ x = .ok () ∧ f () = .ok b := by
  rw [bind_eq_ok_iff]
  constructor
  · rintro ⟨⟨⟩, h⟩
    exact h
  · intro h
    exact ⟨(), h⟩

theorem map_eq_ok_iff {x : Except ε α} {f : α → β} {b : β} :
    f <$> x = .ok b ↔ ∃ a, x = .ok a ∧ f a = b := by
  cases x with
  | error e => simp [Functor.map, Except.map]
  | ok a => simp [Functor.map, Except.map]

theorem mapError_ok (f : ε → ε') (a : α) : (Except.ok a).mapError f = .ok a := rfl

theorem mapError_error (f : ε → ε') (e : ε) :
    (Except.error e : Except ε α).mapError f = .error (f e) := rfl

theorem mapError_eq_ok_iff {x : Except ε α} {f : ε → ε'} {a : α} :
    x.mapError f = .ok a ↔ x = .ok a := by
  cases x with
  | error e => simp [mapError_error]
  | ok a => simp [mapError_ok]

theorem bind_eq_error_iff {x : Except ε α} {f : α → Except ε β} {e : ε} :
    x >>= f = .error e ↔ x = .error e ∨ ∃ a, x = .ok a ∧ f a = .error e := by
  cases x with
  | error e => simp [bind, Except.bind]
  | ok a => simp [bind, Except.bind]

theorem mapError_eq_error_iff {x : Except ε α} {f : ε → ε'} {e : ε'} :
    x.mapError f = .error e ↔ ∃ e', x = .error e' ∧ f e' = e := by
  cases x with
  | error e => simp [mapError_error]
  | ok a => simp [mapError_ok]

theorem pure_eq_ok_iff {a b : α} : (pure a : Except ε α) = .ok b ↔ a = b := by
  simp [pure, Except.pure]

theorem throw_ne_ok (e : ε) (a : α) : (throw e : Except ε α) ≠ .ok a := nofun

theorem check_eq_ok_iff {p : Prop} [Decidable p] {e : ε} {f : α → Except ε β} {y : Except ε β}
    {b : β} : (if p then throw e >>= f else y) = .ok b ↔ ¬ p ∧ y = .ok b := by
  by_cases hp : p
  · rw [if_pos hp]
    simp [bind_eq_ok_iff, throw_ne_ok, hp]
  · rw [if_neg hp]
    simp [hp]

/-! ## The first failure -/

/-- An element of a list fails in a certain way, and none before it does. -/
def FailsFirst (f : α → Except ε β) (l : List α) (e : ε) : Prop :=
  ∃ before x after, l = before ++ x :: after ∧ (∀ y ∈ before, ∃ b, f y = .ok b) ∧ f x = .error e

variable {f : α → Except ε β} {l : List α} {e : ε}

theorem not_failsFirst_nil : ¬ FailsFirst f [] e := by
  rintro ⟨before, x, after, h, -⟩
  exact absurd h (by simp)

theorem failsFirst_cons_iff {x : α} :
    FailsFirst f (x :: l) e ↔ f x = .error e ∨ (∃ b, f x = .ok b) ∧ FailsFirst f l e := by
  constructor
  · rintro ⟨before, y, after, hl, hbefore, hy⟩
    cases before with
    | nil =>
      obtain ⟨rfl, rfl⟩ := List.cons_eq_cons.mp hl
      exact .inl hy
    | cons z before =>
      obtain ⟨rfl, rfl⟩ := List.cons_eq_cons.mp hl
      rw [List.forall_mem_cons] at hbefore
      exact .inr ⟨hbefore.1, before, y, after, rfl, hbefore.2, hy⟩
  · rintro (hx | ⟨hx, before, y, after, rfl, hbefore, hy⟩)
    · exact ⟨[], x, l, rfl, by simp, hx⟩
    · exact ⟨x :: before, y, after, rfl, List.forall_mem_cons.mpr ⟨hx, hbefore⟩, hy⟩

theorem exists_failsFirst_iff : (∃ e, FailsFirst f l e) ↔ ∃ x ∈ l, ∃ e, f x = .error e := by
  induction l with
  | nil => simp [not_failsFirst_nil]
  | cons x l ih =>
    simp only [failsFirst_cons_iff, exists_or, exists_and_left, ih, List.mem_cons, exists_eq_or_imp]
    cases f x with
    | error e => simp
    | ok b => simp

/-! ## The first violation -/

/-- The failure of the first of several conditions that is violated. Each condition is given by the
failures that its violation has. -/
def FirstViolated : List (ε → Prop) → ε → Prop
  | [], _ => False
  | violated :: conditions, e =>
    violated e ∨ (∀ e', ¬ violated e') ∧ FirstViolated conditions e

variable {violated : ε → Prop} {conditions : List (ε → Prop)}

theorem bind_eq_error_iff_firstViolated {x : Except ε α} {f : α → Except ε β}
    (hx : ∀ e, x = .error e ↔ violated e)
    (hf : ∀ a, x = .ok a → (f a = .error e ↔ FirstViolated conditions e)) :
    x >>= f = .error e ↔ FirstViolated (violated :: conditions) e := by
  rw [bind_eq_error_iff, FirstViolated, ← hx]
  simp only [← hx]
  cases x with
  | error e' => simp
  | ok a => simp [hf a rfl]

theorem check_eq_error_iff_firstViolated {p q : Prop} [Decidable p] (hpq : p ↔ q) {e₀ : ε}
    {f : α → Except ε β} {y : Except ε β} (hy : y = .error e ↔ FirstViolated conditions e) :
    (if p then throw e₀ >>= f else y) = .error e ↔
      FirstViolated ((fun e => e = e₀ ∧ q) :: conditions) e := by
  rw [FirstViolated]
  by_cases hp : p
  · simp [hp, hpq.mp hp, throw, throwThe, MonadExceptOf.throw, bind, Except.bind, eq_comm]
  · simp [hp, mt hpq.mpr hp, hy]

/-! ## Computations that agree -/

/-- Two computations of which both fail, or both have results that are related. -/
inductive Agree {ε ε' α β : Type} (R : α → β → Prop) : Except ε α → Except ε' β → Prop
  | ok {a : α} {b : β} (h : R a b) : Agree R (.ok a) (.ok b)
  | error (e : ε) (e' : ε') : Agree R (.error e) (.error e')

namespace Agree

variable {γ δ : Type} {R : α → β → Prop} {S : γ → δ → Prop} {x : Except ε α} {y : Except ε' β}

theorem bind (h : Agree R x y) {f : α → Except ε γ} {g : β → Except ε' δ}
    (hf : ∀ a b, R a b → Agree S (f a) (g b)) : Agree S (x >>= f) (y >>= g) := by
  cases h with
  | ok h => exact hf _ _ h
  | error e e' => exact .error e e'

theorem map (h : Agree R x y) {f : α → γ} {g : β → δ} (hf : ∀ a b, R a b → S (f a) (g b)) :
    Agree S (f <$> x) (g <$> y) := by
  cases h with
  | ok h => exact .ok (hf _ _ h)
  | error e e' => exact .error e e'

theorem mapError {ε₁ ε₂ : Type} (h : Agree R x y) (f : ε → ε₁) (g : ε' → ε₂) :
    Agree R (x.mapError f) (y.mapError g) := by
  cases h with
  | ok h => exact .ok h
  | error e e' => exact .error _ _

/-- A computation agrees with itself if its result is related to itself. -/
theorem self {R : α → α → Prop} {x : Except ε α} (h : ∀ a, x = .ok a → R a a) : Agree R x x := by
  cases x with
  | error e => exact .error e e
  | ok a => exact .ok (h a rfl)

theorem refl (x : Except ε α) : Agree (· = ·) x x := self fun _ _ => rfl

/-- Computations that agree have the same results as far as related results look the same. -/
theorem map_eq_ok_iff (h : Agree R x y) {f : α → γ} {g : β → γ} (hf : ∀ a b, R a b → f a = g b)
    {c : γ} : f <$> x = .ok c ↔ g <$> y = .ok c := by
  cases h with
  | ok h => simp [Functor.map, Except.map, hf _ _ h]
  | error e e' => simp [Functor.map, Except.map]

end Agree

/-! ## Computations that coincide -/

/-- Two computations with the same failure, or with results that are related. -/
inductive Coincide {ε α β : Type} (R : α → β → Prop) : Except ε α → Except ε β → Prop
  | ok {a : α} {b : β} (h : R a b) : Coincide R (.ok a) (.ok b)
  | error (e : ε) : Coincide R (.error e) (.error e)

/-- Going on in two ways that coincide. -/
theorem Coincide.bind {γ : Type} {R : β → γ → Prop} (x : Except ε α) {f : α → Except ε β}
    {g : α → Except ε γ} (h : ∀ a, Coincide R (f a) (g a)) : Coincide R (x >>= f) (x >>= g) := by
  cases x with
  | error e => exact .error e
  | ok a => exact h a

end ApiClient
