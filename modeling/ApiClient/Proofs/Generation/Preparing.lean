import Mathlib.Data.List.Forall2
import ApiClient.Generation
import ApiClient.Proofs.Endpoint.Validation

/-!
# What is generated

* `Source.Lists`: the endpoints of sources, one source after the other;
* `Source.readAll_eq_ok_iff`, `Source.readAll_eq_error_iff`: what reading sources comes to;
* `validateAll_eq_ok_iff`: a list of endpoints passes if each of them does;
* `prepare_eq_ok_iff`: when something can be generated, and what;
* `Fails`, `prepare_eq_error_iff`: why nothing can be generated;
* `exists_fails_iff`: when nothing can be generated, without the order of the checks.
-/

namespace ApiClient

namespace Source

/-- The endpoints of sources, one source after the other. -/
def Lists (sources : List Source) (endpoints : List Endpoint) : Prop :=
  ∃ lists, List.Forall₂ (fun source list => source.read = .ok list) sources lists ∧
    lists.flatten = endpoints

theorem readAll_eq_ok_iff {sources : List Source} {endpoints : List Endpoint} :
    readAll sources = .ok endpoints ↔ Lists sources endpoints := by
  induction sources generalizing endpoints with
  | nil =>
    simp only [readAll, Lists, List.forall₂_nil_left_iff, exists_eq_left, List.flatten_nil,
      Except.ok.injEq]
  | cons source sources ih =>
    rw [readAll, bind_eq_ok_iff]
    simp only [bind_eq_ok_iff, pure_eq_ok_iff, ih, Lists, List.forall₂_cons_left_iff]
    constructor
    · rintro ⟨list, hlist, more, ⟨lists, hlists, rfl⟩, rfl⟩
      exact ⟨list :: lists, ⟨list, lists, hlist, hlists, rfl⟩, rfl⟩
    · rintro ⟨_, ⟨list, lists, hlist, hlists, rfl⟩, rfl⟩
      exact ⟨list, hlist, lists.flatten, ⟨lists, hlists, rfl⟩, rfl⟩

theorem readAll_eq_error_iff {sources : List Source} {fault : Fault} :
    readAll sources = .error fault ↔ FailsFirst read sources fault := by
  induction sources with
  | nil => simp [readAll, not_failsFirst_nil]
  | cons source sources ih =>
    rw [readAll, bind_eq_error_iff, failsFirst_cons_iff, ← exists_and_right]
    refine or_congr_right (exists_congr fun list => and_congr_right fun _ => ?_)
    rw [bind_eq_error_iff, ih]
    simp [pure, Except.pure]

end Source

namespace Generation

theorem validateAll_eq_ok_iff {endpoints : List Endpoint} :
    validateAll endpoints = .ok () ↔ ∀ e ∈ endpoints, e.validate = .ok () := by
  induction endpoints with
  | nil => simp [validateAll]
  | cons e endpoints ih =>
    rw [validateAll, bind_unit_eq_ok_iff, List.forall_mem_cons, ih]

/-- The sources can be read, every endpoint passes the check, and no two have one name. -/
theorem prepare_eq_ok_iff {config : Config} {sources : List Source} {g : Generation} :
    prepare config sources = .ok g ↔
      ∃ endpoints, Source.readAll sources = .ok endpoints ∧
        (∀ e ∈ endpoints, e.validate = .ok ()) ∧ (endpoints.map Endpoint.name).Nodup ∧
        ⟨config, endpoints, partsOf config⟩ = g := by
  rw [prepare, bind_eq_ok_iff]
  refine exists_congr fun endpoints => ?_
  rw [mapError_eq_ok_iff, bind_unit_eq_ok_iff, mapError_eq_ok_iff, validateAll_eq_ok_iff,
    ← firstRepeated?_eq_none_iff]
  refine and_congr_right fun _ => and_congr_right fun _ => ?_
  cases firstRepeated? (endpoints.map Endpoint.name) with
  | some name => simp [throw_ne_ok]
  | none => simp [pure_eq_ok_iff]

theorem validateAll_eq_error_iff {endpoints : List Endpoint} {fault : Endpoint.Fault} :
    validateAll endpoints = .error fault ↔ FailsFirst Endpoint.validate endpoints fault := by
  induction endpoints with
  | nil => simp [validateAll, not_failsFirst_nil]
  | cons e endpoints ih =>
    rw [validateAll, bind_eq_error_iff, failsFirst_cons_iff, ← exists_and_right]
    exact or_congr_right (exists_congr fun _ => and_congr_right fun _ => ih)

/-- Why nothing can be generated from sources: the first that cannot be read, or else the first
endpoint that does not pass the check, or else the first name that is found a second time. -/
inductive Fails (sources : List Source) : Fault → Prop where
  | source {fault : Source.Fault} (h : FailsFirst Source.read sources fault) :
      Fails sources (.source fault)
  | endpoint {endpoints : List Endpoint} {fault : Endpoint.Fault}
      (hread : Source.Lists sources endpoints)
      (h : FailsFirst Endpoint.validate endpoints fault) : Fails sources (.endpoint fault)
  | repeated {endpoints : List Endpoint} {before after : List String} {name : String}
      (hread : Source.Lists sources endpoints) (hvalid : ∀ e ∈ endpoints, e.validate = .ok ())
      (hnames : endpoints.map Endpoint.name = before ++ name :: after) (hnew : before.Nodup)
      (hmem : name ∈ before) : Fails sources (.repeated name)

theorem prepare_eq_error_iff {config : Config} {sources : List Source} {fault : Fault} :
    prepare config sources = .error fault ↔ Fails sources fault := by
  rw [prepare, bind_eq_error_iff, mapError_eq_error_iff]
  simp only [mapError_eq_ok_iff, Source.readAll_eq_error_iff, Source.readAll_eq_ok_iff,
    bind_eq_error_iff, mapError_eq_error_iff, validateAll_eq_error_iff]
  constructor
  · rintro (⟨fault, h, rfl⟩ | ⟨endpoints, hread, ⟨fault, h, rfl⟩ | ⟨_, hvalid, h⟩⟩)
    · exact .source h
    · exact .endpoint hread h
    · cases hname : firstRepeated? (endpoints.map Endpoint.name) with
      | none =>
        rw [hname] at h
        cases h
      | some name =>
        rw [hname] at h
        obtain rfl := Except.error.inj h
        obtain ⟨before, after, hnames, hnew, hmem⟩ := firstRepeated?_eq_some_iff.mp hname
        exact .repeated hread (validateAll_eq_ok_iff.mp hvalid) hnames hnew hmem
  · rintro (h | ⟨hread, h⟩ | ⟨hread, hvalid, hnames, hnew, hmem⟩)
    · exact .inl ⟨_, h, rfl⟩
    · exact .inr ⟨_, hread, .inl ⟨_, h, rfl⟩⟩
    · refine .inr ⟨_, hread, .inr ⟨(), validateAll_eq_ok_iff.mpr hvalid, ?_⟩⟩
      rw [firstRepeated?_eq_some_iff.mpr ⟨_, _, hnames, hnew, hmem⟩]
      rfl

theorem exists_fails_iff {sources : List Source} :
    (∃ fault, Fails sources fault) ↔
      (∃ source ∈ sources, ∃ fault, source.read = .error fault) ∨
        ∃ endpoints, Source.Lists sources endpoints ∧
          ((∃ e ∈ endpoints, ∃ fault, e.validate = .error fault) ∨
            ¬ (endpoints.map Endpoint.name).Nodup) := by
  constructor
  · rintro ⟨_, h | ⟨hread, h⟩ | ⟨hread, -, hnames, -, hmem⟩⟩
    · exact .inl (exists_failsFirst_iff.mp ⟨_, h⟩)
    · exact .inr ⟨_, hread, .inl (exists_failsFirst_iff.mp ⟨_, h⟩)⟩
    · refine .inr ⟨_, hread, .inr fun hnodup => ?_⟩
      rw [hnames, List.nodup_append] at hnodup
      exact hnodup.2.2 _ hmem _ List.mem_cons_self rfl
  · rintro (h | ⟨endpoints, hread, h⟩)
    · obtain ⟨_, h⟩ := exists_failsFirst_iff.mpr h
      exact ⟨_, .source h⟩
    · by_cases hvalid : ∀ e ∈ endpoints, e.validate = .ok ()
      · have hrepeated : ¬ (endpoints.map Endpoint.name).Nodup := by
          rcases h with ⟨e, he, fault, hfault⟩ | h
          · rw [hvalid e he] at hfault
            cases hfault
          · exact h
        cases hname : firstRepeated? (endpoints.map Endpoint.name) with
        | none => exact absurd (firstRepeated?_eq_none_iff.mp hname) hrepeated
        | some name =>
          obtain ⟨before, after, hnames, hnew, hmem⟩ := firstRepeated?_eq_some_iff.mp hname
          exact ⟨_, .repeated hread hvalid hnames hnew hmem⟩
      · have hfails : ∃ e ∈ endpoints, ∃ fault, e.validate = .error fault := by
          simp only [not_forall] at hvalid
          obtain ⟨e, he, hne⟩ := hvalid
          cases hfault : e.validate with
          | ok _ => exact absurd hfault hne
          | error fault => exact ⟨e, he, fault, hfault⟩
        obtain ⟨_, h⟩ := exists_failsFirst_iff.mpr hfails
        exact ⟨_, .endpoint hread h⟩

end Generation

end ApiClient
