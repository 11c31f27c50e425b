import ApiClient.Failure
import ApiClient.Proofs.Endpoint.Grammar
import ApiClient.Proofs.Endpoint.Validation
import ApiClient.Proofs.Text.Identifier
import ApiClient.Proofs.Text.Trim

/-!
# Endpoints that are accepted

* `Template.HasNames`: the names in braces of a template;
* `placeholders_eq_ok_iff`, `placeholders_eq_error_iff`: they are what is read of a template of the
  grammar, and reading fails at the first brace that spoils it;
* `Endpoint.IsValid`: what an endpoint has to be;
* `Endpoint.violations`: the conditions in their order, each with its faults;
* `validate_accepts_valid`: valid endpoints are accepted, and others have the fault of the first
  condition that they violate.
-/

namespace ApiClient

namespace Template

/-! ## Names in braces -/

/-- The names in braces of a template, in order. -/
def HasNames (template : String) (names : List String) : Prop :=
  ∃ pieces : List Segment, (∀ piece ∈ pieces, piece.IsPlain) ∧ print pieces = template ∧
    pieces.filterMap Segment.name? = names

variable {template : String} {names : List String}

theorem placeholders_eq_ok_iff : placeholders template = .ok names ↔ HasNames template names := by
  rw [placeholders, map_eq_ok_iff]
  constructor
  · rintro ⟨pieces, hpieces, hnames⟩
    refine ⟨pieces, isPlain_of_segments hpieces, ?_, hnames⟩
    rw [print, print_of_segments hpieces, String.ofList_toList]
  · rintro ⟨pieces, hplain, rfl, hnames⟩
    obtain ⟨found, hfound, hsame, -⟩ := exists_segments_print hplain
    exact ⟨found, hfound, hsame.trans hnames⟩

theorem HasNames.unique {names' : List String} (h : HasNames template names)
    (h' : HasNames template names') : names = names' := by
  rw [← placeholders_eq_ok_iff] at h h'
  exact Except.ok.inj (h.symm.trans h')

theorem exists_placeholders_iff :
    (∃ names, placeholders template = .ok names) ↔ IsTemplate template.toList := by
  rw [← exists_segments_iff]
  simp only [placeholders, map_eq_ok_iff]
  constructor
  · rintro ⟨names, pieces, hpieces, -⟩
    exact ⟨pieces, hpieces⟩
  · rintro ⟨pieces, hpieces⟩
    exact ⟨_, pieces, hpieces, rfl⟩

/-- The fault of the first brace that is opened and has no name and closing brace behind it. -/
def IsSpoilt (template : String) (fault : Fault) : Prop :=
  ∃ before rest, template.toList = before ++ '{' :: rest ∧ IsTemplate before ∧ fault.Spoils rest

theorem placeholders_eq_error_iff {fault : Fault} :
    placeholders template = .error fault ↔ IsSpoilt template fault := by
  rw [IsSpoilt, ← rounds_error_iff, rounds_iff, placeholders, segments]
  cases scan none [] template.toList <;> simp [Functor.map, Except.map]

end Template

namespace Endpoint

variable {e : Endpoint} {fault : Fault}

theorem hasEmptyPath_iff : e.hasEmptyPath = true ↔ ∀ c ∈ e.path.toList, c = '/' := by
  rw [hasEmptyPath, List.isEmpty_iff, Text.stripSlashes, Text.strip_eq_nil_iff]
  simp only [beq_iff_eq]

/-! ## Conditions -/

/-- What an endpoint has to be: the name is an identifier that the client does not use for itself,
the path has more than slashes and is a template of the grammar, and no parameter is declared
twice. -/
structure IsValid (e : Endpoint) : Prop where
  name : Text.IsItemName e.name
  free : e.name ≠ "new" ∧ e.name ≠ "call"
  path : ∃ c ∈ e.path.toList, c ≠ '/'
  template : Template.IsTemplate e.path.toList
  distinct : ∀ names, Template.HasNames e.path names → (e.params ++ names).Nodup

/-- A parameter is declared twice, and before that no other one is. -/
def Repeats (e : Endpoint) (parameter : String) : Prop :=
  ∃ names before after, Template.HasNames e.path names ∧
    e.params ++ names = before ++ parameter :: after ∧ before.Nodup ∧ parameter ∈ before

/-- The conditions on an endpoint in their order, each with the faults of its violation. -/
def violations (e : Endpoint) : List (Fault → Prop) :=
  [fun fault => fault = .badName e.name ∧ ¬ Text.IsItemName e.name,
    fun fault => fault = .reservedName e.name ∧ (e.name = "new" ∨ e.name = "call"),
    fun fault => fault = .emptyPath e.name ∧ ∀ c ∈ e.path.toList, c = '/',
    fun fault => ∃ spoils, fault = .template e.path spoils ∧ Template.IsSpoilt e.path spoils,
    fun fault => ∃ parameter, fault = .repeatedParameter parameter e.name ∧ e.Repeats parameter]

/-! ## Acceptance -/

theorem mem_reservedNames_iff {name : String} :
    name ∈ reservedNames ↔ name = "new" ∨ name = "call" := by
  simp [reservedNames]

theorem validate_eq_ok_iff_isValid : e.validate = .ok () ↔ e.IsValid := by
  rw [validate_eq_ok_iff, Text.isIdentifier_iff, ← Bool.not_eq_true, hasEmptyPath_iff,
    mem_reservedNames_iff, not_or, not_forall]
  simp only [Template.placeholders_eq_ok_iff]
  constructor
  · rintro ⟨hname, hfree, hpath, names, hnames, hnodup⟩
    refine ⟨hname, hfree, by simpa using hpath, ?_, fun names' hnames' => ?_⟩
    · exact Template.exists_placeholders_iff.mp ⟨names, Template.placeholders_eq_ok_iff.mpr hnames⟩
    · exact hnames.unique hnames' ▸ hnodup
  · intro h
    obtain ⟨names, hnames⟩ := Template.exists_placeholders_iff.mpr h.template
    rw [Template.placeholders_eq_ok_iff] at hnames
    exact ⟨h.name, h.free, by simpa using h.path, names, hnames, h.distinct names hnames⟩

theorem repeats_iff {names : List String} (h : Template.HasNames e.path names)
    {parameter : String} :
    e.Repeats parameter ↔ firstRepeated? (e.params ++ names) = some parameter := by
  rw [firstRepeated?_eq_some_iff]
  constructor
  · rintro ⟨names', before, after, hnames', heq, hnodup, hmem⟩
    exact ⟨before, after, hnames'.unique h ▸ heq, hnodup, hmem⟩
  · rintro ⟨before, after, heq, hnodup, hmem⟩
    exact ⟨names, before, after, h, heq, hnodup, hmem⟩

theorem placeholders_eq_error_iff :
    e.placeholders = .error fault ↔
      ∃ spoils, fault = .template e.path spoils ∧ Template.IsSpoilt e.path spoils := by
  rw [placeholders, mapError_eq_error_iff]
  simp only [Template.placeholders_eq_error_iff]
  exact exists_congr fun spoils => and_comm.trans (and_congr_left' eq_comm)

theorem validate_eq_error_iff :
    e.validate = .error fault ↔ FirstViolated e.violations fault := by
  unfold validate violations
  dsimp only
  refine check_eq_error_iff_firstViolated (by simp [← Text.isIdentifier_iff]) ?_
  refine check_eq_error_iff_firstViolated (by simp [reservedNames]) ?_
  refine check_eq_error_iff_firstViolated hasEmptyPath_iff ?_
  refine bind_eq_error_iff_firstViolated (fun _ => placeholders_eq_error_iff) fun names hnames => ?_
  rw [placeholders, mapError_eq_ok_iff, Template.placeholders_eq_ok_iff] at hnames
  simp only [FirstViolated, and_false, or_false, repeats_iff hnames]
  cases firstRepeated? (e.params ++ names) with
  | none => simp [pure, Except.pure]
  | some parameter =>
    simp [throw, throwThe, MonadExceptOf.throw, eq_comm]

/-! ## Every endpoint -/

/-- An endpoint is accepted if it is valid, and otherwise has the fault of the first condition that
it violates. -/
theorem validate_accepts_valid (e : Endpoint) :
    (e.validate = .ok () ↔ e.IsValid) ∧
      ∀ fault, (e.validate = .error fault ↔ FirstViolated e.violations fault) ∧
        (Failure.endpoint fault).kind = .config :=
  ⟨validate_eq_ok_iff_isValid, fun _ => ⟨validate_eq_error_iff, rfl⟩⟩

/-- The parameter whose second occurrence comes first is repeated, here that of a placeholder. -/
example : Endpoint.validate ⟨"find", .get, "/a/{id}/{x}/{id}", ["y", "x", "z"]⟩ =
    .error (.repeatedParameter "x" "find") := by
  rfl

end Endpoint

end ApiClient
