import ApiClient.Failure
import ApiClient.Proofs.Endpoint.Grammar
import ApiClient.Proofs.Request.Address

/-!
# The outcome of a call

* `IsFirst`: the first element of a list with a property;
* `Endpoint.Lacks`: a placeholder without a value to take;
* `Endpoint.ComesTo`: what a call comes to, read off its endpoint and its arguments;
* `fillPath_of_isFirst`: the first placeholder without a value is the one that is missed;
* `map_request_of_comesTo`, `exists_comesTo`, `map_request_eq_iff`: a call comes to that and to
  nothing else;
* `request_outcome`: when calls fail, with which parameter, and what has no influence on it.
-/

namespace ApiClient

/-- The first element of a list with a property. -/
def IsFirst {α : Type} (p : α → Prop) (l : List α) (a : α) : Prop :=
  ∃ before after, l = before ++ a :: after ∧ p a ∧ ∀ b ∈ before, ¬ p b

section First

variable {α : Type} {p : α → Prop} {l : List α} {a b : α}

theorem not_isFirst_nil : ¬ IsFirst p [] a := by
  rintro ⟨before, after, h, -⟩
  exact absurd h (by simp)

theorem isFirst_cons_iff : IsFirst p (b :: l) a ↔ (p b ∧ a = b) ∨ (¬ p b ∧ IsFirst p l a) := by
  constructor
  · rintro ⟨before, after, h, ha, hbefore⟩
    cases before with
    | nil =>
      obtain ⟨rfl, rfl⟩ := List.cons_eq_cons.mp h
      exact .inl ⟨ha, rfl⟩
    | cons c before =>
      obtain ⟨rfl, rfl⟩ := List.cons_eq_cons.mp h
      rw [List.forall_mem_cons] at hbefore
      exact .inr ⟨hbefore.1, before, after, rfl, ha, hbefore.2⟩
  · rintro (⟨hb, rfl⟩ | ⟨hb, before, after, rfl, ha, hbefore⟩)
    · exact ⟨[], l, rfl, hb, List.forall_mem_nil _⟩
    · exact ⟨b :: before, after, rfl, ha, List.forall_mem_cons.mpr ⟨hb, hbefore⟩⟩

theorem exists_isFirst (h : ∃ a ∈ l, p a) : ∃ a, IsFirst p l a := by
  induction l with
  | nil => simp at h
  | cons b l ih =>
    by_cases hb : p b
    · exact ⟨b, isFirst_cons_iff.mpr (.inl ⟨hb, rfl⟩)⟩
    · simp only [List.mem_cons, exists_eq_or_imp, hb, false_or] at h
      obtain ⟨a, ha⟩ := ih h
      exact ⟨a, isFirst_cons_iff.mpr (.inr ⟨hb, ha⟩)⟩

theorem find?_of_isFirst {q : α → Bool} (h : IsFirst (fun a => q a = true) l a) :
    l.find? q = some a := by
  obtain ⟨before, after, rfl, ha, hbefore⟩ := h
  exact List.find?_eq_some_iff_append.mpr ⟨ha, before, after, rfl, by simpa using hbefore⟩

end First

namespace Endpoint

open Segment

variable {e : Endpoint} {call : Call} {arguments : List Argument}

/-- The first argument of a placeholder's name has an empty value, or there is none. -/
def Lacks (arguments : List Argument) (name : String) : Prop :=
  ∀ value, arguments.lookup name = some value → value = ""

/-- What a call of an endpoint comes to: a fault of its template, the first placeholder without a
value, the first argument that is neither a placeholder nor declared, or a request. -/
inductive ComesTo (e : Endpoint) (arguments : List Argument) : Except CallFault Method → Prop
  | malformed {fault : Template.Fault} (h : Template.segments e.path = .error fault) :
      ComesTo e arguments (.error (.template e.path fault))
  | missing {names : List String} {name : String} (h : Template.placeholders e.path = .ok names)
      (hfirst : IsFirst (Lacks arguments) names name) :
      ComesTo e arguments (.error (.missing name e.name))
  | unknown {names : List String} {argument : Argument}
      (h : Template.placeholders e.path = .ok names)
      (hsupplied : ∀ name ∈ names, ¬ Lacks arguments name)
      (hfirst : IsFirst (fun a : Argument => a.1 ∉ names ∧ a.1 ∉ e.params) arguments argument) :
      ComesTo e arguments (.error (.unknown argument.1 e.name))
  | sent {names : List String} (h : Template.placeholders e.path = .ok names)
      (hsupplied : ∀ name ∈ names, ¬ Lacks arguments name)
      (hknown : ∀ argument ∈ arguments, argument.1 ∈ names ∨ argument.1 ∈ e.params) :
      ComesTo e arguments (.ok e.method)

/-! ## Placeholders without values -/

theorem not_lacks_iff {name : String} :
    ¬ Lacks arguments name ↔ ∃ value, arguments.lookup name = some value ∧ value ≠ "" := by
  simp [Lacks]

theorem supplied_iff {pieces : List Segment} :
    Supplied arguments pieces ↔ ∀ name ∈ pieces.filterMap name?, ¬ Lacks arguments name := by
  simp only [Supplied, not_lacks_iff]

theorem pathValue?_eq_none_iff {name : String} :
    pathValue? arguments name = none ↔ Lacks arguments name := by
  rw [← not_iff_not, not_lacks_iff, ← ne_eq, Option.ne_none_iff_exists']
  simp only [pathValue?_eq_some_iff]

/-- Filling a path fails at the first placeholder without a value. -/
theorem fillPath_of_isFirst {pieces : List Segment} {name : String}
    (h : IsFirst (Lacks arguments) (pieces.filterMap name?) name) :
    e.fillPath arguments pieces = .error (.missing name e.name) := by
  induction pieces with
  | nil => exact absurd h not_isFirst_nil
  | cons piece pieces ih =>
    cases piece with
    | literal content =>
      rw [fillPath, ih h]
      rfl
    | placeholder other =>
      rw [List.filterMap_cons_some (by rfl : name? (.placeholder other) = some other),
        isFirst_cons_iff] at h
      rw [fillPath]
      rcases h with ⟨hlacks, rfl⟩ | ⟨hvalue, h⟩
      · rw [pathValue?_eq_none_iff.mpr hlacks]
      · obtain ⟨value, hvalue⟩ := not_lacks_iff.mp hvalue
        rw [pathValue?_eq_some_iff.mpr hvalue, ih h]
        rfl

/-! ## Outcomes -/

theorem exists_pieces {names : List String} (h : Template.placeholders e.path = .ok names) :
    ∃ pieces, Template.segments e.path = .ok pieces ∧ pieces.filterMap name? = names :=
  map_eq_ok_iff.mp h

/-- A call comes to what its endpoint and its arguments say. -/
theorem map_request_of_comesTo {outcome : Except CallFault Method}
    (h : ComesTo e call.arguments outcome) : (·.method) <$> e.request call = outcome := by
  cases h with
  | malformed h =>
    rw [request, h]
    rfl
  | missing h hfirst =>
    obtain ⟨pieces, hpieces, rfl⟩ := exists_pieces h
    rw [request, hpieces, mapError_ok]
    dsimp only [bind, Except.bind]
    rw [fillPath_of_isFirst hfirst]
    rfl
  | @unknown names argument h hsupplied hfirst =>
    obtain ⟨pieces, hpieces, rfl⟩ := exists_pieces h
    have hfill := fillPath_eq_ok_iff (e := e).mpr ⟨supplied_iff.mpr hsupplied, rfl⟩
    have hfind : (remaining (pieces.filterMap name?) call.arguments).find?
        (fun argument => !e.params.contains argument.1) = some argument := by
      rw [remaining, List.find?_filter]
      exact find?_of_isFirst (by simpa using hfirst)
    rw [request, hpieces, mapError_ok]
    dsimp only [bind, Except.bind]
    rw [hfill]
    dsimp only
    rw [hfind]
    rfl
  | sent h hsupplied hknown =>
    obtain ⟨pieces, hpieces, rfl⟩ := exists_pieces h
    have hfill := fillPath_eq_ok_iff (e := e).mpr ⟨supplied_iff.mpr hsupplied, rfl⟩
    have hdeclared : ∀ argument ∈ remaining (pieces.filterMap name?) call.arguments,
        argument.1 ∈ e.params := by
      intro argument ha
      rw [remaining_eq, List.mem_filter, decide_eq_true_eq] at ha
      exact (hknown argument ha.1).resolve_left ha.2
    rw [request_eq_ok_iff.mpr ⟨pieces, _, hpieces, hfill, hdeclared, rfl⟩]
    refine congrArg Except.ok ?_
    rw [carry]
    split <;> rfl

/-- Every call comes to something. -/
theorem exists_comesTo (e : Endpoint) (arguments : List Argument) :
    ∃ outcome, ComesTo e arguments outcome := by
  cases hpieces : Template.segments e.path with
  | error fault => exact ⟨_, .malformed hpieces⟩
  | ok pieces =>
    have hnames : Template.placeholders e.path = .ok (pieces.filterMap name?) := by
      rw [Template.placeholders, hpieces]
      rfl
    by_cases hlacks : ∃ name ∈ pieces.filterMap name?, Lacks arguments name
    · obtain ⟨name, hfirst⟩ := exists_isFirst hlacks
      exact ⟨_, .missing hnames hfirst⟩
    · have hsupplied : ∀ name ∈ pieces.filterMap name?, ¬ Lacks arguments name :=
        fun name hname hl => hlacks ⟨name, hname, hl⟩
      by_cases hunknown : ∃ a ∈ arguments, a.1 ∉ pieces.filterMap name? ∧ a.1 ∉ e.params
      · obtain ⟨argument, hfirst⟩ := exists_isFirst hunknown
        exact ⟨_, .unknown hnames hsupplied hfirst⟩
      · refine ⟨_, .sent hnames hsupplied fun argument ha => ?_⟩
        by_contra hnot
        exact hunknown ⟨argument, ha, not_or.mp hnot⟩

theorem map_request_eq_iff {outcome : Except CallFault Method} :
    (·.method) <$> e.request call = outcome ↔ ComesTo e call.arguments outcome := by
  constructor
  · rintro rfl
    obtain ⟨outcome, h⟩ := exists_comesTo e call.arguments
    rwa [map_request_of_comesTo h]
  · exact map_request_of_comesTo

theorem request_eq_error_iff {fault : CallFault} :
    e.request call = .error fault ↔ ComesTo e call.arguments (.error fault) := by
  rw [← map_request_eq_iff]
  cases e.request call with
  | error fault' => simp [Functor.map, Except.map]
  | ok r => simp [Functor.map, Except.map]

theorem exists_request_iff :
    (∃ r, e.request call = .ok r ∧ r.method = e.method) ↔
      ComesTo e call.arguments (.ok e.method) := by
  rw [← map_request_eq_iff, map_eq_ok_iff]

/-- Whether and how a call fails is not decided by the method. -/
theorem comesTo_error_of_method {m : Method} {fault : CallFault}
    (h : ComesTo { e with method := m } arguments (.error fault)) :
    ComesTo e arguments (.error fault) := by
  cases h with
  | malformed h => exact .malformed h
  | missing h hfirst => exact .missing h hfirst
  | unknown h hsupplied hfirst => exact .unknown h hsupplied hfirst

theorem exists_config_iff :
    (∃ fault, e.request call = .error fault ∧ (Failure.call fault).kind = .config) ↔
      ¬ Template.IsTemplate e.path.toList := by
  rw [← Template.exists_segments_iff]
  constructor
  · rintro ⟨fault, hfault, hkind⟩ ⟨pieces, hpieces⟩
    cases request_eq_error_iff.mp hfault with
    | malformed h => cases h.symm.trans hpieces
    | missing => cases hkind
    | unknown => cases hkind
  · intro h
    cases hpieces : Template.segments e.path with
    | error fault => exact ⟨_, request_eq_error_iff.mpr (.malformed hpieces), rfl⟩
    | ok pieces => exact absurd ⟨pieces, hpieces⟩ h

/-- A call comes to what its endpoint and its arguments say: a fault of the template if that is
none, else the first placeholder without a value, else the first argument that is not known, else a
request with the endpoint's method. Where it goes and the method have no influence on failures. An
endpoint that has been checked has a template, and its calls succeed if they give every placeholder
a value and pass nothing else but declared parameters. -/
theorem request_outcome (e : Endpoint) (call : Call) :
    (∀ outcome, (·.method) <$> e.request call = outcome ↔ ComesTo e call.arguments outcome) ∧
      ((∃ fault, e.request call = .error fault ∧ (Failure.call fault).kind = .config) ↔
        ¬ Template.IsTemplate e.path.toList) ∧
      (∀ (m : Method) (other : Call), other.arguments = call.arguments → ∀ fault,
        ({ e with method := m }).request other = .error fault ↔ e.request call = .error fault) ∧
      (e.validate = .ok () →
        (∀ fault, e.request call = .error fault → (Failure.call fault).kind ≠ .config) ∧
        ∃ names, Template.placeholders e.path = .ok names ∧
          ((∀ name ∈ names, ¬ Lacks call.arguments name) →
            (∀ argument ∈ call.arguments, argument.1 ∈ names ∨ argument.1 ∈ e.params) →
            ∃ r, e.request call = .ok r ∧ r.method = e.method)) := by
  refine ⟨fun outcome => map_request_eq_iff, exists_config_iff, ?_, fun hvalid => ⟨?_, ?_⟩⟩
  · intro m other hother fault
    rw [request_eq_error_iff, request_eq_error_iff, hother]
    exact ⟨comesTo_error_of_method, fun h => comesTo_error_of_method (m := e.method) h⟩
  · obtain ⟨-, -, -, names, hnames, -⟩ := validate_eq_ok_iff.mp hvalid
    obtain ⟨pieces, hpieces, -⟩ := exists_pieces hnames
    intro fault hfault hkind
    exact exists_config_iff.mp ⟨fault, hfault, hkind⟩
      (Template.exists_segments_iff.mp ⟨pieces, hpieces⟩)
  · obtain ⟨-, -, -, names, hnames, -⟩ := validate_eq_ok_iff.mp hvalid
    exact ⟨names, hnames, fun hsupplied hknown =>
      exists_request_iff.mpr (.sent hnames hsupplied hknown)⟩

/-- Two placeholders, of which the second has an empty value before a good one, beside an argument
that nobody declared: the placeholder is reported, whatever the method is. With values for both and
a declared argument the call succeeds. -/
theorem request_outcome_find :
    (Endpoint.mk "find" .get "/{id}/{of}" ["q"]).request
        ⟨"http://h", none, .json, [("of", ""), ("id", "1"), ("x", "y"), ("of", "2")]⟩ =
      .error (.missing "of" "find") ∧
    (Endpoint.mk "find" .put "/{id}/{of}" ["q"]).request
        ⟨"", some "v1", .xml, [("of", ""), ("id", "1"), ("x", "y"), ("of", "2")]⟩ =
      .error (.missing "of" "find") ∧
    ∃ r, (Endpoint.mk "find" .get "/{id}/{of}" ["q"]).request
        ⟨"", none, .xml, [("of", "2"), ("id", "1"), ("q", ""), ("of", "")]⟩ = .ok r ∧
      r.method = .get := by
  have hmissing : (Endpoint.mk "find" .get "/{id}/{of}" ["q"]).request
      ⟨"http://h", none, .json, [("of", ""), ("id", "1"), ("x", "y"), ("of", "2")]⟩ =
        .error (.missing "of" "find") := by
    rfl
  obtain ⟨-, -, hsame, -⟩ := request_outcome (Endpoint.mk "find" .get "/{id}/{of}" ["q"])
    ⟨"http://h", none, .json, [("of", ""), ("id", "1"), ("x", "y"), ("of", "2")]⟩
  obtain ⟨-, -, -, hvalid⟩ := request_outcome (Endpoint.mk "find" .get "/{id}/{of}" ["q"])
    ⟨"", none, .xml, [("of", "2"), ("id", "1"), ("q", ""), ("of", "")]⟩
  refine ⟨hmissing, (hsame .put ⟨"", some "v1", .xml, _⟩ rfl _).mpr hmissing, ?_⟩
  obtain ⟨-, names, hnames, hsucceeds⟩ := hvalid rfl
  obtain rfl : names = ["id", "of"] := Except.ok.inj (hnames.symm.trans rfl)
  refine hsucceeds (fun name hname => not_lacks_iff.mpr ?_) (by simp)
  simp only [List.mem_cons, List.not_mem_nil, or_false] at hname
  rcases hname with rfl | rfl
  · exact ⟨"1", rfl, by decide⟩
  · exact ⟨"2", rfl, by decide⟩

end Endpoint

end ApiClient
