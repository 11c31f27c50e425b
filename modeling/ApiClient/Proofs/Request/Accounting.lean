import Mathlib.Data.List.Perm.Basic
import ApiClient.Proofs.Request.Outcome

/-!
# Where the arguments of a call go

* `ofName`, `perm_ofName`: the arguments of a call, sorted by names;
* `filling`, `surplus`: the arguments that fill placeholders, the first of each name, and those that
  come behind them;
* `perm_filling`: every argument fills a placeholder, is none, or is one too many;
* `StandsFor`: the arguments that can be read off a request, each of them once;
* `standsFor_of_request`: a request stands for the arguments that fill placeholders and for those
  that are none;
* `arguments_accounted_for`: nothing else is lost of a call, and the rest is lost without a failure.
-/

namespace ApiClient.Endpoint

open Segment

variable {e : Endpoint} {call : Call} {r : Request} {names : List String}
  {arguments : List Argument}

/-! ## Arguments by their names -/

/-- The arguments of one name, in the order of the call. -/
def ofName (name : String) (arguments : List Argument) : List Argument :=
  arguments.filter (·.1 = name)

/-- The arguments that are named are those of each of the names. -/
theorem perm_ofName (h : names.Nodup) (arguments : List Argument) :
    (arguments.filter (·.1 ∈ names)).Perm (names.flatMap (ofName · arguments)) := by
  induction names with
  | nil => simp
  | cons name names ih =>
    obtain ⟨hname, hnames⟩ := List.nodup_cons.mp h
    have hone : (arguments.filter (·.1 ∈ name :: names)).filter (·.1 = name) =
        ofName name arguments := by
      rw [List.filter_filter, ofName]
      exact List.filter_congr fun argument _ => by simp +contextual
    have hothers : (arguments.filter (·.1 ∈ name :: names)).filter
        (fun argument => !decide (argument.1 = name)) = arguments.filter (·.1 ∈ names) := by
      rw [List.filter_filter]
      refine List.filter_congr fun argument _ => ?_
      by_cases ha : argument.1 = name <;> simp [ha, hname]
    rw [List.flatMap_cons, ← hone]
    refine (List.filter_append_perm (·.1 = name) _).symm.trans (List.Perm.append_left _ ?_)
    rw [hothers]
    exact ih hnames

/-- The arguments that fill placeholders: the first of each name. -/
def filling (names : List String) (arguments : List Argument) : List Argument :=
  names.flatMap fun name => (ofName name arguments).take 1

/-- The arguments with the names of placeholders that come behind the first ones. -/
def surplus (names : List String) (arguments : List Argument) : List Argument :=
  names.flatMap fun name => (ofName name arguments).drop 1

theorem perm_filling (h : names.Nodup) (arguments : List Argument) :
    arguments.Perm (filling names arguments ++ arguments.filter (·.1 ∉ names) ++
      surplus names arguments) := by
  have hnamed : (arguments.filter (·.1 ∈ names)).Perm
      (filling names arguments ++ surplus names arguments) := by
    refine (perm_ofName h arguments).trans (List.Perm.trans ?_ (List.flatMap_append_perm ..).symm)
    simp only [List.take_append_drop]
    rfl
  have hsplit := List.filter_append_perm (fun argument : Argument => decide (argument.1 ∈ names))
    arguments
  simp only [← decide_not] at hsplit
  refine hsplit.symm.trans ((hnamed.append_right _).trans ?_)
  rw [List.append_assoc, List.append_assoc]
  exact List.perm_append_comm.append_left _

theorem ofName_of_lookup {name value : String} (h : arguments.lookup name = some value) :
    ∃ rest, ofName name arguments = (name, value) :: rest := by
  induction arguments with
  | nil => cases h
  | cons argument arguments ih =>
    obtain ⟨key, content⟩ := argument
    rw [List.lookup_cons] at h
    by_cases hkey : key = name
    · subst hkey
      obtain rfl : content = value := by simpa using h
      exact ⟨_, List.filter_cons_of_pos (decide_eq_true rfl)⟩
    · have hne : (name == key) = false := beq_eq_false_iff_ne.mpr (Ne.symm hkey)
      rw [hne] at h
      obtain ⟨rest, hrest⟩ := ih h
      exact ⟨rest, (List.filter_cons_of_neg (by simpa using hkey)).trans hrest⟩

/-- Every placeholder that has an argument is filled by the first of its name. -/
theorem filling_eq (h : ∀ name ∈ names, ∃ value, arguments.lookup name = some value) :
    filling names arguments = names.map fun name => (name, (arguments.lookup name).getD "") := by
  induction names with
  | nil => rfl
  | cons name names ih =>
    obtain ⟨⟨value, hvalue⟩, hnames⟩ := List.forall_mem_cons.mp h
    obtain ⟨rest, hrest⟩ := ofName_of_lookup hvalue
    rw [filling, List.flatMap_cons, ← filling, ih hnames, hrest, List.map_cons, hvalue]
    rfl

theorem lookup_map {f : String → String} {name : String} (h : name ∈ names) :
    (names.map fun name => (name, f name)).lookup name = some (f name) := by
  induction names with
  | nil => cases h
  | cons other names ih =>
    rw [List.map_cons, List.lookup_cons]
    by_cases hname : name = other
    · rw [hname, beq_self_eq_true]
    · rw [beq_eq_false_iff_ne.mpr hname]
      exact ih ((List.mem_cons.mp h).resolve_left hname)

/-- The arguments that fill placeholders give the same path as all arguments. -/
theorem flatMap_fill_filling {pieces : List Segment}
    (h : ∀ name ∈ pieces.filterMap name?, ∃ value, arguments.lookup name = some value) :
    pieces.flatMap (fill (filling (pieces.filterMap name?) arguments)) =
      pieces.flatMap (fill arguments) := by
  rw [filling_eq h]
  refine List.flatMap_congr fun piece hpiece => ?_
  cases piece with
  | literal content => rfl
  | placeholder name =>
    have hname : name ∈ pieces.filterMap name? := List.mem_filterMap.mpr ⟨_, hpiece, rfl⟩
    obtain ⟨value, hvalue⟩ := h name hname
    rw [fill, fill, lookup_map hname, hvalue]
    rfl

theorem surplus_eq_nil_iff (h : ∀ name ∈ names, ∃ value, arguments.lookup name = some value) :
    surplus names arguments = [] ↔
      ∀ name ∈ names, (arguments.map Prod.fst).count name = 1 := by
  rw [surplus, List.flatMap_eq_nil_iff]
  refine forall₂_congr fun name hname => ?_
  obtain ⟨value, hvalue⟩ := h name hname
  obtain ⟨rest, hrest⟩ := ofName_of_lookup hvalue
  have hcount : (arguments.map Prod.fst).count name = (ofName name arguments).length := by
    rw [List.count, List.countP_map, List.countP_eq_length_filter, ofName]
    rfl
  rw [hcount, hrest, List.length_cons, List.drop_one, List.tail_cons]
  simp

/-! ## What a request stands for -/

/-- A request stands for arguments: the `taken` ones fill the placeholders of its path, one each and
in their order, and the `passed` ones are the pairs of its body or query string. -/
def StandsFor (e : Endpoint) (call : Call) (r : Request) (taken passed : List Argument) : Prop :=
  ∃ pieces form, Template.segments e.path = .ok pieces ∧
    taken.map Prod.fst = pieces.filterMap name? ∧ Form.decode? form = some passed ∧
    let address := address call (pieces.flatMap (fill taken))
    if e.method ∈ [.post, .put, .patch] then
      r.body? = some (String.ofList form) ∧ r.url = String.ofList address
    else
      r.body? = none ∧
        r.url = String.ofList (address ++ if passed = [] then [] else '?' :: form)

theorem standsFor_of_request (h : e.request call = .ok r)
    (hnames : Template.placeholders e.path = .ok names) :
    (∀ name ∈ names, ∃ value, call.arguments.lookup name = some value) ∧
      StandsFor e call r (filling names call.arguments)
        (call.arguments.filter (·.1 ∉ names)) := by
  obtain ⟨pieces, path, hpieces, hpath, -, rfl⟩ := request_eq_ok_iff.mp h
  obtain ⟨found, hfound, rfl⟩ := exists_pieces hnames
  obtain rfl : found = pieces := Except.ok.inj (hfound.symm.trans hpieces)
  obtain ⟨hsupplied, rfl⟩ := fillPath_eq_ok_iff.mp hpath
  have hvalues : ∀ name ∈ found.filterMap name?, ∃ value, call.arguments.lookup name = some value :=
    fun name hname => (hsupplied name hname).imp fun _ hvalue => hvalue.1
  refine ⟨hvalues, found, _, hpieces, ?_, Form.decode?_encode _, ?_⟩
  · rw [filling_eq hvalues, List.map_map]
    exact List.map_id _
  · rw [flatMap_fill_filling hvalues, ← remaining_eq]
    exact carry_parts e.method _ _

theorem length_filling (h : ∀ name ∈ names, ∃ value, arguments.lookup name = some value) :
    (filling names arguments).length = names.length := by
  rw [filling_eq h, List.length_map]

/-- Nothing is one too many exactly if the other arguments are as many as those of the call. -/
theorem surplus_eq_nil_iff_length (hnodup : names.Nodup)
    (h : ∀ name ∈ names, ∃ value, arguments.lookup name = some value) :
    surplus names arguments = [] ↔
      arguments.length = names.length + (arguments.filter (·.1 ∉ names)).length := by
  have hlength := (perm_filling hnodup arguments).length_eq
  rw [List.length_append, List.length_append, length_filling h] at hlength
  rw [← List.length_eq_zero_iff]
  omega

theorem surplus_eq_nil_iff_perm (hnodup : names.Nodup) :
    surplus names arguments = [] ↔
      arguments.Perm (filling names arguments ++ arguments.filter (·.1 ∉ names)) := by
  have hperm := perm_filling hnodup arguments
  constructor
  · intro hnil
    rwa [hnil, List.append_nil] at hperm
  · intro h
    have hlength := hperm.length_eq
    rw [List.length_append, ← h.length_eq] at hlength
    exact List.length_eq_zero_iff.mp (by omega)

/-- Every argument of a call of a checked endpoint fills a placeholder or is a pair of the body or
the query string, and each of these has its argument, unless a placeholder is named twice: then its
first argument counts, and the others are lost. Arguments of any other name make the call fail. -/
theorem arguments_accounted_for (h : e.validate = .ok ()) :
    ∃ names, Template.placeholders e.path = .ok names ∧
      (∀ call r, e.request call = .ok r →
        StandsFor e call r (filling names call.arguments)
          (call.arguments.filter (·.1 ∉ names)) ∧
        (∀ argument ∈ filling names call.arguments,
          call.arguments.lookup argument.1 = some argument.2) ∧
        call.arguments.Perm (filling names call.arguments ++ call.arguments.filter (·.1 ∉ names) ++
          surplus names call.arguments) ∧
        (call.arguments.Perm
            (filling names call.arguments ++ call.arguments.filter (·.1 ∉ names)) ↔
          ∀ name ∈ names, (call.arguments.map Prod.fst).count name = 1) ∧
        (call.arguments.length = names.length + (call.arguments.filter (·.1 ∉ names)).length ↔
          ∀ name ∈ names, (call.arguments.map Prod.fst).count name = 1)) ∧
      ∀ call : Call, (∃ argument ∈ call.arguments, argument.1 ∉ names ∧ argument.1 ∉ e.params) →
        ∃ fault, e.request call = .error fault := by
  obtain ⟨-, -, -, names, hnames, hnodup⟩ := validate_eq_ok_iff.mp h
  replace hnodup := (List.nodup_append.mp hnodup).2.1
  refine ⟨names, hnames, fun call r hr => ?_, ?_⟩
  · obtain ⟨hvalues, hstands⟩ := standsFor_of_request hr hnames
    refine ⟨hstands, ?_, perm_filling hnodup _, ?_, ?_⟩
    · rw [filling_eq hvalues]
      intro argument hargument
      obtain ⟨name, hname, rfl⟩ := List.mem_map.mp hargument
      obtain ⟨value, hvalue⟩ := hvalues name hname
      dsimp only
      rw [hvalue]
      rfl
    · rw [← surplus_eq_nil_iff_perm hnodup, surplus_eq_nil_iff hvalues]
    · rw [← surplus_eq_nil_iff_length hnodup hvalues, surplus_eq_nil_iff hvalues]
  · rintro call ⟨argument, hargument, hname, hparam⟩
    cases hrequest : e.request call with
    | error fault => exact ⟨fault, rfl⟩
    | ok r =>
      obtain ⟨pieces, -, hpieces, -, hknown, -⟩ := request_eq_ok_iff.mp hrequest
      obtain ⟨found, hfound, rfl⟩ := exists_pieces hnames
      obtain rfl : found = pieces := Except.ok.inj (hfound.symm.trans hpieces)
      rw [remaining_eq] at hknown
      exact absurd (hknown argument (List.mem_filter.mpr ⟨hargument, by simpa using hname⟩)) hparam

/-- Names and values in another order than placeholders and declarations, a declared name twice,
and a placeholder that is named once more. -/
theorem arguments_accounted_for_find :
    (Endpoint.mk "find" .get "{b}/{a}" ["q"]).validate = .ok () ∧
      (Endpoint.mk "find" .get "{b}/{a}" ["q"]).request
          ⟨"", none, .json, [("q", "1"), ("a", "2"), ("q", ""), ("b", "3"), ("a", "4")]⟩ =
        .ok ⟨.get, "/3/2.json?q=1&q=", none⟩ ∧
      StandsFor (Endpoint.mk "find" .get "{b}/{a}" ["q"])
        ⟨"", none, .json, [("q", "1"), ("a", "2"), ("q", ""), ("b", "3"), ("a", "4")]⟩
        ⟨.get, "/3/2.json?q=1&q=", none⟩ [("b", "3"), ("a", "2")] [("q", "1"), ("q", "")] ∧
      ∃ fault, (Endpoint.mk "find" .get "{b}/{a}" ["q"]).request
        ⟨"", none, .json, [("b", "3"), ("a", "2"), ("Q", "1")]⟩ = .error fault := by
  have hvalid : (Endpoint.mk "find" .get "{b}/{a}" ["q"]).validate = .ok () := by rfl
  have hrequest : (Endpoint.mk "find" .get "{b}/{a}" ["q"]).request
      ⟨"", none, .json, [("q", "1"), ("a", "2"), ("q", ""), ("b", "3"), ("a", "4")]⟩ =
        .ok ⟨.get, "/3/2.json?q=1&q=", none⟩ := by rfl
  obtain ⟨names, hnames, hstands, hfails⟩ := arguments_accounted_for hvalid
  obtain rfl : names = ["b", "a"] := Except.ok.inj (hnames.symm.trans rfl)
  exact ⟨hvalid, hrequest, (hstands _ _ hrequest).1,
    hfails ⟨"", none, .json, [("b", "3"), ("a", "2"), ("Q", "1")]⟩ ⟨("Q", "1"), by decide⟩⟩

/-- A placeholder that is named twice loses its second argument, and the call does not fail. -/
theorem request_loses_argument :
    (Endpoint.mk "find" .get "items/{id}" []).validate = .ok () ∧
      ∃ r, (Endpoint.mk "find" .get "items/{id}" []).request
          ⟨"", none, .xml, [("id", "1"), ("id", "2")]⟩ = .ok r ∧
        ¬ ∃ taken passed, StandsFor (Endpoint.mk "find" .get "items/{id}" [])
            ⟨"", none, .xml, [("id", "1"), ("id", "2")]⟩ r taken passed ∧
          [("id", "1"), ("id", "2")].Perm (taken ++ passed) := by
  have hrequest : (Endpoint.mk "find" .get "items/{id}" []).request
      ⟨"", none, .xml, [("id", "1"), ("id", "2")]⟩ = .ok ⟨.get, "/items/1.xml", none⟩ := by rfl
  refine ⟨by rfl, _, hrequest, ?_⟩
  rintro ⟨taken, passed, ⟨pieces, form, hpieces, hnames, -, hparts⟩, hperm⟩
  obtain rfl : pieces = [.literal "items/", .placeholder "id"] :=
    Except.ok.inj (hpieces.symm.trans rfl)
  have htaken : taken.length = 1 := by
    rw [← List.length_map (f := Prod.fst), hnames]
    rfl
  -- there is no query string, so that nothing is left for the second argument
  have hpassed : passed = [] := by
    by_contra hne
    have hurl := hparts.2
    rw [if_neg hne] at hurl
    have hmem : '?' ∈ "/items/1.xml".toList := by
      rw [show "/items/1.xml" = _ from hurl, String.toList_ofList]
      simp
    exact absurd hmem (by decide)
  have hlength := hperm.length_eq
  rw [List.length_append, htaken, hpassed] at hlength
  cases hlength

end ApiClient.Endpoint
