import ApiClient.Proofs.Request.Form
import ApiClient.Proofs.Results

/-!
# What a request carries

* `request_eq_ok_iff`: when a call has a request, and which one;
* `extension_suffix`: an address ends in the extension of its format;
* `request_carries`: the arguments that are no part of the path are read back from the body or the
  query string.
-/

namespace ApiClient.Endpoint

variable {e : Endpoint} {call : Call} {r : Request}

/-- The request to `address` that carries `form` where the method has it. -/
def carry (m : Method) (address form : List Char) : Request :=
  if m.hasBody then
    { method := m, url := String.ofList address, body? := some (String.ofList form) }
  else
    { method := m
      url := String.ofList (address ++ if form.isEmpty then [] else '?' :: form)
      body? := none }

/-- A call has a request if the template has no fault, every placeholder a value and every other
argument a declaration. -/
theorem request_eq_ok_iff :
    e.request call = .ok r ↔
      ∃ pieces path, Template.segments e.path = .ok pieces ∧
        e.fillPath call.arguments pieces = .ok path ∧
        (∀ argument ∈ remaining (pieces.filterMap Segment.name?) call.arguments,
          argument.1 ∈ e.params) ∧
        r = carry e.method (address call path)
          (Form.encode (remaining (pieces.filterMap Segment.name?) call.arguments)) := by
  rw [request, bind_eq_ok_iff]
  refine exists_congr fun pieces => ?_
  rw [mapError_eq_ok_iff, bind_eq_ok_iff, ← exists_and_left]
  refine exists_congr fun path => ?_
  refine and_congr_right fun _ => and_congr_right fun _ => ?_
  dsimp only
  -- the first argument without a declaration, if there is any
  cases hfind : (remaining (pieces.filterMap Segment.name?) call.arguments).find?
      fun argument => !e.params.contains argument.1 with
  | some argument =>
    have hmem := List.mem_of_find?_eq_some hfind
    have hnot := List.find?_some hfind
    refine iff_of_false (fun he => by cases he) fun h => ?_
    simp [h.1 argument hmem] at hnot
  | none =>
    have hall : ∀ argument ∈ remaining (pieces.filterMap Segment.name?) call.arguments,
        argument.1 ∈ e.params := by
      simpa using hfind
    rw [and_iff_right hall, carry]
    dsimp only
    by_cases hb : e.method.hasBody = true
    · rw [if_pos hb, if_pos hb]
      exact ⟨fun he => by cases he; rfl, fun he => by rw [he]; rfl⟩
    · rw [if_neg hb, if_neg hb]
      exact ⟨fun he => by cases he; rfl, fun he => by rw [he]; rfl⟩

theorem hasBody_iff {m : Method} : m.hasBody = true ↔ m ∈ [.post, .put, .patch] := by
  cases m <;> decide

theorem remaining_eq (placeholders : List String) (arguments : List Argument) :
    remaining placeholders arguments =
      arguments.filter fun argument => argument.1 ∉ placeholders := by
  simp [remaining]

theorem extension_suffix (call : Call) (path : List Char) :
    '.' :: call.format.extension.toList <:+ address call path :=
  List.suffix_append _ _

theorem carry_parts (m : Method) (address : List Char) (arguments : List Argument) :
    if m ∈ [.post, .put, .patch] then
      (carry m address (Form.encode arguments)).body? =
          some (String.ofList (Form.encode arguments)) ∧
        (carry m address (Form.encode arguments)).url = String.ofList address
    else
      (carry m address (Form.encode arguments)).body? = none ∧
        (carry m address (Form.encode arguments)).url = String.ofList
          (address ++ if arguments = [] then [] else '?' :: Form.encode arguments) := by
  by_cases hm : m ∈ [.post, .put, .patch]
  · rw [if_pos hm, carry, if_pos (hasBody_iff.mpr hm)]
    exact ⟨rfl, rfl⟩
  · rw [if_neg hm, carry, if_neg (mt hasBody_iff.mp hm)]
    refine ⟨rfl, ?_⟩
    simp only [List.isEmpty_iff, Form.encode_eq_nil_iff]

/-- What a request carries beside its path are the arguments that are no placeholders, in the order
of the call. -/
theorem request_carries (h : e.request call = .ok r) :
    ∃ pieces path form, Template.segments e.path = .ok pieces ∧
      e.fillPath call.arguments pieces = .ok path ∧
      '.' :: call.format.extension.toList <:+ address call path ∧
      let arguments := call.arguments.filter fun argument =>
        argument.1 ∉ pieces.filterMap Segment.name?
      (if e.method ∈ [.post, .put, .patch] then
        r.body? = some (String.ofList form) ∧ r.url = String.ofList (address call path)
      else
        r.body? = none ∧ r.url = String.ofList
          (address call path ++ if arguments = [] then [] else '?' :: form)) ∧
      if arguments = [] then form = []
      else
        (∀ piece ∈ Text.split '&' form, '=' ∈ piece) ∧
          (Text.split '&' form).mapM Form.decodePair? = some arguments := by
  obtain ⟨pieces, path, hpieces, hpath, -, rfl⟩ := request_eq_ok_iff.mp h
  refine ⟨pieces, path, Form.encode (remaining (pieces.filterMap Segment.name?) call.arguments),
    hpieces, hpath, extension_suffix call path, ?_⟩
  rw [← remaining_eq]
  generalize remaining (pieces.filterMap Segment.name?) call.arguments = arguments
  exact ⟨carry_parts e.method (address call path) arguments, Form.encode_parts arguments⟩

/-- Names and values with separators, beyond ASCII and empty, one name twice. -/
theorem request_carries_find :
    (Endpoint.mk "find" .get "items/{id}" ["q", ""]).request
        ⟨"http://h/", none, .json, [("q", "&="), ("id", "a/b"), ("", "€"), ("q", "")]⟩ =
      .ok ⟨.get, "http://h/items/a%2Fb.json?q=%26%3D&=%E2%82%AC&q=", none⟩ ∧
    ∃ address form, "http://h/items/a%2Fb.json?q=%26%3D&=%E2%82%AC&q=" =
        String.ofList (address ++ '?' :: form) ∧ ".json".toList <:+ address ∧
      (Text.split '&' form).mapM Form.decodePair? = some [("q", "&="), ("", "€"), ("q", "")] := by
  have h : (Endpoint.mk "find" .get "items/{id}" ["q", ""]).request
        ⟨"http://h/", none, .json, [("q", "&="), ("id", "a/b"), ("", "€"), ("q", "")]⟩ =
      .ok ⟨.get, "http://h/items/a%2Fb.json?q=%26%3D&=%E2%82%AC&q=", none⟩ := by rfl
  refine ⟨h, ?_⟩
  obtain ⟨pieces, path, form, hpieces, -, hext, hparts, hform⟩ := request_carries h
  obtain rfl : pieces = [.literal "items/", .placeholder "id"] :=
    Except.ok.inj (hpieces.symm.trans rfl)
  exact ⟨_, form, hparts.2, hext, hform.2⟩

end ApiClient.Endpoint
