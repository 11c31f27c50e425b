import ApiClient.Proofs.Text.Percent
import ApiClient.Proofs.Text.Pieces
import ApiClient.Request

/-!
# Arguments in a query string or a body

* `decodePair?_encodePair`: an encoded pair is read back, whatever its name and its value hold;
* `encode_eq_nil_iff`: only the empty list of arguments has an empty form;
* `encode_parts`: the pieces of a form stand for its arguments;
* `decode?_encode`: a form is read back.
-/

namespace ApiClient.Form

open Text

theorem not_mem_encode_equals (s : List Char) : '=' ∉ Percent.encode s :=
  Percent.not_mem_encode (by decide) (by decide) s

theorem not_mem_encode_ampersand (s : List Char) : '&' ∉ Percent.encode s :=
  Percent.not_mem_encode (by decide) (by decide) s

/-! ## One pair -/

theorem not_mem_encodePair (argument : Argument) : '&' ∉ encodePair argument := by
  rw [encodePair, List.mem_append, List.mem_cons, not_or, not_or]
  exact ⟨not_mem_encode_ampersand _, by decide, not_mem_encode_ampersand _⟩

theorem mem_encodePair (argument : Argument) : '=' ∈ encodePair argument := by
  simp [encodePair]

theorem decodePair?_encodePair (argument : Argument) :
    decodePair? (encodePair argument) = some argument := by
  obtain ⟨key, value⟩ := argument
  have hkey := not_mem_encode_equals key.toList
  have hbefore : (encodePair (key, value)).takeWhile (· != '=') = Percent.encode key.toList :=
    takeWhile_ne_append hkey _
  have hbehind : ((encodePair (key, value)).dropWhile (· != '=')).drop 1 =
      Percent.encode value.toList := by
    rw [encodePair, dropWhile_ne_append hkey]
    rfl
  rw [decodePair?, hbefore, hbehind, Percent.decode?_encode, Percent.decode?_encode,
    String.ofList_toList, String.ofList_toList]
  rfl

/-! ## All pairs -/

variable {arguments : List Argument}

theorem split_encode (h : arguments ≠ []) :
    split '&' (encode arguments) = arguments.map encodePair := by
  refine split_intercalate (by simpa using h) fun piece hp => ?_
  obtain ⟨argument, -, rfl⟩ := List.mem_map.mp hp
  exact not_mem_encodePair argument

/-- Even a pair of empty texts leaves its sign of equality. -/
theorem encode_eq_nil_iff : encode arguments = [] ↔ arguments = [] := by
  constructor
  · intro h
    by_contra hne
    have hnil : [] ∈ arguments.map encodePair := by
      rw [← split_encode hne, h]
      exact List.mem_singleton.mpr rfl
    obtain ⟨argument, -, he⟩ := List.mem_map.mp hnil
    have hmem := mem_encodePair argument
    rw [he] at hmem
    cases hmem
  · rintro rfl
    rfl

theorem mapM_decodePair? (arguments : List Argument) :
    (arguments.map encodePair).mapM decodePair? = some arguments := by
  induction arguments with
  | nil => rfl
  | cons argument arguments ih =>
    rw [List.map_cons, List.mapM_cons, decodePair?_encodePair, ih]
    rfl

/-- The form of no arguments is empty. Any other falls into pairs that are read back. -/
theorem encode_parts (arguments : List Argument) :
    if arguments = [] then encode arguments = []
    else
      (∀ piece ∈ split '&' (encode arguments), '=' ∈ piece) ∧
        (split '&' (encode arguments)).mapM decodePair? = some arguments := by
  by_cases h : arguments = []
  · rw [if_pos h, encode_eq_nil_iff]
    exact h
  · rw [if_neg h, split_encode h]
    refine ⟨fun piece hp => ?_, mapM_decodePair? arguments⟩
    obtain ⟨argument, -, rfl⟩ := List.mem_map.mp hp
    exact mem_encodePair argument

theorem decode?_encode (arguments : List Argument) :
    decode? (encode arguments) = some arguments := by
  rw [decode?]
  by_cases h : arguments = []
  · subst h
    rfl
  · rw [if_neg (by simpa [List.isEmpty_iff] using mt encode_eq_nil_iff.mp h), split_encode h,
      mapM_decodePair?]

end ApiClient.Form
