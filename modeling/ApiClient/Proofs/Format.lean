import Mathlib.Logic.Function.Basic
import ApiClient.Format
import ApiClient.Proofs.Text.Trim

/-!
# Tags of formats

* `Format.IsNamedBy`: the tags that name a format;
* `Format.ofTag?_eq_some_iff`: they are the ones that are read as it;
* `Format.isNamedBy_tag`, `Format.eq_of_isNamedBy`: every format has a tag, and no tag has two.
-/

namespace ApiClient.Format

/-- A tag names a format if it is the tag of that format up to ASCII case, with white space around
it. -/
def IsNamedBy (f : Format) (tag : String) : Prop :=
  ∃ before core after, tag.toList = before ++ core ++ after ∧
    (∀ c ∈ before, Text.isBlank c = true) ∧ (∀ c ∈ after, Text.isBlank c = true) ∧
    core.map Char.toLower = f.tag.toList.map Char.toLower

theorem ofTag?_tag (f : Format) : ofTag? f.tag = some f := by
  cases f <;> rfl

theorem tag_injective : Function.Injective tag := by
  intro f f' h
  rw [← Option.some.injEq, ← ofTag?_tag, h, ofTag?_tag]

/-! ## The letters of a tag -/

theorem toLower_of_isBlank {c : Char} (h : Text.isBlank c = true) : c.toLower = c := by
  refine dif_neg ?_
  rintro ⟨hfirst, hlast⟩
  have hfirst : 65 ≤ c.toNat := hfirst
  have hlast : c.toNat ≤ 90 := hlast
  simp only [Text.isBlank, Bool.or_eq_true, Bool.and_eq_true, decide_eq_true_eq, beq_iff_eq] at h
  omega

theorem map_toLower_tag (f : Format) : f.tag.toList.map Char.toLower = f.tag.toList := by
  cases f <;> rfl

theorem isBlank_of_mem_tag (f : Format) : ∀ c ∈ f.tag.toList, Text.isBlank c = false := by
  have hall : f.tag.toList.all (fun c => !Text.isBlank c) = true := by
    cases f <;> rfl
  simpa using hall

/-- Nothing is trimmed off the letters of a tag. -/
theorem strip_core {f : Format} {core : List Char}
    (h : core.map Char.toLower = f.tag.toList) : Text.strip Text.isBlank core = core := by
  refine Text.strip_eq_self fun c hc => Bool.eq_false_iff.mpr fun hblank => ?_
  have hmem : c.toLower ∈ f.tag.toList := h ▸ List.mem_map_of_mem hc
  rw [toLower_of_isBlank hblank] at hmem
  rw [f.isBlank_of_mem_tag c hmem] at hblank
  cases hblank

theorem tag_eq_lowercase_iff {f : Format} {tag : String} :
    f.tag = lowercase (Text.trim tag) ↔ f.IsNamedBy tag := by
  rw [lowercase, Text.trim, String.toList_ofList, ← String.toList_inj, String.toList_ofList,
    IsNamedBy, map_toLower_tag]
  constructor
  · intro h
    obtain ⟨before, after, htag, hbefore, hafter⟩ := Text.exists_strip_eq Text.isBlank tag.toList
    exact ⟨before, _, after, htag, hbefore, hafter, h.symm⟩
  · rintro ⟨before, core, after, htag, hbefore, hafter, hcore⟩
    rw [htag, Text.strip_append hbefore hafter, strip_core hcore, hcore]

/-- The tags that are read as a format are those that name it. -/
theorem ofTag?_eq_some_iff {f : Format} {tag : String} :
    ofTag? tag = some f ↔ f.IsNamedBy tag := by
  rw [← tag_eq_lowercase_iff]
  constructor
  · intro h
    rw [ofTag?] at h
    simpa using List.find?_some h
  · intro h
    rw [ofTag?, ← h]
    cases f <;> rfl

theorem isNamedBy_tag (f : Format) : f.IsNamedBy f.tag := ofTag?_eq_some_iff.mp f.ofTag?_tag

theorem eq_of_isNamedBy {f f' : Format} {tag : String} (h : f.IsNamedBy tag)
    (h' : f'.IsNamedBy tag) : f = f' :=
  Option.some.inj ((ofTag?_eq_some_iff.mpr h).symm.trans (ofTag?_eq_some_iff.mpr h'))

end ApiClient.Format
