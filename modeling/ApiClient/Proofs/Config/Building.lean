import Mathlib.Tactic.Common
import ApiClient.Config
import ApiClient.Proofs.Results

/-!
# Configurations that make sense

* `build_eq_ok_iff`: when a draft describes a configuration, and which one;
* `nodup_of_build`, `mem_of_build`, `isIdentifier_of_build`: no format is listed twice, the default
  one is listed, and a module around every file has a name that can be written.
-/

namespace ApiClient.Config.Draft

theorem build_eq_ok_iff {draft : Draft} {config : Config} :
    draft.build = .ok config ↔
      ∃ first rest, readFormats [] draft.responseTypes = .ok (first :: rest) ∧
        ∃ defaultFormat,
          chooseDefault (first :: rest) first draft.defaultFormat? = .ok defaultFormat ∧
          (∀ name ∈ draft.moduleName?, Text.isIdentifier name = true) ∧
          (∀ version ∈ draft.defaultVersion?, isVersion version = true) ∧
          ⟨first :: rest, draft.moduleName?, defaultFormat, draft.defaultVersion?⟩ = config := by
  obtain ⟨tags, name?, tag?, version?⟩ := draft
  rw [build, bind_eq_ok_iff]
  constructor
  · rintro ⟨responseTypes, hread, h⟩
    cases responseTypes with
    | nil => cases h
    | cons first rest =>
      obtain ⟨defaultFormat, hdefault, h⟩ := bind_eq_ok_iff.mp h
      refine ⟨first, rest, hread, defaultFormat, hdefault, ?_⟩
      cases name? <;> cases version? <;>
        simpa [check_eq_ok_iff, pure, Except.pure] using h
  · rintro ⟨first, rest, hread, defaultFormat, hdefault, h⟩
    refine ⟨first :: rest, hread, bind_eq_ok_iff.mpr ⟨defaultFormat, hdefault, ?_⟩⟩
    cases name? <;> cases version? <;>
      simpa [check_eq_ok_iff, pure, Except.pure] using h

theorem nodup_of_readFormats {found formats : List Format} {tags : List String}
    (h : readFormats found tags = .ok formats) (hfound : found.Nodup) : formats.Nodup := by
  induction tags generalizing found with
  | nil => exact Except.ok.inj h ▸ hfound
  | cons tag tags ih =>
    obtain ⟨format, -, h⟩ := bind_eq_ok_iff.mp h
    refine ih h ?_
    split
    · exact hfound
    · next hnew =>
      refine List.nodup_append.mpr ⟨hfound, List.pairwise_singleton _ format, ?_⟩
      rintro f hf g hg rfl
      rw [List.mem_singleton.mp hg] at hf
      exact hnew (by simpa using hf)

theorem mem_of_chooseDefault {responseTypes : List Format} {first format : Format}
    {tag? : Option String} (h : chooseDefault responseTypes first tag? = .ok format)
    (hfirst : first ∈ responseTypes) : format ∈ responseTypes := by
  cases tag? with
  | none => exact Except.ok.inj h ▸ hfirst
  | some tag =>
    obtain ⟨found, -, h⟩ := bind_eq_ok_iff.mp h
    split at h
    · next hlisted =>
      obtain rfl := pure_eq_ok_iff.mp h
      simpa using hlisted
    · exact absurd h (throw_ne_ok _ _)

theorem nodup_of_build {draft : Draft} {config : Config} (h : draft.build = .ok config) :
    config.responseTypes.Nodup := by
  obtain ⟨first, rest, hread, -, -, -, -, rfl⟩ := build_eq_ok_iff.mp h
  exact nodup_of_readFormats hread .nil

theorem mem_of_build {draft : Draft} {config : Config} (h : draft.build = .ok config) :
    config.defaultFormat ∈ config.responseTypes := by
  obtain ⟨first, rest, -, format, hdefault, -, -, rfl⟩ := build_eq_ok_iff.mp h
  exact mem_of_chooseDefault hdefault List.mem_cons_self

theorem isIdentifier_of_build {draft : Draft} {config : Config} (h : draft.build = .ok config) :
    ∀ name ∈ config.moduleName?, Text.isIdentifier name = true := by
  obtain ⟨_, _, -, _, -, hname, -, rfl⟩ := build_eq_ok_iff.mp h
  exact hname

end ApiClient.Config.Draft
